/-!
# Occurrences of one text in another
-/

namespace PlsqlAudit.Text

/-- True when the characters `part` stand in a row somewhere in the given ones. -/
def occursIn (part : List Char) : List Char → Bool
  | [] => part.isEmpty
  | c :: cs => part.isPrefixOf (c :: cs) || occursIn part cs

/-- True when the text `part` stands somewhere in `whole`. -/
def contains (whole part : String) : Bool :=
  occursIn part.toList whole.toList

/-- The given characters without the occurrences of `part`, found from the left. -/
def withoutChars (part cs : List Char) : List Char :=
  match cs with
  | [] => []
  | c :: rest =>
    if part.isPrefixOf (c :: rest) then withoutChars part (rest.drop (part.length - 1))
    else c :: withoutChars part rest
termination_by cs.length

/-- The text `whole` without the occurrences of `part`, found from the left.
What the cuts leave is not looked through again. -/
def without (whole part : String) : String :=
  String.ofList (withoutChars part.toList whole.toList)

/-- The text with every `c` replaced by `d`. -/
def replaceChar (c d : Char) (s : String) : String :=
  String.ofList (s.toList.map fun x => if x = c then d else x)

end PlsqlAudit.Text
