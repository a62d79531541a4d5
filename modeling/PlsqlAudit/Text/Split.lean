/-!
# Cutting a text at a character
-/

namespace PlsqlAudit.Text

/-- The runs of characters between the occurrences of `c`; there is one more run
than there are occurrences. -/
def splitChars (c : Char) : List Char → List (List Char)
  | [] => [[]]
  | x :: rest =>
    if x = c then [] :: splitChars c rest
    else
      match splitChars c rest with
      | [] => [[x]]
      | run :: runs => (x :: run) :: runs

/-- The pieces of a text between the occurrences of `c`. -/
def split (c : Char) (s : String) : List String :=
  (splitChars c s.toList).map String.ofList

end PlsqlAudit.Text
