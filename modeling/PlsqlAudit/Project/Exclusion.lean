import PlsqlAudit.Text.Blank
import PlsqlAudit.Text.Occurrence

/-!
# Exclusion patterns

A pattern names files that are left out of an analysis.  Its stars are read by four
rules, of which the first that fits counts:

* `**/x/**` matches where `x` is a directory anywhere in the path;
* a pattern with two stars in a row matches by what stands before and after them,
  where one more star in the second part divides it once more;
* a pattern with one star matches by what stands before and after it;
* a pattern without stars matches the paths that start with it.
-/

namespace PlsqlAudit.Exclusion

/-- What stands before and after the first occurrence of `mark`. -/
def cutAt? (mark : List Char) : List Char → Option (List Char × List Char)
  | [] => if mark.isEmpty then some ([], []) else none
  | c :: cs =>
    if mark.isPrefixOf (c :: cs) then some ([], (c :: cs).drop mark.length)
    else (cutAt? mark cs).map fun (before, after) => (c :: before, after)

/-- The characters without all copies of `part` that stand at the front. -/
def dropCopies (part cs : List Char) : List Char :=
  match cs with
  | [] => []
  | c :: rest =>
    if part.isPrefixOf (c :: rest) then dropCopies part (rest.drop (part.length - 1)) else c :: rest
termination_by cs.length

/-- The characters without all copies of `part` that stand at the end. -/
def dropEndCopies (part cs : List Char) : List Char :=
  (dropCopies part.reverse cs.reverse).reverse

/-- True when `name` is a directory somewhere in the path. -/
def hasDirectory (name path : List Char) : Bool :=
  Text.occursIn ('/' :: name ++ ['/']) path || (name ++ ['/']).isPrefixOf path

/-- True when a path matches what stands before and after two stars. -/
def matchesAround (before after path : List Char) : Bool :=
  (Text.dropEndWhile (· == '/') before).isPrefixOf path &&
    match cutAt? ['*'] (after.dropWhile (· == '/')) with
    | none => (after.dropWhile (· == '/')).isSuffixOf path
    | some (inner, last) => Text.occursIn inner path && last.isSuffixOf path

/-- True when a path matches a pattern. -/
def matchesChars (pattern path : List Char) : Bool :=
  if ['*', '*', '/'].isPrefixOf pattern && ['/', '*', '*'].isSuffixOf pattern then
    hasDirectory (dropEndCopies ['/', '*', '*'] (dropCopies ['*', '*', '/'] pattern)) path
  else
    match cutAt? ['*', '*'] pattern with
    | some (before, after) => matchesAround before after path
    | none =>
      match cutAt? ['*'] pattern with
      | some (before, after) => before.isPrefixOf path && after.isSuffixOf path
      | none => pattern.isPrefixOf path

/-- True when a path matches a pattern. -/
def globMatches (pattern path : String) : Bool := matchesChars pattern.toList path.toList

/-- The patterns for code of others, which are used unless they are switched
off. -/
def defaultPatterns : List String :=
  ["**/vendor/**", "**/third_party/**", "**/third-party/**", "**/node_modules/**"]

end PlsqlAudit.Exclusion
