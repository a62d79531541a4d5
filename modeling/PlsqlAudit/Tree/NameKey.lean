import PlsqlAudit.Text.Blank
import PlsqlAudit.Text.LetterCase
import PlsqlAudit.Tree.Node

/-!
# Keys of names

Two names are the same when their keys are.  The key of a single name,
`nameKey`, is its text without surrounding blanks and double quotes, in small
letters.  The key of an assignable expression such as `r.field` or `"R" . field`,
`targetKey`, is its text without any blanks and double quotes, each character
lowered by itself.
-/

namespace PlsqlAudit

/-- The key under which a name is looked up. -/
def nameKey (text : String) : String :=
  Text.lower (Text.trimEnds '"' (Text.trim text))

/-- The key under which the target of an assignment is looked up. -/
def targetKey (text : String) : String :=
  String.ofList
    ((text.toList.filter fun c => !Text.isBlank c && c != '"').flatMap Text.lowerChar)

/-- The key of the name at a place. -/
def Tree.nameKey (t : Tree) (p : Place) : String := PlsqlAudit.nameKey (t.text p)

/-- The key of the expression at a place, read as the target of an assignment. -/
def Tree.targetKey (t : Tree) (p : Place) : String := PlsqlAudit.targetKey (t.text p)

end PlsqlAudit
