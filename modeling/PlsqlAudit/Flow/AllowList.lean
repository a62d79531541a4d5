import PlsqlAudit.Text.Blank
import PlsqlAudit.Text.LetterCase
import PlsqlAudit.Text.Occurrence

/-!
# Packages that assert their argument

A value is harmless once it went through a function of a package on the allow
list.  Packages are kept in small letters, without surrounding blanks and
without dots at the end, each once.  The name of a call is on the list when the
name of a package, with a dot after it, occurs in it.
-/

namespace PlsqlAudit

/-- The packages whose functions assert their argument. -/
structure AllowList where
  packages : List String
  deriving DecidableEq, Repr, Inhabited

namespace AllowList

/-- The package that an entry means. -/
def packageOf (entry : String) : String :=
  Text.lower (Text.trimEndOf '.' (Text.trim entry))

/-- Adds an entry, unless it is empty or known. -/
def insert (list : AllowList) (entry : String) : AllowList :=
  let package := packageOf entry
  if package.isEmpty || list.packages.contains package then list
  else ⟨list.packages ++ [package]⟩

/-- The allow list with the given entries. -/
def ofList (entries : List String) : AllowList := entries.foldl insert ⟨[]⟩

/-- The entries that are used where none are given. -/
def defaultEntries : List String := ["dbms_assert", "ut_utils"]

/-- The allow list that is used where none is given. -/
def standard : AllowList := ofList defaultEntries

/-- True when no package is on the list. -/
def isEmpty (list : AllowList) : Bool := list.packages.isEmpty

/-- True when the qualified name of a call is on the list. -/
def covers (list : AllowList) (name : String) : Bool :=
  !name.isEmpty && list.packages.any fun package => Text.contains (Text.lower name) (package ++ ".")

end AllowList

end PlsqlAudit
