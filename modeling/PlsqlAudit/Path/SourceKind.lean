import PlsqlAudit.Path.Basic

/-!
# Which files are sources

A file is a source by the ending of its name, in whatever case.
-/

namespace PlsqlAudit.Path

/-- The endings of source files. -/
def sourceExtensions : List String :=
  ["sql", "pls", "plsql", "pks", "pkb", "pck", "prc", "fnc", "tps", "tpb", "trg"]

/-- The language of files with the given ending. -/
def languageOf? (ending : String) : Option String :=
  if sourceExtensions.contains ending.toLower then some "PL/SQL" else none

/-- True for paths of source files. -/
def isSource (path : String) : Bool :=
  ((extension? path).bind languageOf?).isSome

end PlsqlAudit.Path
