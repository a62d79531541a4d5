import PlsqlAudit.File.Tree
import PlsqlAudit.Ignore.Rules

/-!
# The ignore rules of a directory

Four files may hold rules on what is below a directory.  Three of them stand in the
directory itself, and the last belongs to the repository that the directory is the
top of.  Where the records of the repository are kept elsewhere, a file in their
place leads there in two steps: it names a directory, and a file in that directory
names the one with the records.  Both names are read from the working directory,
except that the second may go on from the first.
-/

namespace PlsqlAudit.Ignore

/-- The first line of a file, if the file is not empty and the line is proper
text. -/
def firstLine? (content : ByteArray) : Option String :=
  if content.isEmpty then none else (linesOf content).head?.map String.ofList

/-- The directory that is named in the place of the records of a repository. -/
def linkedDirectory? (content : ByteArray) : Option String := do
  let line := (← firstLine? content).toList
  let word := "gitdir: ".toList
  if word.isPrefixOf line then some (String.ofList (line.drop word.length)) else none

/-- The file that names the directory with the records. -/
def linkFile (linked : String) : String := Path.join linked "commondir"

/-- The path of the rules of a repository, as told by the content of the link
file. -/
def linkedRules? (linked : String) (content : ByteArray) : Option String := do
  let line ← firstLine? content
  let records := if line.toList.head? == some '.' then Path.join linked line else line
  return Path.join records "info/exclude"

/-- The content of the file with the rules of the repository that a directory is
the top of. -/
def repositoryRules? (files : Files) (directory : Entry) : Option ByteArray :=
  match directory.child? ".git" with
  | some (.file content) => do
    let linked ← linkedDirectory? content
    let path ← linkedRules? linked (← files.content? (linkFile linked))
    files.content? path
  | _ => do
    (← directory.find? [".git", "info", "exclude"]).content?

/-- The files with rules that stand in a directory, the one that is heard first in
front. -/
def ruleFiles : List String := [".plsqlguardignore", ".ignore", ".gitignore"]

/-- The rules of a directory, file by file; those of the repository come last. -/
def directoryRules (files : Files) (directory : Entry) : List (List Rule) :=
  let own := ruleFiles.map fun name => (directory.child? name).bind Entry.content?
  (own ++ [repositoryRules? files directory]).map fun content? =>
    match content? with
    | some content => rulesOf content
    | none => []

end PlsqlAudit.Ignore
