import PlsqlAudit.Detection.Unit
import PlsqlAudit.Ignore.Surroundings
import PlsqlAudit.Path.SourceKind
import PlsqlAudit.Project.Config

/-!
# The sources of a project

The sources of a directory are the files below it that have the ending of one,
that no ignore rule and no dot in front of a name leaves out, and that the
configuration does not exclude.  A file that is given as the root is taken as it
is.
-/

namespace PlsqlAudit

/-- A file of a project. -/
structure SourceFile where
  /-- The path that leads to the file. -/
  path : String
  /-- The path from the root of the project, which names the file in reports. -/
  label : String
  deriving DecidableEq, Repr, Inhabited

namespace Project

open Ignore

mutual

/-- The paths of the files among the entries of a directory and below them, from
the root of the search, in front of which stands `way`. -/
def filesAmong (files : Files) (around : Surroundings) (way : String) :
    List (String × Entry) → List String
  | [] => []
  | (name, entry) :: rest =>
    filesAt files around (way ++ name) name entry ++ filesAmong files around way rest

/-- The paths of the files at and below an entry of a directory, to which `label`
leads. -/
def filesAt (files : Files) (around : Surroundings) (label name : String) : Entry → List String
  | .file _ => if around.leavesOut label name false then [] else [label]
  | .directory entries =>
    if around.leavesOut label name true then []
    else
      let rules := directoryRules files (.directory entries)
      filesAmong files (around.enter (around.written label) rules) (label ++ "/") entries

end

/-- The sources of the project at a root, where the user has rules of their own on
what to leave out. -/
def sources (files : Files) (user : List Rule) (config : Config) (root : String) :
    List SourceFile :=
  match files.resolve? root with
  | none => []
  | some trail =>
    match files.entryAt trail with
    | .file _ => [⟨root, root⟩]
    | .directory entries =>
      let around := Surroundings.ofRoot files user root trail
      let labels := (filesAmong files around "" entries).filter fun label =>
        Path.isSource label && !config.excludes label
      (labels.map fun label => ⟨Path.join root label, label⟩).mergeSort
        fun a b => (Path.compare a.path b.path).isLE

/-- Why a file has no tree. -/
inductive SourceError where
  | unreadable (path : String)
  | unparsable (error : UnitError)
  deriving Repr, Inhabited

/-- What the user is told. -/
def SourceError.message : SourceError → String
  | .unreadable path => "Failed to read " ++ path ++ ": stream did not contain valid UTF-8"
  | .unparsable error => error.message

/-- The tree of a file, or nothing for files without the ending of a source. -/
def treeOf (files : Files) (path : String) : Except SourceError (Option Tree) :=
  if !Path.isSource path then .ok none
  else
    match files.text? path with
    | none => .error (.unreadable path)
    | some text =>
      match SourceUnit.ofSource path text with
      | .ok unit => .ok (some unit.tree)
      | .error error => .error (.unparsable error)

/-- The unit of a source, under its label. -/
def unitOf (files : Files) (source : SourceFile) : Except SourceError SourceUnit :=
  match files.text? source.path with
  | none => .error (.unreadable source.path)
  | some text => (SourceUnit.ofSource source.label text).mapError .unparsable

/-- The sources that have a unit, and the labels of the others. -/
def units (files : Files) (sources : List SourceFile) : List SourceUnit × List String :=
  let results := sources.map fun source => (source.label, (unitOf files source).toOption)
  (results.filterMap (·.2), (results.filter fun result => result.2.isNone).map (·.1))

/-- Why sources have no unit, one reason for each that has none. -/
def complaints (files : Files) (sources : List SourceFile) : List String :=
  sources.filterMap fun source =>
    match unitOf files source with
    | .ok _ => none
    | .error error => some error.message

end Project

end PlsqlAudit
