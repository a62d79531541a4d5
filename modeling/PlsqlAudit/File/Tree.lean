import PlsqlAudit.Path.Basic

/-!
# Files and directories

The files that a command can see are one tree, from the root of all files down.
Paths are resolved from a working directory, step by step: every step is taken
from a directory, also where it is a dot or goes up again.  What else a command can
see is its environment.
-/

namespace PlsqlAudit

/-- A file or a directory. -/
inductive Entry where
  | file (content : ByteArray)
  /-- The names in a directory, each once. -/
  | directory (entries : List (String × Entry))
  deriving Inhabited

namespace Entry

/-- The entry of the given name in a directory. -/
def child? (entry : Entry) (name : String) : Option Entry :=
  match entry with
  | .file _ => none
  | .directory entries => entries.lookup name

/-- The content of a file. -/
def content? : Entry → Option ByteArray
  | .file content => some content
  | .directory _ => none

/-- The entry that the names lead to from a directory. -/
def find? (entry : Entry) (names : List String) : Option Entry := names.foldlM child? entry

/-- The directory with an entry put at the given place below it, and with the
directories that lead there. -/
def put (entry : Entry) (names : List String) (new : Entry) : Entry :=
  match names with
  | [] => new
  | name :: names =>
    let entries := match entry with
      | .file _ => []
      | .directory entries => entries
    match entries.lookup name with
    | none => .directory (entries ++ [(name, put (.directory []) names new)])
    | some old => .directory (entries.map fun (other, kept) =>
        if other = name then (other, put old names new) else (other, kept))

end Entry

/-- The tree of all files, and where relative paths start. -/
structure Files where
  root : Entry
  /-- The names that lead from the root to the working directory. -/
  workingDirectory : List String := []
  deriving Inhabited

/-- The value of a variable that the user has set. -/
abbrev Environment := String → Option String

/-- A place in the tree: the names that lead there, each with its entry, the
innermost first. -/
abbrev Trail := List (String × Entry)

namespace Files

/-- The entry at a place. -/
def entryAt (files : Files) : Trail → Entry
  | [] => files.root
  | (_, entry) :: _ => entry

/-- The place that one step of a path leads to. -/
def step? (files : Files) (trail : Trail) (piece : String) : Option Trail :=
  match files.entryAt trail with
  | .file _ => none
  | .directory entries =>
    if piece = "" || piece = "." then some trail
    else if piece = ".." then some trail.tail
    else (entries.lookup piece).map fun entry => (piece, entry) :: trail

/-- The place that a path leads to. -/
def resolve? (files : Files) (path : String) : Option Trail :=
  if path.isEmpty then none
  else do
    let start ← if Path.isAbsolute path then some [] else files.workingDirectory.foldlM files.step? []
    (Text.split '/' path).foldlM files.step? start

/-- The entry that a path leads to. -/
def find? (files : Files) (path : String) : Option Entry :=
  (files.resolve? path).map files.entryAt

/-- The content of the file that a path leads to. -/
def content? (files : Files) (path : String) : Option ByteArray :=
  (files.find? path).bind Entry.content?

/-- The text of the file that a path leads to, if it is one and is proper text. -/
def text? (files : Files) (path : String) : Option String :=
  (files.content? path).bind String.fromUTF8?

/-- The names that lead from the root to a place. -/
def names (trail : Trail) : List String := (trail.map (·.1)).reverse

/-- The absolute path of a place. -/
def spell (trail : Trail) : String := Path.absolute (names trail)

/-- Where a file would be created or replaced by writing to a path: the directory
has to be there, and no directory may have the file's name. -/
def target? (files : Files) (path : String) : Option (List String) := do
  let pieces := Text.split '/' path
  let last ← pieces.getLast?
  if last = "" || last = "." || last = ".." then none
  else do
    let start ← if Path.isAbsolute path then some [] else files.workingDirectory.foldlM files.step? []
    let trail ← pieces.dropLast.foldlM files.step? start
    match files.entryAt trail with
    | .file _ => none
    | .directory entries =>
      match entries.lookup last with
      | some (.directory _) => none
      | _ => some (names trail ++ [last])

end Files

end PlsqlAudit
