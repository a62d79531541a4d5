import PlsqlAudit.Command.Run
import PlsqlAudit.Report.Instant
import Std.Time

/-!
# The program

The outermost layer: it reads the files that a task is about, lets `Command.run`
say what to do, and does it.  Only files that can matter are read: sources, files
with ignore rules, and configurations.
-/

open PlsqlAudit

namespace PlsqlAudit.Outside

/-- The names that lead from the root to a path. -/
def namesOf (workingDirectory : List String) (path : String) : List String :=
  (Text.split '/' path).foldl
    (fun names piece =>
      if piece = "" || piece = "." then names
      else if piece = ".." then names.dropLast
      else names ++ [piece])
    (if Path.isAbsolute path then [] else workingDirectory)

/-- True for names of files whose content can matter. -/
def matters (name : String) : Bool :=
  Path.isSource name || name = Config.fileName || name.toList.head? == some '.'

/-- Reads a file, or a directory with all that is in it.  Links to directories are
left out, and of the records of a repository only its ignore rules are read. -/
partial def readEntry (path : String) : IO Entry := do
  let place ← IO.FS.realPath path
  if !(← place.isDir) then
    return .file (← IO.FS.readBinFile place)
  let mut directory := Entry.directory []
  for child in ← place.readDir do
    let name := child.fileName
    try
      if ← child.path.isDir then
        if (← child.path.symlinkMetadata).type == .symlink then
          continue
        if name = ".git" then
          let rules ← readEntry (child.path.toString ++ "/info/exclude")
          directory := directory.put [name, "info", "exclude"] rules
        else
          directory := directory.put [name] (← readEntry child.path.toString)
      else if matters name then
        directory := directory.put [name] (← readEntry child.path.toString)
      else
        directory := directory.put [name] (.file ByteArray.empty)
    catch _ =>
      continue
  return directory

/-- The directories that are named in the place of the records of a repository. -/
partial def linkedDirectories : Entry → List String
  | .file _ => []
  | .directory entries => entries.flatMap fun (name, entry) =>
    match entry with
    | .file content => if name = ".git" then (Ignore.linkedDirectory? content).toList else []
    | directory => linkedDirectories directory

/-- Puts what is found at a place into a tree. -/
def loadAnew (tree : Entry) (names : List String) : IO Entry := do
  try
    return tree.put names (← readEntry (Path.absolute names))
  catch _ =>
    return tree

/-- Adds what is found at a place to a tree that does not hold it yet. -/
def load (tree : Entry) (names : List String) : IO Entry := do
  if (tree.find? names).isSome then return tree else loadAnew tree names

/-- True when there is a directory at a place. -/
def isDirectory (names : List String) : IO Bool := do
  try
    (← IO.FS.realPath (Path.absolute names)).isDir
  catch _ =>
    return false

/-- Adds a directory without its content to a tree that does not hold it yet. -/
def loadDirectory (tree : Entry) (names : List String) : IO Entry := do
  if (tree.find? names).isNone && (← isDirectory names) then
    return tree.put names (.directory [])
  return tree

/-- Adds the rules that hold in a directory, and its configuration. -/
def loadRules (tree : Entry) (directory : List String) : IO Entry := do
  let mut tree := tree
  for name in Config.fileName :: Ignore.ruleFiles do
    tree ← load tree (directory ++ [name])
  if ← isDirectory (directory ++ [".git"]) then
    load tree (directory ++ [".git", "info", "exclude"])
  else
    load tree (directory ++ [".git"])

/-- Adds the file that a path leads to, if it is one. -/
def loadFile (files : Files) (path : String) : IO Files := do
  let names := namesOf files.workingDirectory path
  if path.isEmpty || (← isDirectory names) then return files
  return { files with root := ← load files.root names }

/-- Adds the rules of repositories whose records are kept elsewhere, and those of
the user. -/
def loadDistantRules (environment : Environment) (files : Files) : IO Files := do
  let mut files := files
  for linked in linkedDirectories files.root do
    files ← loadFile files (Ignore.linkFile linked)
    if let some link := files.content? (Ignore.linkFile linked) then
      if let some path := Ignore.linkedRules? linked link then
        files ← loadFile files path
  for path in Ignore.settingsFiles environment do
    files ← loadFile files path
  if let some path := Ignore.userRulesPath? files environment then
    files ← loadFile files path
  return files

/-- The files that a task can see. -/
def filesFor (environment : Environment) (task : Command.Task) : IO Files := do
  let workingDirectory := namesOf [] (← IO.currentDir).toString
  let mut tree := Entry.directory []
  let root := match task with
    | .init path | .check path _ => namesOf workingDirectory path
  match task with
  | .init _ =>
    tree ← loadDirectory tree root
    tree ← loadRules tree root
    tree ← load tree root
  | .check _ options =>
    tree ← loadAnew tree root
    for depth in List.range (root.length + 1) do
      tree ← loadRules tree (root.take depth)
    if let some config := options.config then
      tree ← load tree (namesOf workingDirectory config)
    if let some output := options.output then
      tree ← loadDirectory tree (namesOf workingDirectory output).dropLast
      tree ← loadDirectory tree (namesOf workingDirectory output)
  tree ← loadDirectory tree workingDirectory
  loadDistantRules environment { root := tree, workingDirectory }

/-- Writes the files of an outcome, and answers with the complaint about the first
that could not be written. -/
def write (outcome : Command.Outcome) : IO (Option String) := do
  for file in outcome.written do
    try
      IO.FS.writeFile (Path.absolute file.place) file.text
    catch _ =>
      return some file.complaint
  return none

end PlsqlAudit.Outside

/-- Runs the program. -/
def main (arguments : List String) : IO UInt32 := do
  let mut bindings := []
  for name in [Command.configVariable, "NO_COLOR", "TERM", "CLICOLOR", "CLICOLOR_FORCE", "HOME",
      "XDG_CONFIG_HOME", "GIT_CONFIG_GLOBAL"] do
    if let some value ← IO.getEnv name then
      bindings := (name, value) :: bindings
  let environment := fun name => bindings.lookup name
  let files ← match Command.Task.ofArguments environment arguments with
    | .ok task => Outside.filesFor environment task
    | .error _ => pure { root := .directory [] }
  let now ← Std.Time.Timestamp.now
  let session : Command.Session := {
    files := files
    environment := environment
    render := {
      colour := Command.wantsColour (← (← IO.getStdout).isTty) environment
      endTime := Instant.spell now.toNanosecondsSinceUnixEpoch.val.toNat } }
  let outcome := Command.run session arguments
  for line in outcome.log do
    IO.eprintln line
  if let some complaint ← Outside.write outcome then
    IO.eprintln ("Error: " ++ complaint)
    return 1
  IO.print outcome.output
  for notice in outcome.notices do
    IO.eprintln notice
  return UInt32.ofNat outcome.exitCode
