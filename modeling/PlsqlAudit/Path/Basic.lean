import PlsqlAudit.Text.Split

/-!
# Paths

A path is a text whose names are divided by slashes.  It means the list of its
components: doubled and trailing slashes do not count, and neither does a dot,
unless the path starts with it.  Paths are compared component by component, so
that the files of a directory stay together.
-/

namespace PlsqlAudit.Path

/-- A step of a path. -/
inductive Component where
  /-- The root of all files, at the front of an absolute path. -/
  | root
  /-- A dot at the front of a path. -/
  | here
  /-- The directory above. -/
  | up
  | name (text : String)
  deriving DecidableEq, Repr, Inhabited

namespace Component

/-- The place of a component among the others, where names come last. -/
def rank : Component → Nat
  | .root => 0
  | .here => 1
  | .up => 2
  | .name _ => 3

/-- The name in a component, or nothing. -/
def label : Component → String
  | .name text => text
  | _ => ""

instance : Ord Component := ⟨compareLex (compareOn rank) (compareOn label)⟩

/-- The component that a piece between two slashes stands for. -/
def ofPiece? (piece : String) : Option Component :=
  if piece = "" || piece = "." then none
  else if piece = ".." then some .up
  else some (.name piece)

end Component

/-- True when the path starts at the root. -/
def isAbsolute (path : String) : Bool := path.toList.head? == some '/'

/-- The components of a path. -/
def components (path : String) : List Component :=
  let pieces := Text.split '/' path
  let first : List Component :=
    if isAbsolute path then [.root] else if pieces.head? = some "." then [.here] else []
  first ++ pieces.filterMap Component.ofPiece?

/-- The order of two paths, component by component. -/
def compare (a b : String) : Ordering := compareOn components a b

/-- The path of `inner` when one stands at `base`. -/
def join (base inner : String) : String :=
  if isAbsolute inner || base.isEmpty then inner
  else if base.toList.getLast? == some '/' then base ++ inner
  else base ++ "/" ++ inner

/-- The absolute path that the names lead to. -/
def absolute (names : List String) : String := "/" ++ "/".intercalate names

/-- The text without a beginning, or the whole text if it starts otherwise. -/
def dropStart (beginning path : String) : String :=
  if beginning.toList.isPrefixOf path.toList then
    String.ofList (path.toList.drop beginning.length)
  else path

/-- What is left of a path below a base.  The two are compared as they are spelled,
once a dot and slash at the front of the path are gone, and a path without a slash
is never below anything. -/
def below (base path : String) : String :=
  let path := dropStart "./" path
  if components base == [.here] || !path.toList.contains '/' then path
  else if base.toList.isPrefixOf path.toList then dropStart "/" (dropStart base path)
  else path

/-- The name at the end of a path. -/
def fileName? (path : String) : Option String :=
  match (components path).getLast? with
  | some (.name text) => some text
  | _ => none

/-- What stands after the last dot of the name at the end of a path.  A dot at the
front of the name does not count. -/
def extension? (path : String) : Option String :=
  match fileName? path with
  | none => none
  | some name =>
    let backward := name.toList.reverse
    match backward.dropWhile (· ≠ '.') with
    | [] | [_] => none
    | _ => some (String.ofList (backward.takeWhile (· ≠ '.')).reverse)

end PlsqlAudit.Path
