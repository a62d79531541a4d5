import PlsqlAudit.Ignore.Directory

/-!
# The rules around a place

A search starts at a root and goes down.  The rules about an entry are those of the
directories from the root down to it, those of the directories above the root, and
those of the user.

1. A file of one kind is heard before files of the next kinds, whatever directory
   they stand in, and the rules of the user are heard last.
2. Of the files of one kind, the one nearest to the entry is heard first.
3. Paths are compared as they are spelled.  Below the root they are spelled as the
   root is, with one dot and slash at the front left out, and above it they are
   absolute.
-/

namespace PlsqlAudit.Ignore

/-- The rules of a directory, and the path that its entries are measured from. -/
structure Level where
  base : String
  rules : List (List Rule)
  deriving Repr, Inhabited

/-- What the rules of one kind in a directory say about a path: whether it is kept,
or nothing. -/
def Level.verdict? (level : Level) (kind : Nat) (path : String) (isDirectory : Bool) :
    Option Bool :=
  Ignore.verdict? (level.rules.getD kind []) (Path.below level.base path) isDirectory

/-- The rules that hold at a place of a search. -/
structure Surroundings where
  /-- The root of the search as it was given. -/
  root : String
  /-- The absolute path of the root. -/
  place : String
  /-- The directories from the place up to the root. -/
  inner : List Level := []
  /-- The directories above the root, from the inside out. -/
  outer : List Level := []
  /-- The rules of the user, measured from the working directory. -/
  user : Level
  deriving Repr, Inhabited

namespace Surroundings

/-- The path to what is found at the end of `label`, which starts at the root. -/
def written (around : Surroundings) (label : String) : String :=
  Path.dropStart "./" (Path.join around.root label)

/-- What the rules say about the entry that `label` leads to: whether it is kept, or
nothing. -/
def verdict? (around : Surroundings) (label : String) (isDirectory : Bool) : Option Bool :=
  let path := around.written label
  let place := Path.join around.place label
  let kind? (kind : Nat) :=
    around.inner.findSome? (·.verdict? kind path isDirectory) <|>
      around.outer.findSome? (·.verdict? kind place isDirectory)
  (List.range (ruleFiles.length + 1)).findSome? kind? <|> around.user.verdict? 0 path isDirectory

/-- True when the entry that `label` leads to is left out.  Names that start with a
dot are, unless a rule takes them back in. -/
def leavesOut (around : Surroundings) (label name : String) (isDirectory : Bool) : Bool :=
  match around.verdict? label isDirectory with
  | some keeps => !keeps
  | none => name.toList.head? == some '.'

/-- What holds in a directory that is entered, at the path `base`. -/
def enter (around : Surroundings) (base : String) (rules : List (List Rule)) : Surroundings :=
  { around with inner := ⟨base, rules⟩ :: around.inner }

/-- What holds at the root of a search, which the trail leads to. -/
def ofRoot (files : Files) (user : List Rule) (root : String) (trail : Trail) : Surroundings :=
  let level (above : Trail) : Level :=
    ⟨Files.spell above, directoryRules files (files.entryAt above)⟩
  { root
    place := Files.spell trail
    inner := [⟨Path.dropStart "./" root, directoryRules files (files.entryAt trail)⟩]
    outer := (List.range trail.length).map fun n => level (trail.drop (n + 1))
    user := ⟨Path.absolute files.workingDirectory, [user]⟩ }

end Surroundings

end PlsqlAudit.Ignore
