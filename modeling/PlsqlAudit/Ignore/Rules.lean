import PlsqlAudit.Ignore.Glob
import PlsqlAudit.Text.Blank

/-!
# Ignore rules

A file may hold rules on what to leave out below a directory.  A rule is a line: a
glob, with an exclamation mark in front if it takes a path back in, and with a
slash at its end if it is only about directories.  A glob without another slash is
about names anywhere below; one with a slash is about the path from the directory.
Of the rules of one file the last that fits decides.
-/

namespace PlsqlAudit.Ignore

/-- A rule of an ignore file. -/
structure Rule where
  glob : Glob
  /-- True for rules that take a path back in. -/
  keeps : Bool
  /-- True for rules that are about directories only. -/
  directoriesOnly : Bool
  deriving Repr, Inhabited

/-- A rule without the slash at its end, and whether there was one.  A backslash
before that slash goes with it. -/
def cutSlash (line : List Char) : List Char × Bool :=
  match line.reverse with
  | '/' :: '\\' :: rest => (rest.reverse, true)
  | '/' :: rest => (rest.reverse, true)
  | _ => (line, false)

/-- The glob of a rule as a glob about the whole path. -/
def wholeGlob (anchored : Bool) (line : List Char) : List Char :=
  let stars := ['*', '*']
  let glob :=
    if anchored || line.contains '/' || line == stars then line else stars ++ '/' :: line
  if ['/', '*', '*'].isSuffixOf glob then glob ++ ['/', '*'] else glob

/-- The rule that a line holds.  Lines that start with a hash hold none, and
neither do lines with a glob that is not well formed. -/
def Rule.ofLine? (line : List Char) : Option Rule :=
  let line :=
    if ['\\', ' '].isSuffixOf line then line else Text.dropEndWhile Text.isBlank line
  if line.head? == some '#' || line.isEmpty then none
  else
    let (keeps, anchored, line) :=
      match line with
      | '\\' :: '!' :: rest => (false, false, '!' :: rest)
      | '\\' :: '#' :: rest => (false, false, '#' :: rest)
      | '!' :: '/' :: rest => (true, true, rest)
      | '!' :: rest => (true, false, rest)
      | '/' :: rest => (false, true, rest)
      | line => (false, false, line)
    let (line, directoriesOnly) := cutSlash line
    (Glob.parse? (wholeGlob anchored line)).map fun glob => ⟨glob, keeps, directoriesOnly⟩

/-- The lines of a file up to the first that is no proper text. -/
def linesOf (content : ByteArray) : List (List Char) :=
  let pieces := cut content.data.toList
  let ended := pieces.dropLast.map fun piece =>
    if piece.getLast? = some 13 then piece.dropLast else piece
  ((ended ++ pieces.getLast?.toList).map text?).takeWhile Option.isSome |>.filterMap id
where
  /-- The bytes between line feeds. -/
  cut : List UInt8 → List (List UInt8)
    | [] => [[]]
    | b :: rest =>
      if b = 10 then [] :: cut rest
      else
        match cut rest with
        | [] => [[b]]
        | piece :: pieces => (b :: piece) :: pieces
  /-- The characters of a line. -/
  text? (bytes : List UInt8) : Option (List Char) :=
    (String.fromUTF8? ⟨bytes.toArray⟩).map String.toList

/-- The rules of a file. -/
def rulesOf (content : ByteArray) : List Rule :=
  let lines := match linesOf content with
    | [] => []
    | first :: rest => first.dropWhile (· == '\uFEFF') :: rest
  let rules := lines.filterMap Rule.ofLine?
  if rules.all fun rule => rule.glob.isSound then rules else []

/-- What the rules of a file say about a path below its directory: whether it is
kept, or nothing. -/
def verdict? (rules : List Rule) (path : String) (isDirectory : Bool) : Option Bool :=
  let bytes := path.toUTF8.data.toList
  (rules.reverse.find? fun rule =>
    (isDirectory || !rule.directoriesOnly) && rule.glob.accepts bytes).map (·.keeps)

end PlsqlAudit.Ignore
