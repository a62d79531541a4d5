import PlsqlAudit.Ignore.Token

/-!
# Globs of ignore files

A glob describes paths byte by byte.  A star stands for any bytes inside a name, a
question mark for one of them, brackets for one byte of a class, and braces for
one of several globs.  Two stars stand for any number of directories, at the
front (`**/`), between two slashes (`/**/`) or at the end (`/**`); elsewhere they
are two single stars.  Inside braces, an escaped comma or opening brace in front of
two stars counts as the slash.
-/

namespace PlsqlAudit.Ignore

/-- A glob.  One that is not sound spoils the file that it stands in. -/
structure Glob where
  tokens : List Token
  isSound : Bool
  deriving Repr, Inhabited

/-- True when a glob matches a whole text. -/
def Glob.accepts (glob : Glob) (text : List UInt8) : Bool := Ignore.accepts glob.tokens text

/-- How deep a sound glob may be nested. -/
def nestingLimit : Nat := 250

/-- The bytes of a character. -/
def charBytes (c : Char) : List UInt8 := (String.singleton c).toUTF8.data.toList

/-- The bytes of a class that is written with a range of characters: a character
of several bytes puts each of them into the class. -/
def byteRanges (low high : Char) : List (UInt8 × UInt8) :=
  let single (b : UInt8) := (b, b)
  if low = high then (charBytes low).map single
  else
    let lows := charBytes low
    let highs := charBytes high
    lows.dropLast.map single ++ [(lows.getLastD 0, highs.headD 0)] ++ highs.tail.map single

/-- What comes of reading a class. -/
inductive ClassResult where
  /-- There is no closing bracket. -/
  | unclosed
  /-- A range runs backwards. -/
  | backward
  | closed (ranges : List (Char × Char)) (rest : List Char)
  deriving Repr, Inhabited

/-- Reads a class up to and with its closing bracket.  `done` holds the ranges
read so far, last one first; `first` says that none was read yet, and `inRange`
that a hyphen waits for the end of a range. -/
def readClass (done : List (Char × Char)) (first inRange : Bool) : List Char → ClassResult
  | [] => .unclosed
  | c :: rest =>
    if c = ']' && !first then
      .closed (if inRange then ('-', '-') :: done else done).reverse rest
    else if c = '-' && !first && !inRange then readClass done false true rest
    else if inRange then
      match done with
      | (low, _) :: done =>
        if c < low then .backward else readClass ((low, c) :: done) false false rest
      | [] => readClass [(c, c)] false false rest
    else readClass ((c, c) :: done) false false rest

/-- A glob that is being read: the tokens of the current branch, last one first,
and the groups of braces around it, each with its finished branches and the tokens
before it. -/
structure GlobDraft where
  tokens : List Token := []
  groups : List (List (List Token) × List Token) := []
  /-- False once a class was read whose bytes run backwards. -/
  isSound : Bool := true
  deriving Inhabited

namespace GlobDraft

/-- Adds a token. -/
def push (draft : GlobDraft) (token : Token) : GlobDraft :=
  { draft with tokens := token :: draft.tokens }

/-- Adds a character that stands for itself. -/
def pushChar (draft : GlobDraft) (c : Char) : GlobDraft :=
  { draft with tokens := ((charBytes c).map Token.byte).reverse ++ draft.tokens }

/-- Opens a group. -/
def openGroup (draft : GlobDraft) : GlobDraft :=
  { draft with tokens := [], groups := ([], draft.tokens) :: draft.groups }

/-- Starts the next branch of a group; outside a group, a comma is just a
comma. -/
def nextBranch (draft : GlobDraft) : GlobDraft :=
  match draft.groups with
  | [] => draft.pushChar ','
  | (branches, before) :: groups =>
    { draft with tokens := [], groups := (draft.tokens.reverse :: branches, before) :: groups }

/-- Closes a group. -/
def closeGroup? (draft : GlobDraft) : Option GlobDraft :=
  match draft.groups with
  | [] => none
  | (branches, before) :: groups =>
    let group := Token.choice (draft.tokens.reverse :: branches).reverse
    some { draft with tokens := group :: before, groups := groups }

/-- Adds a class of characters. -/
def pushClass (draft : GlobDraft) (negated : Bool) (ranges : List (Char × Char)) : GlobDraft :=
  let bytes := ranges.flatMap fun (low, high) => byteRanges low high
  let isSound := draft.isSound && bytes.all fun (low, high) => low ≤ high
  { draft with tokens := .member negated bytes :: draft.tokens, isSound }

/-- True for a character after which two stars stand for directories: a slash, and
inside a group also a comma or an opening brace that stands for itself. -/
def startsDirectories (draft : GlobDraft) (c : Char) : Bool :=
  c = '/' || (!draft.groups.isEmpty && (c = ',' || c = '\x7b'))

/-- Puts a token for directories in the place of the character before it, unless the
token before it already stands for directories at an end. -/
def pushDirectories (draft : GlobDraft) (token : Token) : GlobDraft :=
  match draft.tokens with
  | .anywhere :: _ | .inside :: _ => draft
  | _ :: before => { draft with tokens := token :: before }
  | [] => { draft with tokens := [token] }

/-- Adds two stars that stand after the character `previous` and before `rest`.
The result says whether a slash is used up with them. -/
def pushStars (draft : GlobDraft) (previous : Option Char) (rest : List Char) :
    GlobDraft × Bool :=
  let plain := ((draft.push .many).push .many, false)
  if draft.tokens.isEmpty then
    match rest with
    | [] => (draft.push .anywhere, false)
    | c :: _ => if c = '/' then (draft.push .anywhere, true) else plain
  else if !previous.any draft.startsDirectories then plain
  else
    match rest with
    | [] => (draft.pushDirectories .inside, false)
    | c :: _ =>
      if c = '/' then (draft.pushDirectories .between, true)
      else if (c = ',' || c = '\x7d') && !draft.groups.isEmpty then
        (draft.pushDirectories .inside, false)
      else plain

end GlobDraft

/-- Reads a glob, for at most as many characters as the bound.  `previous` is the
character before, and `literal` says that opening brackets stand for themselves,
because no closing one follows. -/
def readGlob : Nat → Bool → Option Char → GlobDraft → List Char → Option GlobDraft
  | 0, _, _, _, _ => none
  | _ + 1, _, _, draft, [] => some draft
  | n + 1, literal, previous, draft, c :: rest =>
    match c with
    | '?' => readGlob n literal (some c) (draft.push .one) rest
    | '*' =>
      match rest with
      | '*' :: rest =>
        let (draft, usesSlash) := draft.pushStars previous rest
        if usesSlash then readGlob n literal (some '/') draft (rest.drop 1)
        else readGlob n literal (some '*') draft rest
      | _ => readGlob n literal (some c) (draft.push .many) rest
    | '[' =>
      if literal then readGlob n literal (some c) (draft.pushChar c) rest
      else
        let negated := rest.head? == some '!' || rest.head? == some '^'
        match readClass [] true false (if negated then rest.tail else rest) with
        | .unclosed => readGlob n true (some c) (draft.pushChar c) rest
        | .backward => none
        | .closed ranges rest =>
          readGlob n literal (some ']') (draft.pushClass negated ranges) rest
    | '\x7b' => readGlob n literal (some c) draft.openGroup rest
    | '\x7d' =>
      match draft.closeGroup? with
      | some draft => readGlob n literal (some c) draft rest
      | none => none
    | ',' => readGlob n literal (some c) draft.nextBranch rest
    | '\\' =>
      match rest with
      | [] => none
      | c :: rest => readGlob n literal (some c) (draft.pushChar c) rest
    | _ => readGlob n literal (some c) (draft.pushChar c) rest

/-- The glob that is spelled by the characters, if it is well formed. -/
def Glob.parse? (spelling : List Char) : Option Glob := do
  let draft ← readGlob (spelling.length + 1) false none {} spelling
  let tokens := draft.tokens.reverse
  if draft.groups.isEmpty then
    some ⟨tokens, draft.isSound && 1 + deepest tokens ≤ nestingLimit⟩
  else none

end PlsqlAudit.Ignore
