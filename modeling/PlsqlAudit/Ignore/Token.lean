/-!
# The parts of a glob

A glob is a list of tokens.  To match a text, marks move over it: one stands before
the first byte, and each token moves every mark over the bytes that it may take.
A glob matches when a mark has reached the end of the text.

1. A text of `n` bytes has `n + 1` places for marks, before, between and after the
   bytes.
2. A token that may take bytes in several ways leaves several marks, so no way is
   ever tried twice and the work grows with the length of the text only.
-/

namespace PlsqlAudit.Ignore

/-- A part of a glob. -/
inductive Token where
  | byte (value : UInt8)
  | one
  | many
  /-- Any number of directories at the front. -/
  | anywhere
  /-- All that is inside a directory. -/
  | inside
  /-- Any number of directories between two others. -/
  | between
  | member (negated : Bool) (ranges : List (UInt8 × UInt8))
  | choice (branches : List (List Token))
  deriving Repr, Inhabited

mutual

/-- True for a choice among nothing but empty globs. -/
def Token.isVoid : Token → Bool
  | .choice branches => allVoid branches
  | _ => false

/-- True for a glob that has nothing to match. -/
def isVoid : List Token → Bool
  | [] => true
  | token :: tokens => token.isVoid && isVoid tokens

/-- True when none of several globs has anything to match. -/
def allVoid : List (List Token) → Bool
  | [] => true
  | branch :: branches => isVoid branch && allVoid branches

end

/-- True for the byte that divides directories. -/
def isSlash (b : UInt8) : Bool := b == 47

/-- True for the places of a text where a mark stands. -/
abbrev Marks := List Bool

namespace Marks

/-- A mark before the first byte. -/
def start (text : List UInt8) : Marks := true :: text.map fun _ => false

/-- True when a mark has reached the end. -/
def atEnd (marks : Marks) : Bool := marks.getLast? == some true

/-- No mark at all. -/
def clear (marks : Marks) : Marks := marks.map fun _ => false

/-- The marks of both. -/
def or (a b : Marks) : Marks := List.zipWith (· || ·) a b

/-- The marks after one byte that fits. -/
def shift (fits : UInt8 → Bool) (text : List UInt8) (marks : Marks) : Marks :=
  false :: List.zipWith (fun b mark => mark && fits b) text marks

/-- The marks after any number of bytes that fit; `arrives` says that a mark comes
to the first place from before. -/
def spread (fits : UInt8 → Bool) (arrives : Bool) : List UInt8 → Marks → Marks
  | _, [] => []
  | [], mark :: _ => [mark || arrives]
  | b :: text, mark :: marks =>
    (mark || arrives) :: spread fits ((mark || arrives) && fits b) text marks

/-- The marks after any number of directories. -/
def descend (text : List UInt8) (marks : Marks) : Marks :=
  marks.or (shift isSlash text (spread (fun _ => true) false text marks))

end Marks

mutual

/-- Moves marks over what a token may take. -/
def Token.advance (text : List UInt8) : Token → Marks → Marks
  | .byte value, marks => marks.shift (· == value) text
  | .one, marks => marks.shift (fun b => !isSlash b) text
  | .many, marks => Marks.spread (fun b => !isSlash b) false text marks
  | .anywhere, marks => marks.descend text
  | .inside, marks => Marks.spread (fun _ => true) false text (marks.shift isSlash text)
  | .between, marks => (marks.shift isSlash text).descend text
  | .member negated ranges, marks =>
    marks.shift (fun b => (ranges.any fun (low, high) => low ≤ b && b ≤ high) != negated) text
  | .choice branches, marks =>
    if allVoid branches then marks else advanceAny text branches marks

/-- Moves marks over what a glob may take. -/
def advance (text : List UInt8) : List Token → Marks → Marks
  | [], marks => marks
  | token :: tokens, marks => advance text tokens (token.advance text marks)

/-- Moves marks over what one of several globs may take.  Empty globs do not
count. -/
def advanceAny (text : List UInt8) : List (List Token) → Marks → Marks
  | [], marks => marks.clear
  | branch :: branches, marks =>
    let others := advanceAny text branches marks
    if isVoid branch then others else (advance text branch marks).or others

end

/-- True when a glob matches a whole text.  Two stars alone match everything. -/
def accepts (tokens : List Token) (text : List UInt8) : Bool :=
  match tokens with
  | [.anywhere] => true
  | tokens => (advance text tokens (Marks.start text)).atEnd

/-- The number of parts that a token adds to a list of them. -/
def Token.parts : Token → Nat
  | .inside => 2
  | token => if token.isVoid then 0 else 1

/-- The number of parts of a glob. -/
def parts (tokens : List Token) : Nat := tokens.foldl (fun n token => n + token.parts) 0

mutual

/-- How deep the parts of a token are nested.  A repetition, a class, a class of
several ranges, a group and a choice among several each count as a level. -/
def Token.nesting : Token → Nat
  | .byte _ => 0
  | .one | .inside => 1
  | .many => 2
  | .anywhere | .between => 4
  | .member _ ranges => if ranges.length ≤ 1 then 1 else 2
  | .choice branches =>
    if allVoid branches then 0
    else 1 + (if (branches.filter fun branch => !isVoid branch).length ≤ 1 then 0 else 1) +
      nestingOfAny branches

/-- How deep the parts of a glob are nested, where several parts in a row count as
a level. -/
def nestingOf (tokens : List Token) : Nat := (if parts tokens ≤ 1 then 0 else 1) + deepest tokens

/-- The deepest nesting of several tokens. -/
def deepest : List Token → Nat
  | [] => 0
  | token :: tokens => max token.nesting (deepest tokens)

/-- The deepest nesting of several globs. -/
def nestingOfAny : List (List Token) → Nat
  | [] => 0
  | branch :: branches => max (nestingOf branch) (nestingOfAny branches)

end

end PlsqlAudit.Ignore
