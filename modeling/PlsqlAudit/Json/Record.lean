import PlsqlAudit.Json.Value

/-!
# Reading records

A record has a fixed list of fields.  It is written as an object, and read from an
object, where fields of other names do not matter, or from a list of the values in
the order of the fields, of which the last may be left out.  A field that is not
there takes its default; a value of the wrong kind is refused, and null is a value
like any other.
-/

namespace PlsqlAudit.Json

/-- A text. -/
def text? : Json → Option String
  | .string s => some s
  | _ => none

/-- A truth value. -/
def bool? : Json → Option Bool
  | .bool b => some b
  | _ => none

/-- A natural number below the bound. -/
def natBelow? (bound : Nat) : Json → Option Nat
  | .number n => if 0 ≤ n && n < bound then some n.toNat else none
  | _ => none

/-- A natural number of at most 32 bits. -/
def nat32? : Json → Option Nat := natBelow? 4294967296

/-- A natural number of at most 64 bits. -/
def nat64? : Json → Option Nat := natBelow? 18446744073709551616

/-- A text or null. -/
def textOrNull? : Json → Option (Option String)
  | .null => some none
  | json => json.text?.map some

/-- A list whose items are read by `item?`. -/
def list? {α : Type} (item? : Json → Option α) : Json → Option (List α)
  | .array items => items.mapM item?
  | _ => none

/-- The value of each field of a record, if it is there. -/
def record? (names : List String) : Json → Option (String → Option Json)
  | .object fields => some (Json.object fields).field?
  | .array items =>
    if items.length ≤ names.length then some fun name => (names.zip items).lookup name else none
  | _ => none

/-- Reads a field that may be left out. -/
def optional {α : Type} (fields : String → Option Json) (name : String) (default : α)
    (value? : Json → Option α) : Option α :=
  match fields name with
  | some json => value? json
  | none => some default

/-- Reads a field that must be there. -/
def required {α : Type} (fields : String → Option Json) (name : String)
    (value? : Json → Option α) : Option α :=
  (fields name).bind value?

end PlsqlAudit.Json
