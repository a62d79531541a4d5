import PlsqlAudit.Toml.Document

/-!
# Reading records from TOML

A record has a fixed list of fields.  It is read from a table, where other names do
not matter, or from a list of the values in the order of the fields, of which the
last may be left out and more may follow.  A date is read as a record too, one
without any of the fields.  A field that is not there takes its default, and a
value of the wrong kind is refused.
-/

namespace PlsqlAudit.Toml

namespace Value

/-- A text. -/
def text? : Value → Option String
  | .string text => some text
  | _ => none

/-- A truth value. -/
def bool? : Value → Option Bool
  | .boolean b => some b
  | _ => none

/-- A natural number. -/
def nat? : Value → Option Nat
  | .integer n => if 0 ≤ n then some n.toNat else none
  | _ => none

/-- The items of a list. -/
def items? : Value → Option (List Value)
  | .array items => some items
  | .tables elements => some (elements.map (.table .header))
  | _ => none

/-- A list whose items are read by `item?`. -/
def list? {α : Type} (item? : Value → Option α) (value : Value) : Option (List α) :=
  value.items?.bind (·.mapM item?)

/-- The value of each field of a record, if it is there. -/
def record? (names : List String) (value : Value) : Option (String → Option Value) :=
  match value with
  | .table _ entries => some fun name => entries.lookup name
  | .date => some fun _ => none
  | value => value.items?.map fun items name => (names.zip items).lookup name

end Value

/-- Reads a field that may be left out. -/
def optional {α : Type} (fields : String → Option Value) (name : String) (default : α)
    (value? : Value → Option α) : Option α :=
  match fields name with
  | some value => value? value
  | none => some default

end PlsqlAudit.Toml
