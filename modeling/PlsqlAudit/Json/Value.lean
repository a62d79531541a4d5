/-!
# JSON values

Reports are written as JSON, and options and findings are read from it.  Numbers
without a fraction or exponent that fit in 64 bits are integers; any other number
keeps its spelling, since nothing here computes with it.
-/

namespace PlsqlAudit

/-- A JSON value. -/
inductive Json where
  | null
  | bool (value : Bool)
  | number (value : Int)
  /-- A number that is no 64-bit integer, as it is spelled. -/
  | decimal (spelling : String)
  | string (value : String)
  | array (items : List Json)
  /-- The fields of an object in the order in which they are written. -/
  | object (fields : List (String × Json))
  deriving Repr, Inhabited

namespace Json

/-- A natural number as JSON. -/
def ofNat (n : Nat) : Json := .number n

/-- A text, or null where there is none. -/
def ofString? : Option String → Json
  | some s => .string s
  | none => .null

/-- The value of a field, if there is one; of two fields of one name the later
one counts. -/
def field? (json : Json) (name : String) : Option Json :=
  match json with
  | .object fields => (fields.reverse.find? (·.1 == name)).map (·.2)
  | _ => none

/-- The value of a field, where a missing field reads as null. -/
def field (json : Json) (name : String) : Json := (json.field? name).getD .null

end Json

end PlsqlAudit
