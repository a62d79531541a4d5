/-!
# TOML values

A document is a table: names with values, each name once.  A table remembers how
it came to be, because that decides how it may grow.  One that is written in
braces is finished.  One that a header or a dotted key only passes through may
still be opened by a header of its own, or take more dotted keys, but not both.
-/

namespace PlsqlAudit.Toml

/-- How a table came to be. -/
inductive Origin where
  /-- Written in braces. -/
  | inline
  /-- Opened by a header of its own. -/
  | header
  /-- Passed through by a header. -/
  | implied
  /-- Passed through by a dotted key. -/
  | dotted
  deriving DecidableEq, Repr, Inhabited

/-- A value.  Nothing here computes with fractions and dates, so they are only
told apart from the rest. -/
inductive Value where
  | string (text : String)
  | integer (value : Int)
  | fraction
  | boolean (value : Bool)
  | date
  | array (items : List Value)
  | table (origin : Origin) (entries : List (String × Value))
  /-- The tables that headers in double brackets opened under one name. -/
  | tables (elements : List (List (String × Value)))
  deriving Repr, Inhabited

/-- The names of a table with their values. -/
abbrev Entries := List (String × Value)

namespace Entries

/-- Gives a new value to a name that is there. -/
def replace (entries : Entries) (key : String) (value : Value) : Entries :=
  entries.map fun (other, old) => if other = key then (other, value) else (other, old)

/-- Edits the table that a path of names leads to, opening tables that are not
there yet.  The path is that of a dotted key or that of a header; `isDotted` says
whether the table at its start was opened by a dotted key, and the edit is told
the same of the table at its end. -/
def edit (byKey : Bool) (change : Bool → Entries → Option Entries) :
    List String → Bool → Entries → Option Entries
  | [], isDotted, entries => change isDotted entries
  | key :: path, _, entries =>
    match entries.lookup key with
    | none => do
      let inner ← edit byKey change path byKey []
      return entries ++ [(key, .table (if byKey then .dotted else .implied) inner)]
    | some (.table origin inner) =>
      if origin = .inline || (byKey && origin = .header) then none
      else do
        let inner ← edit byKey change path (origin = .dotted) inner
        return Entries.replace entries key (.table origin inner)
    | some (.tables elements) =>
      match elements.getLast? with
      | none => none
      | some last => do
        let last ← edit byKey change path false last
        return Entries.replace entries key (.tables (elements.dropLast ++ [last]))
    | some _ => none

/-- Gives a value to a new name. -/
def add (key : String) (value : Value) (entries : Entries) : Option Entries :=
  if (entries.lookup key).isSome then none else some (entries ++ [(key, value)])

/-- Gives a value to a dotted key, whose last part is `key`.  Only a table that a
dotted key opened takes more of them. -/
def assign (path : List String) (key : String) (value : Value) (entries : Entries) :
    Option Entries :=
  edit true (fun isDotted inner => if isDotted = path.isEmpty then none else add key value inner)
    path false entries

/-- Opens the table of a header in single brackets. -/
def openTable (path : List String) (key : String) (entries : Entries) : Option Entries :=
  edit false (fun _ inner =>
    match inner.lookup key with
    | none => some (inner ++ [(key, .table .header [])])
    | some (.table .implied below) => some (Entries.replace inner key (.table .header below))
    | some _ => none) path false entries

/-- Opens one more table under a header in double brackets. -/
def openElement (path : List String) (key : String) (entries : Entries) : Option Entries :=
  edit false (fun _ inner =>
    match inner.lookup key with
    | none => some (inner ++ [(key, .tables [[]])])
    | some (.tables elements) => some (Entries.replace inner key (.tables (elements ++ [[]])))
    | some _ => none) path false entries

end Entries

end PlsqlAudit.Toml
