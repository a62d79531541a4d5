import PlsqlAudit.Toml.Number

/-!
# TOML documents

A document is read line by line: a line gives a value to a key of the current
table, or its header makes another table the current one.  Values in brackets and
braces may be nested only so deep, and a key has only so many parts.
-/

namespace PlsqlAudit.Toml

/-- How deep values may be nested, and how many parts a key may have. -/
def nestingLimit : Nat := 79

/-- Reads the items of a list from just after its opening bracket up to and with
the closing one. -/
def readItems (value : Reader Value) : Nat → Reader (List Value)
  | 0, _ => none
  | n + 1, cs =>
    match skipSpace false cs with
    | ']' :: rest => some ([], rest)
    | cs => do
      let (item, rest) ← value cs
      match skipSpace false rest with
      | ',' :: rest => do
        let (items, rest) ← readItems value n rest
        return (item :: items, rest)
      | ']' :: rest => return ([item], rest)
      | _ => none

/-- Reads a key, an equals sign and a value. -/
def readAssignment (value : Reader Value) (cs : List Char) :
    Option ((List String × String × Value) × List Char) := do
  let ((path, key), rest) ← readKey nestingLimit cs
  let rest ← readChar '=' rest
  let (value, rest) ← value (skipGaps rest)
  return ((path, key, value), rest)

/-- Reads the assignments of a table in braces up to and with the closing one. -/
def readAssignments (value : Reader Value) : Nat → Entries → Reader Entries
  | 0, _, _ => none
  | n + 1, entries, cs => do
    let ((path, key, item), rest) ← readAssignment value cs
    let entries ← entries.assign path key item
    match skipGaps rest with
    | ',' :: rest => readAssignments value n entries rest
    | '\x7d' :: rest => return (entries, rest)
    | _ => none

/-- Reads a value that is nested at most as deep as the bound. -/
def readValue : Nat → Reader Value
  | depth, cs =>
    match cs with
    | '"' :: _ | '\'' :: _ => (readString cs).map fun (text, rest) => (.string text, rest)
    | 't' :: 'r' :: 'u' :: 'e' :: rest => some (.boolean true, rest)
    | 'f' :: 'a' :: 'l' :: 's' :: 'e' :: rest => some (.boolean false, rest)
    | '[' :: rest =>
      match depth with
      | 0 => none
      | depth + 1 =>
        (readItems (readValue depth) (rest.length + 1) rest).map fun (items, rest) =>
          (.array items, rest)
    | '\x7b' :: rest =>
      match depth with
      | 0 => none
      | depth + 1 =>
        match skipGaps rest with
        | '\x7d' :: rest => some (.table .inline [], rest)
        | rest =>
          (readAssignments (readValue depth) (rest.length + 1) [] rest).map fun (entries, rest) =>
            (.table .inline entries, rest)
    | _ => readNumber cs

/-- Where the reader stands: the document so far, and the path of the current
table, which is empty before the first header. -/
structure Draft where
  root : Entries := []
  current : Option (List String × String) := none
  deriving Repr, Inhabited

namespace Draft

/-- Gives a value to a key of the current table. -/
def assign (draft : Draft) (path : List String) (key : String) (value : Value) : Option Draft :=
  let change := fun (entries : Entries) => entries.assign path key value
  match draft.current with
  | none => do
    return { draft with root := ← change draft.root }
  | some (above, name) => do
    let root ← draft.root.edit false (fun _ entries => change entries) (above ++ [name]) false
    return { draft with root }

/-- Makes the table of a header the current one. -/
def openTable (draft : Draft) (path : List String) (key : String) : Option Draft := do
  return ⟨← draft.root.openTable path key, some (path, key)⟩

/-- Makes a new table under a header in double brackets the current one. -/
def openElement (draft : Draft) (path : List String) (key : String) : Option Draft := do
  return ⟨← draft.root.openElement path key, some (path, key)⟩

end Draft

/-- Reads one line that is neither empty nor a comment. -/
def readLine (draft : Draft) (cs : List Char) : Option (Draft × List Char) :=
  match cs with
  | '[' :: '[' :: rest => do
    let ((path, key), rest) ← readKey nestingLimit rest
    let rest ← readChar ']' rest >>= readChar ']' >>= readLineEnd
    return (← draft.openElement path key, rest)
  | '[' :: rest => do
    let ((path, key), rest) ← readKey nestingLimit rest
    let rest ← readChar ']' rest >>= readLineEnd
    return (← draft.openTable path key, rest)
  | _ => do
    let ((path, key, value), rest) ← readAssignment (readValue nestingLimit) cs
    let rest ← readLineEnd rest
    return (← draft.assign path key value, rest)

/-- Reads the lines of a document, at most as many as the bound. -/
def readLines : Nat → Draft → List Char → Option Draft
  | 0, _, _ => none
  | n + 1, draft, cs =>
    match skipGaps cs with
    | [] => some draft
    | rest =>
      match readLineEnd rest with
      | some rest => readLines n draft rest
      | none => do
        let (draft, rest) ← readLine draft rest
        readLines n draft rest

/-- The table that a document holds. -/
def parse? (text : String) : Option Entries :=
  let cs := match text.toList with
    | '\uFEFF' :: rest => rest
    | cs => cs
  (readLines (cs.length + 1) {} cs).map (·.root)

end PlsqlAudit.Toml
