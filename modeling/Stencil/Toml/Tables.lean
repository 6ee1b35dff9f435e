import Stencil.Toml.Reader

/-!
# Tables and documents of TOML

A document is a sequence of lines. A line puts a value under a dotted key of the current table, or
a header makes another table current, which the document then defines. `Toml.read?` gives the root
table.

A table is *implied* when only keys or headers that lead through it have named it; dotted keys and
headers imply tables in two kinds that do not mix. A header defines a table that is not there, or
is implied by headers. Such a table goes to the end of the table that holds it.
-/

set_option autoImplicit false

namespace Stencil

namespace Toml

/-- How a table came to be. -/
inductive Standing where
  /-- Named by headers that lead through it. -/
  | impliedByHeader
  /-- Named by dotted keys that lead through it. -/
  | impliedByKey
  | defined
deriving DecidableEq, Repr

/-- What a table holds while a document is read. -/
inductive Item where
  | value (value : Toml)
  | table (standing : Standing) (entries : List (Text × Item))
  /-- An array of tables, the last one first. -/
  | tables (tables : List (List (Text × Item)))

instance : Inhabited Item := ⟨.value default⟩

/-- Changes the table that headers lead to from a table, or that is implied there. -/
def alongHeader (change : Entries Item → Option (Entries Item)) :
    List Text → Entries Item → Option (Entries Item)
  | [], entries => change entries
  | key :: path, entries =>
    match lookup? key entries with
    | none => (alongHeader change path []).map fun inner =>
        insertEntry key (.table .impliedByHeader inner) entries
    | some (.table standing inner) => (alongHeader change path inner).map fun inner =>
        insertEntry key (.table standing inner) entries
    | some (.tables (last :: others)) => (alongHeader change path last).map fun last =>
        insertEntry key (.tables (last :: others)) entries
    | some _ => none

/-- The table with a value put under a dotted key. -/
def putValue (value : Toml) : List Text → Entries Item → Option (Entries Item)
  | [], _ => none
  | [key], entries =>
    match lookup? key entries with
    | some _ => none
    | none => some (insertEntry key (.value value) entries)
  | key :: path, entries =>
    match lookup? key entries with
    | none => (putValue value path []).map fun inner =>
        insertEntry key (.table .impliedByKey inner) entries
    | some (.table .impliedByKey inner) => (putValue value path inner).map fun inner =>
        insertEntry key (.table .impliedByKey inner) entries
    -- only a longer key leads through a table that is implied by headers, or through an array
    | some (.table .impliedByHeader inner) =>
      if path.length = 1 then none
      else (putValue value path inner).map fun inner =>
        insertEntry key (.table .impliedByHeader inner) entries
    | some (.tables (last :: others)) =>
      if path.length = 1 then none
      else (putValue value path last).map fun last =>
        insertEntry key (.tables (last :: others)) entries
    | some _ => none

mutual

/-- The value that an item is. -/
def ofItem : Item → Toml
  | .value value => value
  | .table _ entries => .table (ofItems entries)
  | .tables tables => .array (ofTables tables).reverse

/-- The entries of a table. -/
def ofItems : List (Text × Item) → List (Text × Toml)
  | [] => []
  | (key, item) :: rest => (key, ofItem item) :: ofItems rest

/-- The tables of an array. -/
def ofTables : List (List (Text × Item)) → List Toml
  | [] => []
  | entries :: rest => .table (ofItems entries) :: ofTables rest

end

/-! ## Values -/

mutual

/-- Reads a value. -/
def readValue? : Nat → Nat → Text → Option (Toml × Text)
  | 0, _, _ => none
  | steps + 1, depth, t =>
    match t with
    | '"' :: _ => (readString? steps t).map fun r => (.text r.1, r.2)
    | '\x27' :: _ => (readString? steps t).map fun r => (.text r.1, r.2)
    | '[' :: rest =>
      if depth + 1 < nestingLimit then
        (readItems? steps (depth + 1) rest).map fun r => (.array r.1, r.2)
      else none
    | '{' :: rest =>
      if depth + 1 < nestingLimit then
        match skipSpaces rest with
        | '}' :: rest => some (.table [], rest)
        | rest => (readInline? steps (depth + 1) [] rest).map fun r => (.table (ofItems r.1), r.2)
      else none
    | t => readWord? t

/-- Reads the items of an array after its bracket or a comma. -/
def readItems? : Nat → Nat → Text → Option (List Toml × Text)
  | 0, _, _ => none
  | steps + 1, depth, t =>
    match skipFiller steps t with
    | ']' :: rest => some ([], rest)
    | rest =>
      match readValue? steps depth rest with
      | none => none
      | some (item, rest) =>
        match skipFiller steps rest with
        | ',' :: rest => (readItems? steps depth rest).map fun r => (item :: r.1, r.2)
        | ']' :: rest => some ([item], rest)
        | _ => none

/-- Reads the entries of an inline table, after those read before. -/
def readInline? : Nat → Nat → Entries Item → Text → Option (Entries Item × Text)
  | 0, _, _, _ => none
  | steps + 1, depth, entries, t =>
    match readKey? steps t with
    | some (key, '=' :: rest) =>
      if nestingLimit ≤ key.length then none
      else match readValue? steps depth (skipSpaces rest) with
      | none => none
      | some (value, rest) =>
        match putValue value key entries with
        | none => none
        | some entries =>
          match skipSpaces rest with
          | ',' :: rest => readInline? steps depth entries rest
          | '}' :: rest => some (entries, rest)
          | _ => none
    | _ => none

end

/-! ## Documents -/

/-- What a document read so far defines. -/
structure Draft where
  root : Entries Item
  /-- The entries of the current table. -/
  current : Entries Item
  /-- The header of the current table; the root has none. -/
  header : List Text
  /-- Is the current table one of an array? -/
  inArray : Bool

/-- Splits a header into the tables that it leads through and its last part. -/
def splitHeader (header : List Text) : List Text × Option Text :=
  (header.dropLast, header.getLast?)

/-- The root table with the current table in its place. -/
def Draft.settle (draft : Draft) : Option (Entries Item) :=
  match splitHeader draft.header with
  | (_, none) => some draft.current
  | (path, some key) =>
    alongHeader (fun entries =>
      if draft.inArray then
        match lookup? key entries with
        | some (.tables tables) =>
          some (insertEntry key (.tables (draft.current :: tables)) entries)
        | _ => none
      else
        match lookup? key entries with
        | none => some (insertEntry key (.table .defined draft.current) entries)
        | some _ => none) path draft.root

/-- The draft after a header. -/
def Draft.open? (draft : Draft) (header : List Text) (inArray : Bool) : Option Draft := do
  let root ← draft.settle
  match splitHeader header with
  | (_, none) => none
  | (path, some key) =>
    if inArray then
      let root ← alongHeader (fun entries =>
        match lookup? key entries with
        | none => some (insertEntry key (.tables []) entries)
        | some (.tables _) => some entries
        | some _ => none) path root
      return ⟨root, [], header, true⟩
    else
      -- what headers implied about the table is taken out, and comes back when it is settled
      let taken ← alongHeader (fun entries =>
        match lookup? key entries with
        | none => some entries
        | some (.table .impliedByHeader _) => some (eraseEntry key entries)
        | some _ => none) path root
      return ⟨taken, impliedEntries path key root, header, false⟩
where
  /-- The entries of a table that headers imply, or none. -/
  impliedEntries : List Text → Text → Entries Item → Entries Item
    | [], key, entries =>
      match lookup? key entries with
      | some (.table _ inner) => inner
      | _ => []
    | first :: path, key, entries =>
      match lookup? first entries with
      | some (.table _ inner) => impliedEntries path key inner
      | some (.tables (last :: _)) => impliedEntries path key last
      | _ => []

/-- Reads a header after its first bracket: its key, and the rest after the brackets. -/
def readHeader? (steps : Nat) (t : Text) : Option (List Text × Bool × Text) :=
  match t with
  | '[' :: rest =>
    match readKey? steps rest with
    | some (key, ']' :: ']' :: rest) => some (key, true, rest)
    | _ => none
  | t =>
    match readKey? steps t with
    | some (key, ']' :: rest) => some (key, false, rest)
    | _ => none

/-- Reads a line that is not empty, and gives the draft after it and the rest of the text. -/
def readLine? (steps : Nat) (draft : Draft) (t : Text) : Option (Draft × Text) :=
  match t with
  | '[' :: rest => do
    let (header, inArray, rest) ← readHeader? steps rest
    if nestingLimit ≤ header.length then none
    else return (← draft.open? header inArray, ← skipToNextLine? rest)
  | t =>
    match readKey? steps t with
    | some (key, '=' :: rest) =>
      if nestingLimit ≤ key.length then none
      else do
        let (value, rest) ← readValue? steps 0 (skipSpaces rest)
        let current ← putValue value key draft.current
        return ({ draft with current := current }, ← skipToNextLine? rest)
    | _ => none

/-- Reads lines to the end of the text. -/
def readLines? : Nat → Draft → Text → Option Draft
  | 0, draft, t => if t.isEmpty then some draft else none
  | steps + 1, draft, t =>
    match skipToNextLine? t, skipSpaces t with
    | _, [] => some draft
    | some rest, _ => readLines? steps draft rest
    | none, t => do
      let (draft, rest) ← readLine? (steps + 1) draft t
      readLines? steps draft rest

/-- The text without the mark of its encoding. -/
def skipMark : Text → Text
  | '\uFEFF' :: rest => rest
  | t => t

/-- The root table of a document, if the document is well formed. -/
def read? (t : Text) : Option (Entries Toml) := do
  let t := skipMark t
  let draft ← readLines? (t.length + 1) ⟨[], [], [], false⟩ t
  return ofItems (← draft.settle)

end Toml

end Stencil
