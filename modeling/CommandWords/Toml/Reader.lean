import CommandWords.Toml.Scalar
import CommandWords.Toml.Table

/-!
# Reading TOML

A document is read as a list of statements, one a line: headers and keys with their values.
`read` then carries them out one after the other. Arrays and tables between braces are nested at
most `depthLimit` deep; the readers recurse on that depth. A dotted key counts for nothing in it
and has a limit of its own (`keyPartLimit`).
-/

namespace CommandWords.Toml

/-- How deep arrays and tables between braces may be nested. -/
def depthLimit : Nat := 80

/-! ## Values -/

/-- The items of an array behind the opening bracket or behind a comma, each read by `read`. -/
def readItems (read : Text → Option (Value × Text)) (s : Text) : Option (List Value × Text) :=
  match skipLines s with
  | [] => none
  | c :: rest =>
    if c = ']' then some ([], rest)
    else
      match read (c :: rest) with
      | none => none
      | some (item, rest) =>
        match skipLines rest with
        | [] => none
        | d :: rest =>
          if d = ']' then some ([item], rest)
          else if d = ',' ∧ rest.length < s.length then
            (readItems read rest).map fun (items, behind) => (item :: items, behind)
          else none
termination_by s.length
decreasing_by simp_all

/-- A key and its value at the head of a text, the value read by `read`, and `skip` taking what
may stand around the equals sign. -/
def readKeyValue (skip : Text → Text) (read : Text → Option (Value × Text)) (s : Text) :
    Option ((List Text × Value) × Text) := do
  let (keys, rest) ← readKey? s
  match skip rest with
  | '=' :: rest =>
    let (value, rest) ← read (skip rest)
    return ((keys, value), rest)
  | _ => none

/-- The keys and values between braces, behind the opening brace or behind a comma. Between braces
a line may end wherever a space may stand, except inside a dotted key. -/
def readPairs (read : Text → Option (Value × Text)) (s : Text) :
    Option (List (List Text × Value) × Text) :=
  match skipLines s with
  | [] => none
  | c :: rest =>
    if c = '\x7d' then some ([], rest)
    else
      match readKeyValue skipLines read (c :: rest) with
      | none => none
      | some (pair, rest) =>
        match skipLines rest with
        | [] => none
        | d :: rest =>
          if d = '\x7d' then some ([pair], rest)
          else if d = ',' ∧ rest.length < s.length then
            (readPairs read rest).map fun (pairs, behind) => (pair :: pairs, behind)
          else none
termination_by s.length
decreasing_by simp_all

/-- Gives the key with the given parts a value in a table that is being begun. -/
def insertPair (kind : TableKind) (entries : Entries) (pair : List Text × Value) :
    Option Entries :=
  pair.1.getLast?.bind fun key => insert pair.1.dropLast key pair.2 kind entries

/-- The table that keys and values between braces make. -/
def inlineTable (pairs : List (List Text × Value)) : Option Value :=
  (pairs.foldlM (insertPair .inline) []).map (.table .inline)

/-- The value at the head of a text, with arrays and tables nested at most `depth` deep. -/
def readValue (depth : Nat) (s : Text) : Option (Value × Text) :=
  match s with
  | [] => none
  | c :: rest =>
    if c = '"' ∨ c = '\x27' then
      (readString? s).map fun (chars, behind) => (.string chars, behind)
    else if c = '[' then
      match depth with
      | 0 => none
      | depth + 1 =>
        (readItems (readValue depth) rest).map fun (items, behind) => (.array items, behind)
    else if c = '\x7b' then
      match depth with
      | 0 => none
      | depth + 1 => do
        let (pairs, behind) ← readPairs (readValue depth) rest
        return (← inlineTable pairs, behind)
    else
      let (word, behind) := scalarText s
      (scalar? word).map (·, behind)
termination_by structural depth

/-! ## Statements -/

/-- A line of a document. -/
inductive Statement where
  /-- Begins a table. -/
  | header (keys : List Text)
  /-- Begins an element of an array of tables. -/
  | element (keys : List Text)
  /-- Gives a key a value in the table begun last. -/
  | pair (pair : List Text × Value)

/-- The statement at the head of a text. -/
def readStatement (s : Text) : Option (Statement × Text) :=
  match s with
  | '[' :: '[' :: rest => do
    let (keys, rest) ← readKey? rest
    return (.element keys, ← expect? ']' (← expect? ']' rest))
  | '[' :: rest => do
    let (keys, rest) ← readKey? rest
    return (.header keys, ← expect? ']' rest)
  | s => do
    let (pair, rest) ← readKeyValue skipSpace (readValue depthLimit) s
    return (.pair pair, rest)

/-- The statements of a text, each on a line of its own. -/
def readStatements (s : Text) : Option (List Statement) :=
  match skipLines s with
  | [] => some []
  | c :: rest =>
    match readStatement (c :: rest) with
    | none => none
    | some (statement, rest) =>
      match endOfLine? rest with
      | none => none
      | some behind =>
        if behind.length < s.length then (readStatements behind).map (statement :: ·) else none
termination_by s.length

/-! ## Documents -/

/-- A document under way: its table, and the path of the table begun last. -/
structure Draft where
  path : List Text
  entries : Entries

/-- Begins the table or the element at the path with the given parts. -/
def Draft.enter (enterAt : List Text → Text → Entries → Option Entries) (keys : List Text)
    (draft : Draft) : Option Draft :=
  keys.getLast?.bind fun key =>
    (enterAt keys.dropLast key draft.entries).map fun entries => ⟨keys, entries⟩

/-- Carries out a statement. -/
def Draft.add (draft : Draft) : Statement → Option Draft
  | .header keys => draft.enter openTable keys
  | .element keys => draft.enter openElement keys
  | .pair pair =>
    (changeAt false (fun kind entries => insertPair kind entries pair) draft.path .explicit
      draft.entries).map fun entries => { draft with entries }

/-- A text without a byte order mark at its head. -/
def trimMark : Text → Text
  | [] => []
  | c :: rest => if c = Char.ofNat 0xFEFF then rest else c :: rest

/-- Reads a document as the entries of its table. -/
def read (s : Text) : Option Entries := do
  let statements ← readStatements (trimMark s)
  let draft ← statements.foldlM Draft.add ⟨[], []⟩
  return draft.entries

end CommandWords.Toml
