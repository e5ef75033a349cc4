import CommandWords.Json.Reader
import CommandWords.Request.Mismatch
import CommandWords.Text.Blank

/-!
# Reading a request

A request is a JSON object with the name of its kind under the key `op` and its fields under keys
of their own, or a JSON array with the name first and the fields in order. `readTagged` takes the
name and collects the rest; `Request.ofTagged` then makes the request of it. Both stop at the first
cause of failure in the order of the text, so that a wrong name is reported before the text behind
it is looked at, and a wrong field before the text behind the value.
-/

namespace CommandWords.Request

open Json (Fault readValue readScalar readColon nextItem nextKey skipSpace depthLimit)

/-- Why a text is no request. -/
inductive Error where
  /-- There is nothing but white space. -/
  | empty
  | fault (fault : Fault)
  | mismatch (mismatch : Mismatch)
deriving Repr

/-- The words that a JSON reader adds about a text. -/
structure JsonWords where
  /-- What the text suffers from. -/
  fault : Fault → Text → Text
  /-- Where in the text the value stands that does not fit. There may be no words for it. -/
  place : Text → Text

/-- The message about a text that is no request. -/
def Error.message (words : JsonWords) (text : Text) : Error → Text
  | .empty => "empty request".toList
  | .fault cause => "failed to parse JSON: ".toList ++ words.fault cause text
  | .mismatch cause => "failed to parse JSON: ".toList ++ cause.message ++ words.place text

/-- The fields of a request, as they are written. -/
inductive Body where
  /-- Under keys, in the order of the text. -/
  | members (members : List (Text × Json))
  /-- By place. -/
  | items (items : List Json)

/-- A request whose fields have not been looked at. -/
structure Tagged where
  kind : Kind
  body : Body

/-- The key of the name of the kind. -/
def kindKey : Text := "op".toList

/-- A reader's fault as a cause for which a text is no request. -/
def liftFault {α : Type} : Except Fault α → Except Error α := Except.mapError .fault

/-- The name of a kind, behind white space. A value of another type is not read further than its
type requires. -/
def readKind (s : Text) : Except Error (Kind × Text) :=
  match skipSpace s with
  | [] => .error (.fault .truncated)
  | c :: rest =>
    if c = '[' then .error (.mismatch (.wrongType (.array []) .kindName))
    else if c = '\x7b' then .error (.mismatch (.wrongType (.object []) .kindName))
    else
      match readScalar (c :: rest) with
      | .error e => .error (.fault e)
      | .ok (.string name, behind) =>
        match Kind.named? name with
        | some kind => .ok (kind, behind)
        | none => .error (.mismatch (.unknownKind name))
      | .ok (value, _) => .error (.mismatch (.wrongType value .kindName))

/-- The members of an object behind its opening brace (`first`) or behind a member: the kind,
which `kind` is if it has been met, and the other members. -/
def readTaggedMembers (kind : Option Kind) (first : Bool) (s : Text) :
    Except Error (Kind × List (Text × Json) × Text) :=
  match nextKey first s with
  | .error e => .error (.fault e)
  | .ok (.closed behind) =>
    match kind with
    | some kind => .ok (kind, [], behind)
    | none => .error (.mismatch (.missingField kindKey))
  | .ok (.key key rest) =>
    if key = kindKey then
      match kind with
      | some _ => .error (.mismatch (.duplicateField kindKey))
      | none =>
        match liftFault (readColon rest) >>= readKind with
        | .error e => .error e
        | .ok (kind, rest) =>
          if rest.length < s.length then readTaggedMembers (some kind) false rest
          else .error (.fault .malformed)
    else
      match readColon rest >>= readValue (depthLimit - 1) with
      | .error e => .error (.fault e)
      | .ok (value, rest) =>
        if rest.length < s.length then
          (readTaggedMembers kind false rest).map fun (kind, members, behind) =>
            (kind, (key, value) :: members, behind)
        else .error (.fault .malformed)
termination_by s.length

/-- The kind and the fields of a request, behind white space, and the text behind it. -/
def readTagged (s : Text) : Except Error (Tagged × Text) :=
  match skipSpace s with
  | [] => .error (.fault .truncated)
  | c :: rest =>
    if c = '\x7b' then do
      let (kind, members, behind) ← readTaggedMembers none true rest
      return (⟨kind, .members members⟩, behind)
    else if c = '[' then
      match nextItem true rest with
      | .error e => .error (.fault e)
      | .ok (.closed _) => .error (.mismatch (.missingField kindKey))
      | .ok (.item rest) => do
        let (kind, rest) ← readKind rest
        let (items, behind) ← liftFault (Json.readItems (readValue (depthLimit - 1)) false rest)
        return (⟨kind, .items items⟩, behind)
    else do
      let (value, _) ← liftFault (readScalar (c :: rest))
      throw (.mismatch (.wrongType value .request))

/-! ## Fields -/

/-- A value that must be a string. -/
def asString : Json → Except Mismatch Text
  | .string value => .ok value
  | value => .error (.wrongType value .string)

/-- A value that must be a truth value. -/
def asBool : Json → Except Mismatch Bool
  | .bool value => .ok value
  | value => .error (.wrongType value .boolean)

/-- A value that must be an array of strings. -/
def asStrings : Json → Except Mismatch (List Text)
  | .array items => items.mapM asString
  | value => .error (.wrongType value .sequence)

/-- The keys of the fields. -/
def lineKey : Text := "line".toList

@[inherit_doc lineKey] def rawKey : Text := "raw".toList

@[inherit_doc lineKey] def valueKey : Text := "value".toList

@[inherit_doc lineKey] def valuesKey : Text := "values".toList

/-- Fills a field that a member with its key gives; it must not have been given before. -/
def fill {α : Type} (key : Text) (read : Json → Except Mismatch α) (field : Option α)
    (value : Json) : Except Mismatch (Option α) :=
  match field with
  | some _ => .error (.duplicateField key)
  | none => (read value).map some

/-- The value of a field that must have been given. -/
def required {α : Type} (key : Text) : Option α → Except Mismatch α
  | some value => .ok value
  | none => .error (.missingField key)

/-- The one field of a request that has only one, under the given key. -/
def singleField {α : Type} (key : Text) (read : Json → Except Mismatch α)
    (members : List (Text × Json)) : Except Mismatch α := do
  let step := fun (field : Option α) ((name, value) : Text × Json) =>
    if name = key then fill key read field value else .ok field
  required key (← members.foldlM step none)

/-- The fields of a request to split a line. -/
def splitFields (members : List (Text × Json)) : Except Mismatch (Text × Option Bool) := do
  let step := fun (fields : Option Text × Option Bool) ((name, value) : Text × Json) =>
    if name = lineKey then do return (← fill lineKey asString fields.1 value, fields.2)
    else if name = rawKey then do return (fields.1, ← fill rawKey asBool fields.2 value)
    else Except.ok fields
  let (line, raw) ← members.foldlM step (none, none)
  return (← required lineKey line, raw)

/-- A request from its members, taken in order. Members with other keys do not matter. -/
def ofMembers (kind : Kind) (members : List (Text × Json)) : Except Mismatch Request :=
  match kind with
  | .split => (splitFields members).map fun (line, raw) => .split line (raw.getD false)
  | .escape => (singleField valueKey asString members).map .escape
  | .join => (singleField valuesKey asStrings members).map .join

/-- Refuses items behind the fields. -/
def noMore (kind : Kind) (items extra : List Json) : Except Mismatch Unit :=
  if extra.isEmpty then .ok () else .error (.tooMany kind items.length)

/-- A request from its fields by place. -/
def ofItems (kind : Kind) (items : List Json) : Except Mismatch Request :=
  match kind, items with
  | kind, [] => .error (.tooFew kind)
  | .split, [line] => (asString line).map (.split · false)
  | .split, line :: raw :: extra => do
    let line ← asString line
    let raw ← asBool raw
    noMore .split items extra
    return .split line raw
  | .escape, value :: extra => do
    let value ← asString value
    noMore .escape items extra
    return .escape value
  | .join, values :: extra => do
    let values ← asStrings values
    noMore .join items extra
    return .join values

/-- The request that a kind and its fields make. -/
def ofTagged (tagged : Tagged) : Except Mismatch Request :=
  match tagged.body with
  | .members members => ofMembers tagged.kind members
  | .items items => ofItems tagged.kind items

/-- Reads a text that is one request with white space around it. -/
def parse (text : Text) : Except Error Request := do
  if text.all isBlank then throw .empty
  let (tagged, behind) ← readTagged text
  let request ← (ofTagged tagged).mapError .mismatch
  if (skipSpace behind).isEmpty then return request else throw (.fault .malformed)

end CommandWords.Request
