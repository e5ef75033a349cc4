import CommandWords.Proofs.Json.Strings
import CommandWords.Request.Reader
import Mathlib.Data.List.Perm.Basic

/-!
# The fields of a request

A JSON value represents a request (`Represents`) if it is an object with the name of the kind and
the fields under their keys (`UnderKeys`), or an array with the name and the fields in order
(`InOrder`). What stands under a key is read off the whole list of members (`valuesAt`); the reader
goes through the members one after the other and fills the fields as it meets them
(`foldlM_fillFrom_eq_ok_iff`), which comes to the same (`ofMembers_eq_ok_iff`, `ofItems_eq_ok_iff`).

Neither the order of the members nor other keys matter: `Alike.represents`.
-/

namespace CommandWords.Request

variable {kind : Kind} {request : Request} {members : List (Text × Json)}

/-! ## What represents a request -/

/-- The values that stand under a key, in the order of the text. -/
def valuesAt (key : Text) (members : List (Text × Json)) : List Json :=
  members.filterMap fun member => if member.1 = key then some member.2 else none

/-- The keys of the fields of a kind. -/
def Kind.keys : Kind → List Text
  | .split => [lineKey, rawKey]
  | .escape => [valueKey]
  | .join => [valuesKey]

/-- The fields of a request under their keys, each there once; other keys do not matter. -/
inductive UnderKeys (members : List (Text × Json)) : Request → Prop
  | split {line : Text} {raw : Bool} (hl : valuesAt lineKey members = [.string line])
    (hr : valuesAt rawKey members = [.bool raw]) : UnderKeys members (.split line raw)
  | splitOnly {line : Text} (hl : valuesAt lineKey members = [.string line])
    (hr : valuesAt rawKey members = []) : UnderKeys members (.split line false)
  | escape {value : Text} (h : valuesAt valueKey members = [.string value]) :
    UnderKeys members (.escape value)
  | join {values : List Text} (h : valuesAt valuesKey members = [.array (values.map .string)]) :
    UnderKeys members (.join values)

/-- The fields of a request in order, and nothing else. -/
inductive InOrder : List Json → Request → Prop
  | split {line : Text} {raw : Bool} : InOrder [.string line, .bool raw] (.split line raw)
  | splitOnly {line : Text} : InOrder [.string line] (.split line false)
  | escape {value : Text} : InOrder [.string value] (.escape value)
  | join {values : List Text} : InOrder [.array (values.map .string)] (.join values)

/-- A value that represents a request. -/
inductive Represents : Json → Request → Prop
  | object {members : List (Text × Json)} {request : Request}
    (hk : valuesAt kindKey members = [.string request.kind.name])
    (h : UnderKeys members request) : Represents (.object members) request
  | array {items : List Json} {request : Request} (h : InOrder items request) :
    Represents (.array (.string request.kind.name :: items)) request

theorem valuesAt_cons_self (key : Text) (value : Json) (members : List (Text × Json)) :
    valuesAt key ((key, value) :: members) = value :: valuesAt key members := by
  simp [valuesAt]

theorem valuesAt_cons_of_ne {key name : Text} (h : name ≠ key) (value : Json)
    (members : List (Text × Json)) :
    valuesAt key ((name, value) :: members) = valuesAt key members := by
  simp [valuesAt, h]

theorem object_represents_iff :
    Represents (.object members) request ↔
      valuesAt kindKey members = [.string request.kind.name] ∧ UnderKeys members request :=
  ⟨fun h => by cases h with | object hk h => exact ⟨hk, h⟩, fun h => .object h.1 h.2⟩

theorem array_represents_iff {items : List Json} :
    Represents (.array items) request ↔
      ∃ others, items = .string request.kind.name :: others ∧ InOrder others request :=
  ⟨fun h => by cases h with | array h => exact ⟨_, rfl, h⟩, fun ⟨_, hi, h⟩ => hi ▸ .array h⟩

/-! ## Fields -/

theorem asString_eq_ok_iff {value : Json} {text : Text} :
    asString value = .ok text ↔ value = .string text := by
  cases value <;> simp [asString]

theorem asBool_eq_ok_iff {value : Json} {b : Bool} : asBool value = .ok b ↔ value = .bool b := by
  cases value <;> simp [asBool]

theorem asStrings_eq_ok_iff {value : Json} {texts : List Text} :
    asStrings value = .ok texts ↔ value = .array (texts.map .string) := by
  have hitems : ∀ (items : List Json) (texts : List Text),
      items.mapM asString = .ok texts ↔ items = texts.map .string := by
    intro items
    induction items with
    | nil => intro texts; cases texts <;> simp [pure, Except.pure]
    | cons item items ih =>
      intro texts
      simp only [List.mapM_cons, bind_eq_ok_iff, asString_eq_ok_iff, ih]
      cases texts <;> simp [pure, Except.pure]
  cases value with
  | array items => simp only [asStrings, hitems, Json.array.injEq]
  | _ => simp [asStrings]

/-- Fills a field with a member if the member has its key. -/
def fillFrom {α : Type} (key : Text) (read : Json → Except Mismatch α) (field : Option α)
    (member : Text × Json) : Except Mismatch (Option α) :=
  if member.1 = key then fill key read field member.2 else .ok field

theorem foldlM_fillFrom_eq_ok_iff {α : Type} {key : Text} {read : Json → Except Mismatch α}
    {field field' : Option α} :
    members.foldlM (fillFrom key read) field = .ok field' ↔
      (valuesAt key members = [] ∧ field' = field) ∨
        ∃ value x, valuesAt key members = [value] ∧ read value = .ok x ∧ field = none ∧
          field' = some x := by
  induction members generalizing field with
  | nil => simp [valuesAt, pure, Except.pure, eq_comm]
  | cons member members ih =>
    obtain ⟨name, value⟩ := member
    simp only [List.foldlM_cons, bind_eq_ok_iff, ih]
    by_cases hname : name = key
    · subst hname
      rw [valuesAt_cons_self]
      cases field with
      | some x => simp [fillFrom, fill]
      | none =>
        cases hread : read value with
        | error e => simp [fillFrom, fill, hread, Except.map]
        | ok x =>
          have hfill : fillFrom name read none (name, value) = .ok (some x) := by
            simp [fillFrom, fill, hread, Except.map]
          rw [hfill]
          constructor
          · rintro ⟨_, ⟨⟩, ⟨hnil, rfl⟩ | ⟨_, _, _, _, h, _⟩⟩
            · exact .inr ⟨value, x, by rw [hnil], hread, rfl, rfl⟩
            · cases h
          · rintro (⟨h, _⟩ | ⟨_, _, h, hx, -, rfl⟩)
            · cases h
            · obtain ⟨rfl, hnil⟩ := List.cons.inj h
              obtain rfl := Except.ok.inj (hread.symm.trans hx)
              exact ⟨_, rfl, .inl ⟨hnil, rfl⟩⟩
    · simp [fillFrom, hname, valuesAt_cons_of_ne hname]

/-- A field is given by the one value under its key. -/
theorem foldlM_fillFrom_eq_some_iff {α : Type} {key : Text} {read : Json → Except Mismatch α}
    {x : α} :
    members.foldlM (fillFrom key read) none = .ok (some x) ↔
      ∃ value, valuesAt key members = [value] ∧ read value = .ok x := by
  simp [foldlM_fillFrom_eq_ok_iff]

/-- A field is left open if nothing is under its key. -/
theorem foldlM_fillFrom_eq_none_iff {α : Type} {key : Text} {read : Json → Except Mismatch α} :
    members.foldlM (fillFrom key read) none = .ok none ↔ valuesAt key members = [] := by
  simp [foldlM_fillFrom_eq_ok_iff]

theorem required_eq_ok_iff {α : Type} {key : Text} {field : Option α} {x : α} :
    required key field = .ok x ↔ field = some x := by
  cases field <;> simp [required]

theorem singleField_eq_ok_iff {α : Type} {key : Text} {read : Json → Except Mismatch α} {x : α} :
    singleField key read members = .ok x ↔
      ∃ value, valuesAt key members = [value] ∧ read value = .ok x := by
  have hfold : singleField key read members =
      members.foldlM (fillFrom key read) none >>= required key := rfl
  simp only [hfold, bind_eq_ok_iff, required_eq_ok_iff, exists_eq_right,
    foldlM_fillFrom_eq_some_iff]

/-- Fills the fields of a request to split a line with a member. -/
def fillSplit (fields : Option Text × Option Bool) (member : Text × Json) :
    Except Mismatch (Option Text × Option Bool) :=
  if member.1 = lineKey then do return (← fill lineKey asString fields.1 member.2, fields.2)
  else if member.1 = rawKey then do return (fields.1, ← fill rawKey asBool fields.2 member.2)
  else .ok fields

theorem fillSplit_eq_ok_iff {line line' : Option Text} {raw raw' : Option Bool}
    {member : Text × Json} :
    fillSplit (line, raw) member = .ok (line', raw') ↔
      fillFrom lineKey asString line member = .ok line' ∧
        fillFrom rawKey asBool raw member = .ok raw' := by
  have hne : rawKey ≠ lineKey := by decide
  unfold fillSplit fillFrom
  by_cases hline : member.1 = lineKey
  · cases fill lineKey asString line member.2 <;>
      simp [hline, hne.symm, bind, Except.bind, pure, Except.pure]
  · by_cases hraw : member.1 = rawKey
    · cases fill rawKey asBool raw member.2 <;>
        simp [hraw, hne, bind, Except.bind, pure, Except.pure]
    · simp [hline, hraw]

/-- The two fields of a request to split a line are filled independently. -/
theorem foldlM_fillSplit_eq_ok_iff {line line' : Option Text} {raw raw' : Option Bool} :
    members.foldlM fillSplit (line, raw) = .ok (line', raw') ↔
      members.foldlM (fillFrom lineKey asString) line = .ok line' ∧
        members.foldlM (fillFrom rawKey asBool) raw = .ok raw' := by
  induction members generalizing line raw with
  | nil => simp [pure, Except.pure]
  | cons member members ih =>
    simp only [List.foldlM_cons, bind_eq_ok_iff, Prod.exists, fillSplit_eq_ok_iff, ih]
    constructor
    · rintro ⟨line₁, raw₁, ⟨hl, hr⟩, hls, hrs⟩
      exact ⟨⟨line₁, hl, hls⟩, raw₁, hr, hrs⟩
    · rintro ⟨⟨line₁, hl, hls⟩, raw₁, hr, hrs⟩
      exact ⟨line₁, raw₁, ⟨hl, hr⟩, hls, hrs⟩

theorem splitFields_eq_ok_iff {line : Text} {raw : Option Bool} :
    splitFields members = .ok (line, raw) ↔
      members.foldlM (fillFrom lineKey asString) none = .ok (some line) ∧
        members.foldlM (fillFrom rawKey asBool) none = .ok raw := by
  have hfold : splitFields members = (do
      let fields ← members.foldlM fillSplit (none, none)
      return (← required lineKey fields.1, fields.2)) := rfl
  rw [hfold, bind_eq_ok_iff, ← foldlM_fillSplit_eq_ok_iff]
  constructor
  · rintro ⟨⟨line', raw'⟩, hfields, h⟩
    obtain ⟨line, hline, h⟩ := bind_eq_ok_iff.1 h
    obtain rfl := required_eq_ok_iff.1 hline
    cases h
    exact hfields
  · intro h
    exact ⟨_, h, rfl⟩

theorem ofMembers_eq_ok_iff :
    ofMembers kind members = .ok request ↔ request.kind = kind ∧ UnderKeys members request := by
  constructor
  · intro h
    cases kind with
    | split =>
      obtain ⟨⟨line, raw⟩, hfields, rfl⟩ := map_eq_ok_iff.1 h
      obtain ⟨hline, hraw⟩ := splitFields_eq_ok_iff.1 hfields
      obtain ⟨value, hline, hvalue⟩ := foldlM_fillFrom_eq_some_iff.1 hline
      obtain rfl := asString_eq_ok_iff.1 hvalue
      cases raw with
      | none => exact ⟨rfl, .splitOnly hline (foldlM_fillFrom_eq_none_iff.1 hraw)⟩
      | some raw =>
        obtain ⟨value, hraw, hvalue⟩ := foldlM_fillFrom_eq_some_iff.1 hraw
        obtain rfl := asBool_eq_ok_iff.1 hvalue
        exact ⟨rfl, .split hline hraw⟩
    | escape =>
      obtain ⟨value, hfield, rfl⟩ := map_eq_ok_iff.1 h
      obtain ⟨_, hat, hvalue⟩ := singleField_eq_ok_iff.1 hfield
      obtain rfl := asString_eq_ok_iff.1 hvalue
      exact ⟨rfl, .escape hat⟩
    | join =>
      obtain ⟨values, hfield, rfl⟩ := map_eq_ok_iff.1 h
      obtain ⟨_, hat, hvalue⟩ := singleField_eq_ok_iff.1 hfield
      obtain rfl := asStrings_eq_ok_iff.1 hvalue
      exact ⟨rfl, .join hat⟩
  · rintro ⟨rfl, h⟩
    cases h with
    | split hl hr =>
      exact map_eq_ok_iff.2 ⟨(_, some _), splitFields_eq_ok_iff.2
        ⟨foldlM_fillFrom_eq_some_iff.2 ⟨_, hl, rfl⟩, foldlM_fillFrom_eq_some_iff.2 ⟨_, hr, rfl⟩⟩, rfl⟩
    | splitOnly hl hr =>
      exact map_eq_ok_iff.2 ⟨(_, none), splitFields_eq_ok_iff.2
        ⟨foldlM_fillFrom_eq_some_iff.2 ⟨_, hl, rfl⟩, foldlM_fillFrom_eq_none_iff.2 hr⟩, rfl⟩
    | escape h => exact map_eq_ok_iff.2 ⟨_, singleField_eq_ok_iff.2 ⟨_, h, rfl⟩, rfl⟩
    | join h =>
      exact map_eq_ok_iff.2
        ⟨_, singleField_eq_ok_iff.2 ⟨_, h, asStrings_eq_ok_iff.2 rfl⟩, rfl⟩

theorem noMore_eq_ok_iff {items extra : List Json} {u : Unit} :
    noMore kind items extra = .ok u ↔ extra = [] := by
  cases extra <;> simp [noMore]

theorem ofItems_eq_ok_iff {items : List Json} :
    ofItems kind items = .ok request ↔ request.kind = kind ∧ InOrder items request := by
  constructor
  · intro h
    unfold ofItems at h
    split at h
    · cases h
    · obtain ⟨line, hline, rfl⟩ := map_eq_ok_iff.1 h
      obtain rfl := asString_eq_ok_iff.1 hline
      exact ⟨rfl, .splitOnly⟩
    · obtain ⟨line, hline, h⟩ := bind_eq_ok_iff.1 h
      obtain ⟨raw, hraw, h⟩ := bind_eq_ok_iff.1 h
      obtain ⟨_, hextra, h⟩ := bind_eq_ok_iff.1 h
      obtain rfl := asString_eq_ok_iff.1 hline
      obtain rfl := asBool_eq_ok_iff.1 hraw
      obtain rfl := noMore_eq_ok_iff.1 hextra
      cases h
      exact ⟨rfl, .split⟩
    · obtain ⟨value, hvalue, h⟩ := bind_eq_ok_iff.1 h
      obtain ⟨_, hextra, h⟩ := bind_eq_ok_iff.1 h
      obtain rfl := asString_eq_ok_iff.1 hvalue
      obtain rfl := noMore_eq_ok_iff.1 hextra
      cases h
      exact ⟨rfl, .escape⟩
    · obtain ⟨values, hvalues, h⟩ := bind_eq_ok_iff.1 h
      obtain ⟨_, hextra, h⟩ := bind_eq_ok_iff.1 h
      obtain rfl := asStrings_eq_ok_iff.1 hvalues
      obtain rfl := noMore_eq_ok_iff.1 hextra
      cases h
      exact ⟨rfl, .join⟩
  · rintro ⟨rfl, h⟩
    cases h with
    | split => rfl
    | splitOnly => rfl
    | escape => rfl
    | join =>
      exact bind_eq_ok_iff.2 ⟨_, asStrings_eq_ok_iff.2 rfl, rfl⟩

/-! ## What does not matter -/

/-- What represents a request depends only on the values under the keys of its fields. -/
theorem UnderKeys.of_perm {others : List (Text × Json)} (h : UnderKeys members request)
    (hp : ∀ key ∈ request.kind.keys, (valuesAt key members).Perm (valuesAt key others)) :
    UnderKeys others request := by
  cases h with
  | split hl hr =>
    have hline := hp lineKey (by simp [kind, Kind.keys])
    have hraw := hp rawKey (by simp [kind, Kind.keys])
    rw [hl, List.singleton_perm] at hline
    rw [hr, List.singleton_perm] at hraw
    exact .split hline.symm hraw.symm
  | splitOnly hl hr =>
    have hline := hp lineKey (by simp [kind, Kind.keys])
    have hraw := hp rawKey (by simp [kind, Kind.keys])
    rw [hl, List.singleton_perm] at hline
    rw [hr, List.nil_perm] at hraw
    exact .splitOnly hline.symm hraw
  | escape h =>
    have hvalue := hp valueKey (by simp [kind, Kind.keys])
    rw [h, List.singleton_perm] at hvalue
    exact .escape hvalue.symm
  | join h =>
    have hvalues := hp valuesKey (by simp [kind, Kind.keys])
    rw [h, List.singleton_perm] at hvalues
    exact .join hvalues.symm

/-- The members that matter to a kind of requests. -/
def relevant (kind : Kind) (members : List (Text × Json)) : List (Text × Json) :=
  members.filter (·.1 ∈ kindKey :: kind.keys)

/-- Two values that represent the same requests of a kind: one value twice, or two objects with the
same members that matter, in any order. -/
inductive Alike (kind : Kind) : Json → Json → Prop
  | same (value : Json) : Alike kind value value
  | objects {members others : List (Text × Json)}
    (h : (relevant kind members).Perm (relevant kind others)) :
    Alike kind (.object members) (.object others)

theorem Alike.symm {value other : Json} (h : Alike kind value other) : Alike kind other value := by
  cases h with
  | same => exact .same _
  | objects h => exact .objects h.symm

theorem valuesAt_relevant {key : Text} (h : key ∈ kindKey :: kind.keys)
    (members : List (Text × Json)) : valuesAt key (relevant kind members) = valuesAt key members := by
  rw [valuesAt, relevant, List.filterMap_filter]
  congr 1
  funext member
  by_cases hkey : member.1 = key
  · rw [hkey, if_pos (by simpa using h)]
  · simp [hkey]

theorem Alike.represents {value other : Json} (h : Alike request.kind value other)
    (hr : Represents value request) : Represents other request := by
  cases h with
  | same => exact hr
  | @objects members others h =>
    have hp : ∀ key ∈ kindKey :: request.kind.keys,
        (valuesAt key members).Perm (valuesAt key others) := fun key hkey => by
      rw [← valuesAt_relevant hkey members, ← valuesAt_relevant hkey others]
      exact h.filterMap _
    obtain ⟨hname, hfields⟩ := object_represents_iff.1 hr
    have hkind := hp kindKey List.mem_cons_self
    rw [hname, List.singleton_perm] at hkind
    exact .object hkind.symm (hfields.of_perm fun key hkey => hp key (List.mem_cons_of_mem _ hkey))

end CommandWords.Request
