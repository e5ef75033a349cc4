import CommandWords.Proofs.Json.Documents
import CommandWords.Proofs.Json.Range
import CommandWords.Proofs.Request.Fields
import Mathlib.Data.List.Permutation

/-!
# Request documents

A text is read as a request exactly if it is a JSON document of a value that represents the request.
The reader of requests does not read a value first: it takes the name of the kind from among the
members, keeps the others, and makes the request of them. It is shown to see what reading the whole
object would see.

* `readTaggedMembers_eq_ok_iff`: the members are those of the object, and one of them names the
  kind;
* `readTagged_ofTagged_iff`: the requests that are made are those that the value represents;
* `parse_eq_ok_iff_represents`: the requests that a text holds, and what they do not depend on.
-/

namespace CommandWords.Request

open Json (Fault readValue readScalar readColon readItems readMembers nextItem nextKey skipSpace
  depthLimit IsDocument NumeralWritten)

variable {s rest behind : Text} {first : Bool} {depth : Nat} {kind : Kind} {request : Request}
  {members : List (Text × Json)}

/-! ## The name of the kind -/

theorem Kind.name_inj {k l : Kind} (h : k.name = l.name) : k = l := by
  cases k <;> cases l <;> first | rfl | exact absurd h (by decide)

/-- The name of a kind is read as the string that it is. -/
theorem readKind_eq_ok_iff (depth : Nat) :
    readKind s = .ok (kind, rest) ↔ readValue depth s = .ok (.string kind.name, rest) := by
  rw [readKind]
  cases hskip : skipSpace s with
  | nil => simp [Json.readValue_nil hskip]
  | cons c tail =>
    dsimp only
    split_ifs with harray hobject
    · subst harray
      simp [Json.readValue_array_eq_ok_iff hskip]
    · subst hobject
      simp [Json.readValue_object_eq_ok_iff hskip]
    · rw [Json.readValue_eq_readScalar hskip harray hobject]
      cases readScalar (c :: tail) with
      | error e => simp
      | ok found =>
        obtain ⟨value, behind⟩ := found
        cases value with
        | string name =>
          cases hname : Kind.named? name with
          | none =>
            have hne : name ≠ kind.name := fun h => by
              rw [Kind.named?_eq_some_iff.2 h] at hname
              cases hname
            simp [hname, hne]
          | some found =>
            obtain rfl := Kind.named?_eq_some_iff.1 hname
            have hkind : found = kind ↔ found.name = kind.name := ⟨congrArg _, Kind.name_inj⟩
            simp [hname, hkind]
        | _ => simp

/-! ## The members of a tagged object -/

/-- The names under the key of the name, with the one that has been met before. -/
def names (met : Option Kind) (members : List (Text × Json)) : List Json :=
  met.toList.map (.string ·.name) ++ valuesAt kindKey members

/-- The members that do not name the kind. -/
def fields (members : List (Text × Json)) : List (Text × Json) :=
  members.filter (·.1 ≠ kindKey)

theorem valuesAt_fields {key : Text} (h : key ≠ kindKey) (members : List (Text × Json)) :
    valuesAt key (fields members) = valuesAt key members := by
  rw [valuesAt, fields, List.filterMap_filter]
  congr 1
  funext member
  by_cases hkey : member.1 = key
  · simp [hkey, h]
  · simp [hkey]

theorem fields_cons_self (value : Json) (members : List (Text × Json)) :
    fields ((kindKey, value) :: members) = fields members := by
  simp [fields]

theorem fields_cons_of_ne {key : Text} (h : key ≠ kindKey) (value : Json)
    (members : List (Text × Json)) :
    fields ((key, value) :: members) = (key, value) :: fields members := by
  simp [fields, h]

theorem names_cons_of_ne {key : Text} (h : key ≠ kindKey) (met : Option Kind) (value : Json)
    (members : List (Text × Json)) : names met ((key, value) :: members) = names met members := by
  rw [names, valuesAt_cons_of_ne h, names]

/-- The value of a key that names the kind. -/
theorem readColon_readKind_eq_ok_iff (depth : Nat) :
    liftFault (readColon s) >>= readKind = .ok (kind, rest) ↔
      readColon s >>= readValue depth = .ok (.string kind.name, rest) := by
  simp only [bind_eq_ok_iff, liftFault, mapError_eq_ok_iff, readKind_eq_ok_iff depth]

/-- The reader of a tagged object takes the members of the object if exactly one name is among
them, and leaves that one out. -/
theorem readTaggedMembers_eq_ok_iff {met : Option Kind} :
    readTaggedMembers met first s = .ok (kind, members, behind) ↔
      ∃ all, readMembers (readValue (depthLimit - 1)) first s = .ok (all, behind) ∧
        fields all = members ∧ names met all = [.string kind.name] := by
  fun_induction readTaggedMembers met first s generalizing members with
  | case1 met first s e hnext =>
    rw [readMembers, hnext]
    simp
  | case2 first s behind' hnext met =>
    rw [readMembers, hnext]
    constructor
    · intro h
      cases h
      exact ⟨[], rfl, rfl, rfl⟩
    · rintro ⟨all, h, rfl, hnames⟩
      cases h
      obtain rfl : met = kind := Kind.name_inj (by simpa [names, valuesAt] using hnames)
      rfl
  | case3 first s behind' hnext =>
    rw [readMembers, hnext]
    simp [names, valuesAt]
  | case4 first s rest met hnext =>
    constructor
    · intro h
      cases h
    · rintro ⟨all, hall, -, hnames⟩
      obtain ⟨value, rest', others, -, -, -, rfl⟩ := (Json.readMembers_key_eq_ok_iff hnext).1 hall
      simp [names, valuesAt_cons_self] at hnames
  | case5 first s rest e hname hnext =>
    constructor
    · intro h
      cases h
    · rintro ⟨all, hall, -, hnames⟩
      obtain ⟨value, rest', others, hvalue, -, -, rfl⟩ := (Json.readMembers_key_eq_ok_iff hnext).1 hall
      obtain ⟨rfl, -⟩ : value = .string kind.name ∧ _ := by
        simpa [names, valuesAt_cons_self] using hnames
      rw [(readColon_readKind_eq_ok_iff _).2 hvalue] at hname
      cases hname
  | case6 first s rest met rest' hname hlt hnext ih =>
    have hvalue := (readColon_readKind_eq_ok_iff (depthLimit - 1)).1 hname
    rw [ih]
    constructor
    · rintro ⟨all, hall, hfields, hnames⟩
      exact ⟨(kindKey, .string met.name) :: all,
        (Json.readMembers_key_eq_ok_iff hnext).2 ⟨_, _, all, hvalue, hlt, hall, rfl⟩,
        (fields_cons_self _ all).trans hfields, (valuesAt_cons_self _ _ all).trans hnames⟩
    · rintro ⟨all, hall, hfields, hnames⟩
      obtain ⟨value, rest'', others, hvalue', -, hothers, rfl⟩ :=
        (Json.readMembers_key_eq_ok_iff hnext).1 hall
      obtain ⟨rfl, rfl⟩ := Prod.mk.inj (Except.ok.inj (hvalue.symm.trans hvalue'))
      exact ⟨others, hothers, (fields_cons_self _ others).symm.trans hfields,
        (valuesAt_cons_self _ _ others).symm.trans hnames⟩
  | case7 first s rest met rest' hname hlt hnext =>
    have hvalue := (readColon_readKind_eq_ok_iff (depthLimit - 1)).1 hname
    constructor
    · intro h
      cases h
    · rintro ⟨all, hall, -⟩
      obtain ⟨value, rest'', others, hvalue', hlt', -⟩ := (Json.readMembers_key_eq_ok_iff hnext).1 hall
      obtain ⟨rfl, rfl⟩ := Prod.mk.inj (Except.ok.inj (hvalue.symm.trans hvalue'))
      exact absurd hlt' hlt
  | case8 met first s key rest hnext hkey e hread =>
    simp [Json.readMembers_key_eq_ok_iff hnext, hread]
  | case9 met first s key rest hnext hkey value rest' hread hlt ih =>
    simp only [map_eq_ok_iff, Json.readMembers_key_eq_ok_iff hnext, hread]
    constructor
    · rintro ⟨⟨kind', members', behind'⟩, htagged, h⟩
      cases h
      obtain ⟨all, hall, rfl, hnames⟩ := ih.1 htagged
      exact ⟨_, ⟨value, rest', all, rfl, hlt, hall, rfl⟩, fields_cons_of_ne hkey value all,
        (names_cons_of_ne hkey met value all).trans hnames⟩
    · rintro ⟨_, ⟨value', rest'', all, h, -, hall, rfl⟩, rfl, hnames⟩
      cases h
      rw [names_cons_of_ne hkey] at hnames
      refine ⟨(kind, fields all, behind), ih.2 ⟨all, hall, rfl, hnames⟩, ?_⟩
      rw [fields_cons_of_ne hkey]
  | case10 met first s key rest hnext hkey value rest' hread hlt =>
    simp [Json.readMembers_key_eq_ok_iff hnext, hread, hlt]

/-! ## Reading a request -/

theorem ne_kindKey_of_mem_keys {key : Text} (h : key ∈ kind.keys) : key ≠ kindKey := by
  revert h key
  cases kind <;> decide

theorem underKeys_fields_iff :
    UnderKeys (fields members) request ↔ UnderKeys members request := by
  constructor
  · intro h
    exact h.of_perm fun key hkey => by rw [valuesAt_fields (ne_kindKey_of_mem_keys hkey)]
  · intro h
    exact h.of_perm fun key hkey => by rw [valuesAt_fields (ne_kindKey_of_mem_keys hkey)]

theorem readTagged_object (h : skipSpace s = '\x7b' :: rest) :
    readTagged s = (do
      let (kind, members, behind) ← readTaggedMembers none true rest
      return (⟨kind, .members members⟩, behind)) := by
  rw [readTagged, h]
  rfl

theorem readTagged_array (h : skipSpace s = '[' :: rest) :
    readTagged s =
      match nextItem true rest with
      | .error e => .error (.fault e)
      | .ok (.closed _) => .error (.mismatch (.missingField kindKey))
      | .ok (.item rest) => do
        let (kind, rest) ← readKind rest
        let (items, behind) ← liftFault (readItems (readValue (depthLimit - 1)) false rest)
        return (⟨kind, .items items⟩, behind) := by
  rw [readTagged, h]
  rfl

theorem readTagged_object_eq_ok_iff {tagged : Tagged} (h : skipSpace s = '\x7b' :: rest) :
    readTagged s = .ok (tagged, behind) ↔
      ∃ kind members, readTaggedMembers none true rest = .ok (kind, members, behind) ∧
        tagged = ⟨kind, .members members⟩ := by
  rw [readTagged_object h, bind_eq_ok_iff]
  constructor
  · rintro ⟨⟨kind, members, behind'⟩, hmembers, h⟩
    cases h
    exact ⟨kind, members, hmembers, rfl⟩
  · rintro ⟨kind, members, hmembers, rfl⟩
    exact ⟨_, hmembers, rfl⟩

theorem readTagged_array_eq_ok_iff {tagged : Tagged} (h : skipSpace s = '[' :: rest) :
    readTagged s = .ok (tagged, behind) ↔
      ∃ first kind rest' items, nextItem true rest = .ok (.item first) ∧
        readKind first = .ok (kind, rest') ∧
        readItems (readValue (depthLimit - 1)) false rest' = .ok (items, behind) ∧
        tagged = ⟨kind, .items items⟩ := by
  rw [readTagged_array h]
  cases nextItem true rest with
  | error e => simp
  | ok next =>
    cases next with
    | closed behind' => simp
    | item first =>
      dsimp only
      rw [bind_eq_ok_iff]
      constructor
      · rintro ⟨⟨kind, rest'⟩, hkind, h⟩
        obtain ⟨⟨items, behind'⟩, hitems, h⟩ := bind_eq_ok_iff.1 h
        cases h
        exact ⟨first, kind, rest', items, rfl, hkind, mapError_eq_ok_iff.1 hitems, rfl⟩
      · rintro ⟨_, kind, rest', items, hfirst, hkind, hitems, rfl⟩
        cases hfirst
        exact ⟨_, hkind, bind_eq_ok_iff.2 ⟨_, mapError_eq_ok_iff.2 hitems, rfl⟩⟩

/-- The requests that are made of an object are those that it represents. -/
theorem readTagged_object_iff (h : skipSpace s = '\x7b' :: rest) :
    (∃ tagged, readTagged s = .ok (tagged, behind) ∧ ofTagged tagged = .ok request) ↔
      ∃ value, readValue depthLimit s = .ok (value, behind) ∧ Represents value request := by
  constructor
  · rintro ⟨tagged, htagged, hof⟩
    obtain ⟨kind, members, hmembers, rfl⟩ := (readTagged_object_eq_ok_iff h).1 htagged
    obtain ⟨all, hall, rfl, hnames⟩ := readTaggedMembers_eq_ok_iff.1 hmembers
    obtain ⟨rfl, hfields⟩ := ofMembers_eq_ok_iff.1 hof
    exact ⟨.object all, (Json.readValue_object_eq_ok_iff h).2 ⟨_, all, rfl, hall, rfl⟩,
      .object hnames (underKeys_fields_iff.1 hfields)⟩
  · rintro ⟨value, hvalue, hrep⟩
    obtain ⟨d, all, hd, hall, rfl⟩ := (Json.readValue_object_eq_ok_iff h).1 hvalue
    obtain rfl : depthLimit - 1 = d := Nat.succ.inj hd
    obtain ⟨hnames, hfields⟩ := object_represents_iff.1 hrep
    have hmembers : readTaggedMembers none true rest = .ok (request.kind, fields all, behind) :=
      readTaggedMembers_eq_ok_iff.2 ⟨all, hall, rfl, hnames⟩
    exact ⟨_, (readTagged_object_eq_ok_iff h).2 ⟨_, _, hmembers, rfl⟩,
      ofMembers_eq_ok_iff.2 ⟨rfl, underKeys_fields_iff.2 hfields⟩⟩

/-- The requests that are made of an array are those that it represents. -/
theorem readTagged_array_iff (h : skipSpace s = '[' :: rest) :
    (∃ tagged, readTagged s = .ok (tagged, behind) ∧ ofTagged tagged = .ok request) ↔
      ∃ value, readValue depthLimit s = .ok (value, behind) ∧ Represents value request := by
  constructor
  · rintro ⟨tagged, htagged, hof⟩
    obtain ⟨first, kind, rest', items, hfirst, hkind, hitems, rfl⟩ :=
      (readTagged_array_eq_ok_iff h).1 htagged
    obtain ⟨rfl, horder⟩ := ofItems_eq_ok_iff.1 hof
    have hname := (readKind_eq_ok_iff (depthLimit - 1)).1 hkind
    have hlt : rest'.length < rest.length := by
      have hshorter := Json.length_lt_of_readValue hname
      obtain ⟨lead, rfl, -⟩ := Json.exists_lead_of_nextItem hfirst
      rw [List.length_append]
      omega
    have hall := (Json.readItems_item_eq_ok_iff hfirst).2 ⟨_, _, _, hname, hlt, hitems, rfl⟩
    exact ⟨_, (Json.readValue_array_eq_ok_iff h).2 ⟨_, _, rfl, hall, rfl⟩, .array horder⟩
  · rintro ⟨value, hvalue, hrep⟩
    obtain ⟨d, all, hd, hall, rfl⟩ := (Json.readValue_array_eq_ok_iff h).1 hvalue
    obtain rfl : depthLimit - 1 = d := Nat.succ.inj hd
    obtain ⟨items, rfl, horder⟩ := array_represents_iff.1 hrep
    obtain ⟨first, hfirst⟩ := Json.exists_nextItem_of_readItems hall
    obtain ⟨name, rest', others, hname, -, hitems, hcons⟩ :=
      (Json.readItems_item_eq_ok_iff hfirst).1 hall
    obtain ⟨rfl, rfl⟩ := List.cons.inj hcons
    have hkind := (readKind_eq_ok_iff (depthLimit - 1)).2 hname
    exact ⟨_, (readTagged_array_eq_ok_iff h).2 ⟨first, _, rest', _, hfirst, hkind, hitems, rfl⟩,
      ofItems_eq_ok_iff.2 ⟨rfl, horder⟩⟩

/-- A value that is neither an object nor an array is no request. -/
theorem readTagged_scalar_ne_ok {c : Char} {result : Tagged × Text} (h : skipSpace s = c :: rest)
    (ho : c ≠ '\x7b') (ha : c ≠ '[') : readTagged s ≠ .ok result := by
  intro hr
  rw [readTagged, h] at hr
  dsimp only at hr
  rw [if_neg ho, if_neg ha] at hr
  obtain ⟨_, -, hr⟩ := bind_eq_ok_iff.1 hr
  cases hr

/-- The requests that are made of a value are those that it represents. -/
theorem readTagged_ofTagged_iff :
    (∃ tagged, readTagged s = .ok (tagged, behind) ∧ ofTagged tagged = .ok request) ↔
      ∃ value, readValue depthLimit s = .ok (value, behind) ∧ Represents value request := by
  cases hskip : skipSpace s with
  | nil =>
    rw [readTagged, hskip, Json.readValue_nil hskip]
    simp
  | cons c rest =>
    by_cases hobject : c = '\x7b'
    · subst hobject
      exact readTagged_object_iff hskip
    · by_cases harray : c = '['
      · subst harray
        exact readTagged_array_iff hskip
      · constructor
        · rintro ⟨tagged, h, -⟩
          exact absurd h (readTagged_scalar_ne_ok hskip hobject harray)
        · rintro ⟨value, h, hrep⟩
          rw [Json.readValue_eq_readScalar hskip harray hobject] at h
          have hscalar := Json.isScalar_of_readScalar h
          cases hrep <;> cases hscalar

theorem parse_eq_ok_iff_tagged {text : Text} :
    parse text = .ok request ↔
      text.all isBlank = false ∧ ∃ tagged behind, readTagged text = .ok (tagged, behind) ∧
        ofTagged tagged = .ok request ∧ (skipSpace behind).isEmpty = true := by
  unfold parse
  cases text.all isBlank with
  | true => simp [bind, Except.bind, throw, throwThe, MonadExceptOf.throw]
  | false =>
    dsimp only
    rw [if_neg (by decide), bind_eq_ok_iff]
    constructor
    · rintro ⟨⟨tagged, behind⟩, htagged, h⟩
      obtain ⟨request', hof, h⟩ := bind_eq_ok_iff.1 h
      split_ifs at h with hbehind
      cases h
      exact ⟨rfl, tagged, behind, htagged, mapError_eq_ok_iff.1 hof, hbehind⟩
    · rintro ⟨-, tagged, behind, htagged, hof, hbehind⟩
      exact ⟨_, htagged, bind_eq_ok_iff.2 ⟨_, mapError_eq_ok_iff.2 hof, if_pos hbehind⟩⟩

/-- Reading a request is reading a value that represents it. -/
theorem parse_eq_ok_iff_read {text : Text} :
    parse text = .ok request ↔ ∃ value, Json.read text = .ok value ∧ Represents value request := by
  rw [parse_eq_ok_iff_tagged]
  constructor
  · rintro ⟨-, tagged, behind, htagged, hof, hbehind⟩
    obtain ⟨value, hvalue, hrep⟩ := readTagged_ofTagged_iff.1 ⟨tagged, htagged, hof⟩
    exact ⟨value, bind_eq_ok_iff.2 ⟨_, hvalue, if_pos hbehind⟩, hrep⟩
  · rintro ⟨value, h, hrep⟩
    obtain ⟨⟨value', behind⟩, hvalue, h⟩ := bind_eq_ok_iff.1 h
    dsimp only at h
    split_ifs at h with hbehind
    cases h
    obtain ⟨tagged, htagged, hof⟩ := readTagged_ofTagged_iff.2 ⟨value, hvalue, hrep⟩
    exact ⟨Json.all_isBlank_of_readValue hvalue, tagged, behind, htagged, hof, hbehind⟩

/-- A text is read as a request exactly if it is a document of a value that represents the request.
How the document is spelled does not matter, nor in which order the members of an object stand and
what is under other keys. The numerals that no document holds are those from 2^1024 on, where the
decision is off by the 2^50th part of the numeral at most. -/
theorem parse_eq_ok_iff_represents (request : Request) :
    (∀ text, parse text = .ok request ↔
      ∃ value, IsDocument text value ∧ Represents value request) ∧
    (∀ text text' value value', IsDocument text value → IsDocument text' value' →
      Alike request.kind value value' → (parse text = .ok request ↔ parse text' = .ok request)) ∧
    ∀ text numeral, NumeralWritten text numeral →
      (numeral.number? = none → 2 ^ 1024 ≤ numeral.magnitude * (1 + 1 / 2 ^ 50)) ∧
      (numeral.number? ≠ none → numeral.magnitude * (1 - 1 / 2 ^ 50) < 2 ^ 1024) := by
  have hparse : ∀ text, parse text = .ok request ↔
      ∃ value, IsDocument text value ∧ Represents value request := fun text => by
    simp only [parse_eq_ok_iff_read, Json.read_eq_ok_iff]
  have honce : ∀ {text value}, IsDocument text value →
      (parse text = .ok request ↔ Represents value request) := by
    intro text value hdoc
    rw [hparse]
    constructor
    · rintro ⟨value', hdoc', hrep⟩
      obtain rfl := hdoc.unique hdoc'
      exact hrep
    · exact fun hrep => ⟨value, hdoc, hrep⟩
  refine ⟨hparse, ?_, ?_⟩
  · intro text text' value value' hdoc hdoc' halike
    rw [honce hdoc, honce hdoc']
    exact ⟨halike.represents, halike.symm.represents⟩
  · intro text numeral h
    refine ⟨Json.Numeral.le_magnitude_of_number?_eq_none h, fun hn => ?_⟩
    obtain ⟨value, hvalue⟩ := Option.ne_none_iff_exists'.1 hn
    exact Json.Numeral.magnitude_lt_of_number?_eq_some h hvalue

/-- Members in another order, with other keys among them and with an escape in a string. -/
theorem parse_reordered :
    parse "\x7b\"op\":\"escape\",\"value\":\"/\"\x7d".toList = .ok (.escape ['/']) ∧
    parse "\x7b\"x\":[],\"value\":\"\\/\",\"x\":null, \"op\":\"escape\"\x7d".toList =
      .ok (.escape ['/']) := by
  have hdoc : IsDocument "\x7b\"op\":\"escape\",\"value\":\"/\"\x7d".toList
      (.object [(kindKey, .string "escape".toList), (valueKey, .string ['/'])]) :=
    Json.read_eq_ok_iff.1 (by cbv)
  have hdoc' : IsDocument
      "\x7b\"x\":[],\"value\":\"\\/\",\"x\":null, \"op\":\"escape\"\x7d".toList
      (.object [(['x'], .array []), (valueKey, .string ['/']), (['x'], .null),
        (kindKey, .string "escape".toList)]) :=
    Json.read_eq_ok_iff.1 (by cbv)
  have hrep : Represents (.object [(kindKey, .string "escape".toList), (valueKey, .string ['/'])])
      (.escape ['/']) := .object (by cbv) (.escape (by cbv))
  have hparse := ((parse_eq_ok_iff_represents _).1 _).2 ⟨_, hdoc, hrep⟩
  have halike : Alike (kind (.escape ['/']))
      (.object [(kindKey, .string "escape".toList), (valueKey, .string ['/'])])
      (.object [(['x'], .array []), (valueKey, .string ['/']), (['x'], .null),
        (kindKey, .string "escape".toList)]) := .objects (List.Perm.swap _ _ _)
  exact ⟨hparse, ((parse_eq_ok_iff_represents _).2.1 _ _ _ _ hdoc hdoc' halike).1 hparse⟩

end CommandWords.Request
