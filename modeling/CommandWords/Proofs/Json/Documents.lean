import CommandWords.Proofs.Json.Lists

/-!
# Reading documents

The reader of values takes exactly the values of the grammar (`reads_readValue`), by induction on
the number of brackets that may be open. A text is read as a value exactly if it is a document of it
(`read_eq_ok_iff`), of one value only (`IsDocument.unique`).
-/

namespace CommandWords.Json

variable {s rest text behind : Text} {c : Char} {depth : Nat} {value : Json}

theorem readValue_array (h : skipSpace s = '[' :: rest) (depth : Nat) :
    readValue (depth + 1) s =
      (readItems (readValue depth) true rest).map fun (items, behind) => (.array items, behind) := by
  rw [readValue.eq_def, h]
  rfl

theorem readValue_object (h : skipSpace s = '\x7b' :: rest) (depth : Nat) :
    readValue (depth + 1) s =
      (readMembers (readValue depth) true rest).map fun (members, behind) =>
        (.object members, behind) := by
  rw [readValue.eq_def, h]
  rfl

theorem readValue_array_eq_ok_iff (h : skipSpace s = '[' :: rest) :
    readValue depth s = .ok (value, behind) ↔ ∃ d items, depth = d + 1 ∧
      readItems (readValue d) true rest = .ok (items, behind) ∧ value = .array items := by
  cases depth with
  | zero =>
    rw [readValue.eq_def, h]
    simp
  | succ d =>
    rw [readValue_array h, map_eq_ok_iff]
    constructor
    · rintro ⟨⟨items, behind'⟩, hitems, h⟩
      cases h
      exact ⟨d, items, rfl, hitems, rfl⟩
    · rintro ⟨_, items, hd, hitems, rfl⟩
      cases hd
      exact ⟨(items, behind), hitems, rfl⟩

theorem readValue_object_eq_ok_iff (h : skipSpace s = '\x7b' :: rest) :
    readValue depth s = .ok (value, behind) ↔ ∃ d members, depth = d + 1 ∧
      readMembers (readValue d) true rest = .ok (members, behind) ∧ value = .object members := by
  cases depth with
  | zero =>
    rw [readValue.eq_def, h]
    simp
  | succ d =>
    rw [readValue_object h, map_eq_ok_iff]
    constructor
    · rintro ⟨⟨members, behind'⟩, hmembers, h⟩
      cases h
      exact ⟨d, members, rfl, hmembers, rfl⟩
    · rintro ⟨_, members, hd, hmembers, rfl⟩
      cases hd
      exact ⟨(members, behind), hmembers, rfl⟩

theorem readValue_eq_readScalar (h : skipSpace s = c :: rest) (ha : c ≠ '[') (ho : c ≠ '\x7b') :
    readValue depth s = readScalar (c :: rest) := by
  rw [readValue.eq_def, h]
  dsimp only
  rw [if_neg ha, if_neg ho]

theorem readValue_nil (h : skipSpace s = []) : readValue depth s = .error .truncated := by
  rw [readValue.eq_def, h]

/-- A reader of values takes what its grammar describes if the readers with fewer brackets do. -/
theorem reads_readValue_of_lt (ih : ∀ d, depth = d + 1 → Reads (readValue d) (Written d)) :
    Reads (readValue depth) (Written depth) where
  sound {s value rest} h := by
    obtain ⟨spaces, hs, hspaces⟩ := exists_skipSpace s
    cases hskip : skipSpace s with
    | nil =>
      rw [readValue_nil hskip] at h
      cases h
    | cons c tail =>
      rw [hskip] at hs
      by_cases harray : c = '['
      · subst harray
        obtain ⟨d, items, rfl, hitems, rfl⟩ := (readValue_array_eq_ok_iff hskip).1 h
        obtain ⟨body, rfl, hbody⟩ := (readItems_eq_ok_iff (ih d rfl)).1 hitems
        exact ⟨spaces, '[' :: (body ++ [']']), by simp [hs], hspaces,
          by rw [Written]; exact ⟨body, rfl, hbody⟩⟩
      · by_cases hobject : c = '\x7b'
        · subst hobject
          obtain ⟨d, members, rfl, hmembers, rfl⟩ := (readValue_object_eq_ok_iff hskip).1 h
          obtain ⟨body, rfl, hbody⟩ := (readMembers_eq_ok_iff (ih d rfl)).1 hmembers
          exact ⟨spaces, '\x7b' :: (body ++ ['\x7d']), by simp [hs], hspaces,
            by rw [Written]; exact ⟨body, rfl, hbody⟩⟩
        · rw [readValue_eq_readScalar hskip harray hobject] at h
          obtain ⟨text, htext, hwritten⟩ := written_of_readScalar h
          exact ⟨spaces, text, by rw [hs, htext, List.append_assoc], hspaces, hwritten⟩
  complete {spaces text value rest} hspaces h hrest := by
    obtain ⟨c, cs, rfl, hblank, -, hscalar⟩ := h.exists_cons
    have hskip : skipSpace (spaces ++ c :: cs ++ rest) = c :: (cs ++ rest) := by
      rw [List.append_assoc, skipSpace_append hspaces, List.cons_append,
        skipSpace_cons (isSpace_of_isBlank_eq_false hblank)]
    by_cases hv : isScalar value = true
    · obtain ⟨harray, hobject⟩ := hscalar hv
      rw [readValue_eq_readScalar hskip harray hobject]
      exact readScalar_append h hv hrest
    · cases value with
      | array items =>
        cases depth with
        | zero => rw [Written] at h; cases h
        | succ d =>
          rw [Written] at h
          obtain ⟨body, htext, hbody⟩ := h
          obtain ⟨rfl, rfl⟩ := List.cons.inj htext
          refine (readValue_array_eq_ok_iff hskip).2 ⟨d, items, rfl, ?_, rfl⟩
          exact (readItems_eq_ok_iff (ih d rfl)).2 ⟨body, by simp, hbody⟩
      | object members =>
        cases depth with
        | zero => rw [Written] at h; cases h
        | succ d =>
          rw [Written] at h
          obtain ⟨body, htext, hbody⟩ := h
          obtain ⟨rfl, rfl⟩ := List.cons.inj htext
          refine (readValue_object_eq_ok_iff hskip).2 ⟨d, members, rfl, ?_, rfl⟩
          exact (readMembers_eq_ok_iff (ih d rfl)).2 ⟨body, by simp, hbody⟩
      | null | bool | number | string => exact absurd rfl hv
  head {text value} h := by
    obtain ⟨c, cs, rfl, hblank, hc, -⟩ := h.exists_cons
    exact ⟨c, cs, rfl, isSpace_of_isBlank_eq_false hblank, hc⟩

/-- The reader of values takes exactly the values of the grammar. -/
theorem reads_readValue (depth : Nat) : Reads (readValue depth) (Written depth) := by
  induction depth with
  | zero => exact reads_readValue_of_lt fun _ h => nomatch h
  | succ d ih => exact reads_readValue_of_lt fun k h => Nat.succ.inj h ▸ ih

/-- What is behind a value is shorter than the text that the value is read from. -/
theorem length_lt_of_readValue (h : readValue depth s = .ok (value, rest)) :
    rest.length < s.length := by
  obtain ⟨spaces, text, rfl, -, htext⟩ := (reads_readValue depth).sound h
  obtain ⟨c, cs, rfl, -⟩ := htext.exists_cons
  simp only [List.length_append, List.length_cons]
  omega

/-- A text from which a value can be read is not blank. -/
theorem all_isBlank_of_readValue (h : readValue depth s = .ok (value, rest)) :
    s.all isBlank = false := by
  obtain ⟨spaces, text, rfl, -, htext⟩ := (reads_readValue depth).sound h
  obtain ⟨c, cs, rfl, hc, -⟩ := htext.exists_cons
  simp [hc]

/-- A text is read as a value exactly if it is a document of it. -/
theorem read_eq_ok_iff : Json.read s = .ok value ↔ IsDocument s value := by
  constructor
  · intro h
    obtain ⟨⟨value, behind⟩, hread, h⟩ := bind_eq_ok_iff.1 h
    dsimp only at h
    split_ifs at h with hbehind
    obtain rfl := Except.ok.inj h
    obtain ⟨spaces, text, rfl, hspaces, htext⟩ := (reads_readValue _).sound hread
    exact ⟨spaces, text, behind, rfl, hspaces, htext,
      skipSpace_eq_nil_iff.1 (List.isEmpty_iff.1 hbehind)⟩
  · rintro ⟨before, body, behind, rfl, hbefore, hbody, hbehind⟩
    have hend : EndsNumber behind := by
      have hnil : EndsNumber [] := fun _ hc => nomatch hc
      simpa using hnil.spaces_append hbehind
    refine bind_eq_ok_iff.2 ⟨_, (reads_readValue _).complete hbefore hbody hend, ?_⟩
    dsimp only
    rw [skipSpace_eq_nil_iff.2 hbehind]
    rfl

/-- A text is a document of one value at most. -/
theorem IsDocument.unique {other : Json} (h : IsDocument text value) (h' : IsDocument text other) :
    value = other :=
  Except.ok.inj ((read_eq_ok_iff.2 h).symm.trans (read_eq_ok_iff.2 h'))

end CommandWords.Json
