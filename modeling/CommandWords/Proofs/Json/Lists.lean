import CommandWords.Proofs.Json.Scalars

/-!
# Reading arrays and objects

`readItems` and `readMembers` take what stands between brackets (`readItems_eq_ok_iff`,
`readMembers_eq_ok_iff`). Both are proved of any reader of values that takes what a relation
describes (`Reads`), so that nothing here depends on how deep the values are.
-/

namespace CommandWords.Json

variable {s rest text behind spaces : Text} {c : Char} {first : Bool}

theorem Lead.append {lead : Text} (h : Lead first lead) (hs : IsSpaces spaces) :
    Lead first (lead ++ spaces) := by
  cases h with
  | first h => exact .first (h.append hs)
  | comma hb ha => simpa using Lead.comma hb (ha.append hs)

/-- What follows an element of a list does not continue a numeral. -/
theorem Listed.endsNumber {α : Type} {W : Text → α → Prop} {xs : List α}
    (h : Listed W false text xs) (hr : EndsNumber rest) : EndsNumber (text ++ rest) := by
  cases h with
  | nil h => exact hr.spaces_append h
  | cons hl =>
    cases hl with
    | comma hb =>
      have hcomma : ∀ t, EndsNumber (',' :: t) := fun t c hc => by
        obtain rfl : ',' = c := by simpa using hc
        decide
      simpa using (hcomma _).spaces_append hb

theorem endsNumber_close {c : Char} (h : c = ']' ∨ c = '\x7d') (behind : Text) :
    EndsNumber (c :: behind) := by
  intro d hd
  obtain rfl : c = d := by simpa using hd
  rcases h with rfl | rfl <;> decide

/-- An element and then the others: the one result of reading a list from an element on. -/
theorem cons_eq_ok_iff {α β : Type} (found : Except Fault (α × Text)) (f : α → β) (size : Nat)
    (others : Text → Except Fault (List β × Text)) {xs : List β} :
    (found >>= fun p => if p.2.length < size then
        (others p.2).map fun r => (f p.1 :: r.1, r.2) else .error .malformed) = .ok (xs, behind) ↔
      ∃ x rest ys, found = .ok (x, rest) ∧ rest.length < size ∧ others rest = .ok (ys, behind) ∧
        f x :: ys = xs := by
  rw [bind_eq_ok_iff]
  constructor
  · rintro ⟨⟨x, rest⟩, hx, h⟩
    dsimp only at h
    split_ifs at h with hlt
    obtain ⟨⟨ys, behind'⟩, hys, h⟩ := map_eq_ok_iff.1 h
    cases h
    exact ⟨x, rest, ys, hx, hlt, hys, rfl⟩
  · rintro ⟨x, rest, ys, hx, hlt, hys, rfl⟩
    refine ⟨(x, rest), hx, ?_⟩
    dsimp only
    rw [if_pos hlt]
    exact map_eq_ok_iff.2 ⟨(ys, behind), hys, rfl⟩

/-- A reader of values that takes, behind white space, exactly the texts that `W` describes. -/
structure Reads (read : Text → Except Fault (Json × Text)) (W : Text → Json → Prop) : Prop where
  sound : ∀ {s value rest}, read s = .ok (value, rest) →
    ∃ spaces text, s = spaces ++ text ++ rest ∧ IsSpaces spaces ∧ W text value
  complete : ∀ {spaces text value rest}, IsSpaces spaces → W text value → EndsNumber rest →
    read (spaces ++ text ++ rest) = .ok (value, rest)
  head : ∀ {text value}, W text value → ∃ c cs, text = c :: cs ∧ isSpace c = false ∧ c ≠ ']'

/-! ## Arrays -/

theorem nextItem_eq_closed_iff :
    nextItem first s = .ok (.closed behind) ↔ ∃ spaces, s = spaces ++ ']' :: behind ∧ IsSpaces spaces := by
  constructor
  · intro h
    obtain ⟨spaces, hs, hspaces⟩ := exists_skipSpace s
    unfold nextItem at h
    split at h
    · cases h
    · rename_i c tail hskip
      rw [hskip] at hs
      split_ifs at h with hc hfirst hcomma
      · obtain rfl := NextItem.closed.inj (Except.ok.inj h)
        exact ⟨spaces, by rw [hs, hc], hspaces⟩
      · cases h
      · split at h
        · cases h
        · split_ifs at h
          cases h
  · rintro ⟨spaces, rfl, hspaces⟩
    rw [nextItem, skipSpace_append hspaces, skipSpace_cons (by decide)]
    exact if_pos rfl

theorem exists_lead_of_nextItem (h : nextItem first s = .ok (.item rest)) :
    ∃ lead, s = lead ++ rest ∧ Lead first lead := by
  obtain ⟨spaces, hs, hspaces⟩ := exists_skipSpace s
  unfold nextItem at h
  split at h
  · cases h
  · rename_i c tail hskip
    rw [hskip] at hs
    split_ifs at h with hc hfirst hcomma
    · cases h
    · obtain rfl := NextItem.item.inj (Except.ok.inj h)
      exact ⟨spaces, hs, hfirst ▸ .first hspaces⟩
    · obtain ⟨behind, htail, hbehind⟩ := exists_skipSpace tail
      split at h
      · cases h
      · rename_i d tail' hskip'
        rw [hskip'] at htail
        split_ifs at h
        obtain rfl := NextItem.item.inj (Except.ok.inj h)
        obtain rfl : first = false := by simpa using hfirst
        exact ⟨spaces ++ ',' :: behind, by rw [hs, hcomma, htail]; simp, .comma hspaces hbehind⟩

theorem nextItem_append {lead : Text} (h : Lead first lead) (hc : isSpace c = false) (hn : c ≠ ']')
    (s : Text) : nextItem first (lead ++ c :: s) = .ok (.item (c :: s)) := by
  cases h with
  | first hs => rw [nextItem, skipSpace_append hs, skipSpace_cons hc]; simp [hn]
  | @comma before between hb ha =>
    have htext : before ++ ',' :: between ++ c :: s = before ++ ',' :: (between ++ c :: s) := by simp
    rw [htext, nextItem, skipSpace_append hb, skipSpace_cons (by decide)]
    simp [skipSpace_append ha, skipSpace_cons hc, hn]

variable {read : Text → Except Fault (Json × Text)} {W : Text → Json → Prop}

/-- The items of an array from an item on. -/
theorem readItems_item_eq_ok_iff {items : List Json} (h : nextItem first s = .ok (.item rest)) :
    readItems read first s = .ok (items, behind) ↔
      ∃ item rest' others, read rest = .ok (item, rest') ∧ rest'.length < s.length ∧
        readItems read false rest' = .ok (others, behind) ∧ item :: others = items := by
  rw [← cons_eq_ok_iff (read rest) (fun item => item) s.length (readItems read false), readItems, h]
  dsimp only
  cases read rest <;> rfl

theorem exists_nextItem_of_readItems {item : Json} {items : List Json}
    (h : readItems read first s = .ok (item :: items, behind)) :
    ∃ rest, nextItem first s = .ok (.item rest) := by
  rw [readItems] at h
  cases hnext : nextItem first s with
  | error e =>
    rw [hnext] at h
    cases h
  | ok next =>
    cases next with
    | closed behind' =>
      rw [hnext] at h
      cases h
    | item rest => exact ⟨rest, rfl⟩

/-- The items of an array are read up to the bracket that closes it. -/
theorem readItems_eq_ok_iff (hr : Reads read W) {items : List Json} :
    readItems read first s = .ok (items, behind) ↔
      ∃ body, s = body ++ ']' :: behind ∧ Listed W first body items := by
  constructor
  · intro h
    fun_induction readItems read first s generalizing items with
    | case1 => cases h
    | case2 first s behind' hnext =>
      obtain ⟨rfl, rfl⟩ := Prod.mk.inj (Except.ok.inj h)
      obtain ⟨spaces, hs, hspaces⟩ := nextItem_eq_closed_iff.1 hnext
      exact ⟨spaces, hs, .nil hspaces⟩
    | case3 => cases h
    | case4 first s rest hnext item rest' hread hlt ih =>
      obtain ⟨⟨items', behind'⟩, hitems, h⟩ := map_eq_ok_iff.1 h
      obtain ⟨rfl, rfl⟩ := Prod.mk.inj h
      obtain ⟨lead, rfl, hlead⟩ := exists_lead_of_nextItem hnext
      obtain ⟨spaces, text, rfl, hspaces, htext⟩ := hr.sound hread
      obtain ⟨body, rfl, hbody⟩ := ih hitems
      exact ⟨lead ++ spaces ++ text ++ body, by simp, .cons (hlead.append hspaces) htext hbody⟩
    | case5 => cases h
  · rintro ⟨body, rfl, h⟩
    induction h with
    | nil hspaces =>
      rw [readItems, nextItem_eq_closed_iff.2 ⟨_, rfl, hspaces⟩]
    | @cons first lead text rest item items hl hw hlisted ih =>
      obtain ⟨c, cs, rfl, hspace, hc⟩ := hr.head hw
      have hread := hr.complete isSpaces_nil hw
        (hlisted.endsNumber (endsNumber_close (.inl rfl) behind))
      have htext : lead ++ c :: cs ++ rest ++ ']' :: behind =
          lead ++ c :: (cs ++ (rest ++ ']' :: behind)) := by simp
      rw [htext, readItems_item_eq_ok_iff (nextItem_append hl hspace hc _)]
      exact ⟨item, _, items, by simpa using hread, by simp; omega, ih, rfl⟩

/-! ## Objects -/

theorem nextKey_eq_closed_iff :
    nextKey first s = .ok (.closed behind) ↔
      ∃ spaces, s = spaces ++ '\x7d' :: behind ∧ IsSpaces spaces := by
  have hkey : ∀ t, readKey t ≠ .ok (.closed behind) := by
    intro t h
    cases t with
    | nil => cases h
    | cons c t =>
      rw [readKey] at h
      split_ifs at h
      obtain ⟨_, -, h⟩ := map_eq_ok_iff.1 h
      cases h
  constructor
  · intro h
    obtain ⟨spaces, hs, hspaces⟩ := exists_skipSpace s
    unfold nextKey at h
    split at h
    · cases h
    · rename_i c tail hskip
      rw [hskip] at hs
      split_ifs at h with hc hfirst hcomma
      · obtain rfl := NextKey.closed.inj (Except.ok.inj h)
        exact ⟨spaces, by rw [hs, hc], hspaces⟩
      · exact absurd h (hkey _)
      · exact absurd h (hkey _)
  · rintro ⟨spaces, rfl, hspaces⟩
    rw [nextKey, skipSpace_append hspaces, skipSpace_cons (by decide)]
    exact if_pos rfl

theorem readKey_eq_key_iff {key : Text} :
    readKey s = .ok (.key key rest) ↔ ∃ text, s = text ++ rest ∧ StringWritten text key := by
  constructor
  · intro h
    cases s with
    | nil => cases h
    | cons c s =>
      rw [readKey] at h
      split_ifs at h with hc
      obtain ⟨⟨chars, behind⟩, hread, h⟩ := map_eq_ok_iff.1 h
      obtain ⟨rfl, rfl⟩ := NextKey.key.inj h
      obtain ⟨body, rfl, hbody⟩ := readChars_eq_ok_iff.1 hread
      exact ⟨'"' :: (body ++ ['"']), by simp [hc], body, rfl, hbody⟩
  · rintro ⟨_, rfl, body, rfl, hbody⟩
    have hread : readChars (body ++ '"' :: rest) = .ok (key, rest) :=
      readChars_eq_ok_iff.2 ⟨body, rfl, hbody⟩
    have htext : '"' :: (body ++ ['"']) ++ rest = '"' :: (body ++ '"' :: rest) := by simp
    rw [htext, readKey, if_pos rfl, hread]
    rfl

/-- What comes next in an object is the key that stands there. -/
theorem nextKey_of_lead {lead : Text} (hl : Lead first lead) (hs : s.head? = some '"') :
    nextKey first (lead ++ s) = readKey s := by
  obtain ⟨cs, rfl⟩ : ∃ cs, s = '"' :: cs := by
    cases s with
    | nil => cases hs
    | cons c cs => exact ⟨cs, by rw [Option.some.inj hs]⟩
  have hskip := skipSpace_cons (by decide : isSpace '"' = false) cs
  cases hl with
  | first hs =>
    rw [nextKey, skipSpace_append hs, hskip]
    rfl
  | @comma before behind hb ha =>
    rw [List.append_assoc, List.cons_append, nextKey, skipSpace_append hb, skipSpace_cons (by decide)]
    dsimp only
    rw [if_neg (by decide), if_neg (by decide), if_pos rfl, skipSpace_append ha, hskip]

theorem nextKey_eq_key_iff {key : Text} :
    nextKey first s = .ok (.key key rest) ↔
      ∃ lead text, s = lead ++ text ++ rest ∧ Lead first lead ∧ StringWritten text key := by
  constructor
  · intro h
    obtain ⟨spaces, hs, hspaces⟩ := exists_skipSpace s
    unfold nextKey at h
    split at h
    · cases h
    · rename_i c tail hskip
      rw [hskip] at hs
      split_ifs at h with hc hfirst hcomma
      · cases h
      · obtain ⟨text, htext, hkey⟩ := readKey_eq_key_iff.1 h
        exact ⟨spaces, text, by rw [hs, htext, List.append_assoc], hfirst ▸ .first hspaces, hkey⟩
      · obtain ⟨behind, htail, hbehind⟩ := exists_skipSpace tail
        obtain ⟨text, htext, hkey⟩ := readKey_eq_key_iff.1 h
        obtain rfl : first = false := by simpa using hfirst
        exact ⟨spaces ++ ',' :: behind, text, by rw [hs, hcomma, htail, htext]; simp,
          .comma hspaces hbehind, hkey⟩
  · rintro ⟨lead, text, rfl, hl, hkey⟩
    have hquote : (text ++ rest).head? = some '"' := by
      obtain ⟨body, rfl, -⟩ := hkey
      rfl
    rw [List.append_assoc, nextKey_of_lead hl hquote]
    exact readKey_eq_key_iff.2 ⟨text, rfl, hkey⟩

theorem readColon_eq_ok_iff :
    readColon s = .ok rest ↔ ∃ spaces, s = spaces ++ ':' :: rest ∧ IsSpaces spaces := by
  constructor
  · intro h
    obtain ⟨spaces, hs, hspaces⟩ := exists_skipSpace s
    unfold readColon at h
    split at h
    · cases h
    · rename_i c tail hskip
      rw [hskip] at hs
      split_ifs at h with hc
      obtain rfl := Except.ok.inj h
      exact ⟨spaces, by rw [hs, hc], hspaces⟩
  · rintro ⟨spaces, rfl, hspaces⟩
    rw [readColon, skipSpace_append hspaces, skipSpace_cons (by decide)]
    exact if_pos rfl

/-- The members of an object from a key on. -/
theorem readMembers_key_eq_ok_iff {key : Text} {members : List (Text × Json)}
    (h : nextKey first s = .ok (.key key rest)) :
    readMembers read first s = .ok (members, behind) ↔
      ∃ value rest' others, readColon rest >>= read = .ok (value, rest') ∧
        rest'.length < s.length ∧ readMembers read false rest' = .ok (others, behind) ∧
        (key, value) :: others = members := by
  rw [← cons_eq_ok_iff (readColon rest >>= read) (fun value => (key, value)) s.length
    (readMembers read false), readMembers, h]
  dsimp only
  cases readColon rest >>= read <;> rfl

/-- The members of an object are read up to the brace that closes it. -/
theorem readMembers_eq_ok_iff (hr : Reads read W) {members : List (Text × Json)} :
    readMembers read first s = .ok (members, behind) ↔
      ∃ body, s = body ++ '\x7d' :: behind ∧ Listed (MemberWritten W) first body members := by
  constructor
  · intro h
    fun_induction readMembers read first s generalizing members with
    | case1 => cases h
    | case2 first s behind' hnext =>
      obtain ⟨rfl, rfl⟩ := Prod.mk.inj (Except.ok.inj h)
      obtain ⟨spaces, hs, hspaces⟩ := nextKey_eq_closed_iff.1 hnext
      exact ⟨spaces, hs, .nil hspaces⟩
    | case3 => cases h
    | case4 first s key rest hnext value rest' hread hlt ih =>
      obtain ⟨⟨members', behind'⟩, hmembers, h⟩ := map_eq_ok_iff.1 h
      obtain ⟨rfl, rfl⟩ := Prod.mk.inj h
      obtain ⟨lead, ktext, rfl, hlead, hkey⟩ := nextKey_eq_key_iff.1 hnext
      obtain ⟨colon, hcolon, hvalue⟩ := bind_eq_ok_iff.1 hread
      obtain ⟨before, rfl, hbefore⟩ := readColon_eq_ok_iff.1 hcolon
      obtain ⟨spaces, text, rfl, hspaces, htext⟩ := hr.sound hvalue
      obtain ⟨body, rfl, hbody⟩ := ih hmembers
      have hmember : MemberWritten W (ktext ++ before ++ ':' :: (spaces ++ text)) (key, value) :=
        ⟨ktext, before, spaces, text, rfl, hkey, hbefore, hspaces, htext⟩
      exact ⟨lead ++ (ktext ++ before ++ ':' :: (spaces ++ text)) ++ body, by simp,
        .cons hlead hmember hbody⟩
    | case5 => cases h
  · rintro ⟨body, rfl, h⟩
    induction h with
    | nil hspaces =>
      rw [readMembers, nextKey_eq_closed_iff.2 ⟨_, rfl, hspaces⟩]
    | @cons first lead text rest member members hl hw hlisted ih =>
      obtain ⟨ktext, before, spaces, vtext, rfl, hkey, hbefore, hspaces, hvalue⟩ := hw
      have hread := hr.complete hspaces hvalue
        (hlisted.endsNumber (endsNumber_close (.inr rfl) behind))
      have htext : lead ++ (ktext ++ before ++ ':' :: (spaces ++ vtext)) ++ rest ++ '\x7d' :: behind =
          lead ++ ktext ++
            (before ++ ':' :: (spaces ++ vtext ++ (rest ++ '\x7d' :: behind))) := by simp
      have hmember : readColon (before ++ ':' :: (spaces ++ vtext ++ (rest ++ '\x7d' :: behind))) >>=
          read = .ok (member.2, rest ++ '\x7d' :: behind) :=
        bind_eq_ok_iff.2 ⟨_, readColon_eq_ok_iff.2 ⟨before, rfl, hbefore⟩, hread⟩
      rw [htext, readMembers_key_eq_ok_iff (nextKey_eq_key_iff.2 ⟨lead, ktext, rfl, hl, hkey⟩)]
      exact ⟨member.2, _, members, hmember, by simp; omega, ih, rfl⟩

end CommandWords.Json
