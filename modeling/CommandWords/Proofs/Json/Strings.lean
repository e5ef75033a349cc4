import CommandWords.Proofs.Json.Grammar
import Mathlib.Tactic.SplitIfs

/-!
# Reading strings

The reader of strings takes exactly the strings of the grammar, in which a character by number is
written as its UTF-16 units: `readUnit_eq_ok_iff` for a unit, `readUnicode_eq_ok_iff` for one unit
or two, `readEscape_eq_ok_iff` for what stands behind a backslash, and `readChars_eq_ok_iff` for the
characters up to the closing quote.
-/

namespace CommandWords

variable {ε ε' α β : Type}

theorem bind_eq_ok_iff {x : Except ε α} {f : α → Except ε β} {b : β} :
    x >>= f = .ok b ↔ ∃ a, x = .ok a ∧ f a = .ok b := by
  cases x <;> simp [bind, Except.bind]

theorem map_eq_ok_iff {x : Except ε α} {f : α → β} {b : β} :
    x.map f = .ok b ↔ ∃ a, x = .ok a ∧ f a = b := by
  cases x <;> simp [Except.map]

theorem mapError_eq_ok_iff {x : Except ε α} {f : ε → ε'} {a : α} :
    x.mapError f = .ok a ↔ x = .ok a := by
  cases x <;> simp [Except.mapError]

theorem toNat_of_isDigit {c : Char} (h : c.isDigit = true) : 48 ≤ c.toNat ∧ c.toNat ≤ 57 := by
  obtain ⟨hlow, hhigh⟩ := Bool.and_eq_true_iff.1 h
  exact ⟨UInt32.le_iff_toNat_le.1 (of_decide_eq_true hlow),
    UInt32.le_iff_toNat_le.1 (of_decide_eq_true hhigh)⟩

theorem hexValue?_lt {c : Char} {n : Nat} (h : hexValue? c = some n) : n < 16 := by
  have hle : ∀ d : Char, c ≤ d → c.toNat ≤ d.toNat := fun d hd => UInt32.le_iff_toNat_le.1 hd
  have hzero : '0'.toNat = 48 ∧ '9'.toNat = 57 := ⟨rfl, rfl⟩
  have hlower : 'a'.toNat = 97 ∧ 'f'.toNat = 102 := ⟨rfl, rfl⟩
  have hupper : 'A'.toNat = 65 ∧ 'F'.toNat = 70 := ⟨rfl, rfl⟩
  unfold hexValue? at h
  split_ifs at h with hd hl hu
  · have := hle '9' hd.2
    have := Option.some.inj h
    omega
  · have := hle 'f' hl.2
    have := Option.some.inj h
    omega
  · have := hle 'F' hu.2
    have := Option.some.inj h
    omega

namespace Json

variable {s rest text : Text} {c d : Char} {u : Nat}

/-! ## Units -/

theorem UnitWritten.lt (h : UnitWritten text u) : u < 0x10000 := by
  obtain ⟨ha, hb, hc, hd⟩ := h
  have := hexValue?_lt ha
  have := hexValue?_lt hb
  have := hexValue?_lt hc
  have := hexValue?_lt hd
  omega

theorem readUnit_eq_ok_iff :
    readUnit s = .ok (u, rest) ↔ ∃ text, s = text ++ rest ∧ UnitWritten text u := by
  constructor
  · intro h
    unfold readUnit at h
    split at h
    · cases h
    · split at h
      · split at h
        · rename_i ha hb hc hd
          obtain ⟨rfl, rfl⟩ := Prod.mk.inj (Except.ok.inj h)
          exact ⟨_, rfl, .digits ha hb hc hd⟩
        · cases h
      · cases h
  · rintro ⟨_, rfl, @⟨a, b, c, d, _, _, _, _, ha, hb, hc, hd⟩⟩
    have hsize := Text.length_le_byteSize (a :: b :: c :: d :: rest)
    simp only [List.length_cons] at hsize
    show readUnit (a :: b :: c :: d :: rest) = _
    rw [readUnit, if_neg (by omega)]
    simp only [ha, hb, hc, hd]

/-! ## Characters by number -/

theorem toNat_ofNat {n : Nat} (h : n.isValidChar) : (Char.ofNat n).toNat = n := by
  rw [Char.ofNat, dif_pos h]
  rfl

/-- A unit alone is a character unless it is half of one. -/
theorem units_eq_singleton_iff :
    units c = [u] ↔ c = Char.ofNat u ∧ u < 0x10000 ∧ ¬ (0xD800 ≤ u ∧ u ≤ 0xDFFF) := by
  have hvalid : c.toNat < 0xD800 ∨ 0xDFFF < c.toNat ∧ c.toNat < 0x110000 := c.valid
  unfold units
  constructor
  · intro h
    split_ifs at h with hlt
    · obtain rfl : c.toNat = u := by simpa using h
      exact ⟨(Char.ofNat_toNat c).symm, hlt, by omega⟩
    · cases h
  · rintro ⟨hc, hlt, hhalf⟩
    have hn : c.toNat = u := by
      rw [hc, toNat_ofNat]
      unfold Nat.isValidChar
      omega
    rw [hn, if_pos hlt]

/-- Two units are a character if they are its halves, the first from D800 and the second from DC00
on. -/
theorem units_eq_pair_iff {high low : Nat} :
    units c = [high, low] ↔
      c = Char.ofNat (0x10000 + (high - 0xD800) * 0x400 + (low - 0xDC00)) ∧
        (0xD800 ≤ high ∧ high ≤ 0xDBFF) ∧ 0xDC00 ≤ low ∧ low ≤ 0xDFFF := by
  have hvalid : c.toNat < 0xD800 ∨ 0xDFFF < c.toNat ∧ c.toNat < 0x110000 := c.valid
  unfold units
  constructor
  · intro h
    split_ifs at h with hlt
    · cases h
    · simp only [List.cons.injEq, and_true] at h
      obtain ⟨hh, hl⟩ := h
      have hn : 0x10000 + (high - 0xD800) * 0x400 + (low - 0xDC00) = c.toNat := by omega
      exact ⟨by rw [hn, Char.ofNat_toNat], by omega, by omega⟩
  · rintro ⟨hc, hh, hl⟩
    have hn : c.toNat = 0x10000 + (high - 0xD800) * 0x400 + (low - 0xDC00) := by
      rw [hc, toNat_ofNat]
      unfold Nat.isValidChar
      omega
    rw [if_neg (by omega)]
    simp only [List.cons.injEq, and_true]
    omega

/-- The text behind `\u` is read as the units of one character. -/
theorem readUnicode_eq_ok_iff :
    readUnicode s = .ok (c, rest) ↔
      (∃ text u, s = text ++ rest ∧ UnitWritten text u ∧ units c = [u]) ∨
        ∃ first second high low, s = first ++ '\\' :: 'u' :: (second ++ rest) ∧
          UnitWritten first high ∧ UnitWritten second low ∧ units c = [high, low] := by
  unfold readUnicode
  rw [bind_eq_ok_iff]
  constructor
  · rintro ⟨⟨high, behind⟩, hread, h⟩
    obtain ⟨first, rfl, hfirst⟩ := readUnit_eq_ok_iff.1 hread
    dsimp only at h
    by_cases hlow : 0xDC00 ≤ high ∧ high ≤ 0xDFFF
    · rw [if_pos hlow] at h
      cases h
    rw [if_neg hlow] at h
    by_cases hhigh : 0xD800 ≤ high ∧ high ≤ 0xDBFF
    · rw [if_pos hhigh] at h
      split at h
      · cases h
      rename_i e behind
      by_cases he : e = '\\'
      · rw [if_neg (not_not_intro he)] at h
        split at h
        · cases h
        rename_i f behind
        by_cases hf : f = 'u'
        · rw [if_neg (not_not_intro hf)] at h
          obtain ⟨⟨low, behind⟩, hread, hlast⟩ := bind_eq_ok_iff.1 h
          obtain ⟨second, rfl, hsecond⟩ := readUnit_eq_ok_iff.1 hread
          dsimp only at hlast
          by_cases hl : 0xDC00 ≤ low ∧ low ≤ 0xDFFF
          · rw [if_pos hl] at hlast
            obtain ⟨rfl, rfl⟩ := Prod.mk.inj (Except.ok.inj hlast)
            exact .inr ⟨first, second, high, low, by rw [he, hf], hfirst, hsecond,
              units_eq_pair_iff.2 ⟨rfl, hhigh, hl⟩⟩
          · rw [if_neg hl] at hlast
            cases hlast
        · rw [if_pos hf] at h
          cases h
      · rw [if_pos he] at h
        cases h
    · rw [if_neg hhigh] at h
      obtain ⟨rfl, rfl⟩ := Prod.mk.inj (Except.ok.inj h)
      exact .inl ⟨first, high, rfl, hfirst,
        units_eq_singleton_iff.2 ⟨rfl, hfirst.lt, by omega⟩⟩
  · rintro (⟨text, u, rfl, hu, hc⟩ | ⟨first, second, high, low, rfl, hfirst, hsecond, hc⟩)
    · obtain ⟨rfl, -, hhalf⟩ := units_eq_singleton_iff.1 hc
      refine ⟨(u, rest), readUnit_eq_ok_iff.2 ⟨text, rfl, hu⟩, ?_⟩
      dsimp only
      rw [if_neg (by omega), if_neg (by omega)]
      rfl
    · obtain ⟨hc, hhigh, hlow⟩ := units_eq_pair_iff.1 hc
      refine ⟨(high, _), readUnit_eq_ok_iff.2 ⟨first, rfl, hfirst⟩, ?_⟩
      have hread : readUnit (second ++ rest) = .ok (low, rest) :=
        readUnit_eq_ok_iff.2 ⟨second, rfl, hsecond⟩
      dsimp only
      rw [if_neg (by omega), if_pos hhigh, if_neg (not_not_intro rfl),
        if_neg (not_not_intro rfl), bind_eq_ok_iff]
      refine ⟨(low, rest), hread, ?_⟩
      rw [if_pos hlow, hc]
      rfl

/-! ## Escapes and characters -/

theorem shortEscape?_eq_some_iff : shortEscape? c = some d ↔ (c, d) ∈ shortEscapes := by
  simp only [shortEscape?, shortEscapes, List.mem_cons, Prod.mk.injEq, List.not_mem_nil, or_false]
  split_ifs <;> simp_all <;> grind

theorem readEscape_eq_ok_iff :
    readEscape s = .ok (c, rest) ↔ ∃ text, s = text ++ rest ∧ EscapeWritten text c := by
  have hnone : shortEscape? 'u' = none := by decide
  constructor
  · intro h
    cases s with
    | nil => cases h
    | cons e s =>
      rw [readEscape] at h
      split at h
      · rename_i hd
        obtain ⟨rfl, rfl⟩ := Prod.mk.inj (Except.ok.inj h)
        exact ⟨[e], rfl, .short (shortEscape?_eq_some_iff.1 hd)⟩
      · split_ifs at h with he
        rcases readUnicode_eq_ok_iff.1 h with
          ⟨text, u, rfl, hu, hc⟩ | ⟨first, second, high, low, rfl, hfirst, hsecond, hc⟩
        · exact ⟨'u' :: text, by rw [he]; rfl, .unit hc hu⟩
        · exact ⟨'u' :: first ++ '\\' :: 'u' :: second, by simp [he], .pair hc hfirst hsecond⟩
  · rintro ⟨text, rfl, h⟩
    cases h with
    | short h =>
      rw [List.singleton_append, readEscape, shortEscape?_eq_some_iff.2 h]
    | unit hc hu =>
      rw [List.cons_append, readEscape, hnone]
      exact readUnicode_eq_ok_iff.2 (.inl ⟨_, _, rfl, hu, hc⟩)
    | @pair _ first second high low hc hh hl =>
      have hs : first ++ '\\' :: 'u' :: second ++ rest =
          first ++ '\\' :: 'u' :: (second ++ rest) := by simp
      rw [List.cons_append, List.cons_append, readEscape, hnone, hs]
      exact readUnicode_eq_ok_iff.2 (.inr ⟨first, second, high, low, rfl, hh, hl, hc⟩)

/-- One character of a string is read, and then the others. -/
theorem readChars_append (h : CharWritten text c) (s : Text) :
    readChars (text ++ s) = (readChars s).map fun (chars, behind) => (c :: chars, behind) := by
  cases h with
  | plain hq hb hc =>
    rw [List.singleton_append, readChars, if_neg hq, if_neg hb, if_neg (by omega)]
  | @escaped text _ h =>
    have hread : readEscape (text ++ s) = .ok (c, s) := readEscape_eq_ok_iff.2 ⟨text, rfl, h⟩
    rw [List.cons_append, readChars, if_neg (by decide), if_pos rfl]
    split
    · rename_i he
      rw [hread] at he
      cases he
    · rename_i he
      rw [hread] at he
      obtain ⟨rfl, rfl⟩ := Prod.mk.inj (Except.ok.inj he)
      rfl

/-- The characters of a string are read up to its closing quote. -/
theorem readChars_eq_ok_iff {chars behind : Text} :
    readChars s = .ok (chars, behind) ↔
      ∃ body, s = body ++ '"' :: behind ∧ CharsWritten body chars := by
  constructor
  · intro h
    fun_induction readChars s generalizing chars with
    | case1 => cases h
    | case2 rest =>
      obtain ⟨rfl, rfl⟩ := Prod.mk.inj (Except.ok.inj h)
      exact ⟨[], rfl, .nil⟩
    | case3 => cases h
    | case4 s d rest' he _ ih =>
      obtain ⟨⟨cs, rest⟩, hread, hcs⟩ := map_eq_ok_iff.1 h
      obtain ⟨rfl, rfl⟩ := Prod.mk.inj hcs
      obtain ⟨text, rfl, hd⟩ := readEscape_eq_ok_iff.1 he
      obtain ⟨body, rfl, hbody⟩ := ih hread
      exact ⟨'\\' :: text ++ body, by simp, .cons (.escaped hd) hbody⟩
    | case5 => cases h
    | case6 c s hq hb hc ih =>
      obtain ⟨⟨cs, rest⟩, hread, hcs⟩ := map_eq_ok_iff.1 h
      obtain ⟨rfl, rfl⟩ := Prod.mk.inj hcs
      obtain ⟨body, rfl, hbody⟩ := ih hread
      exact ⟨[c] ++ body, rfl, .cons (.plain hq hb (by omega)) hbody⟩
  · rintro ⟨body, rfl, h⟩
    induction h with
    | nil =>
      rw [List.nil_append, readChars, if_pos rfl]
    | cons h _ ih =>
      rw [List.append_assoc, readChars_append h, ih]
      rfl

end Json

end CommandWords
