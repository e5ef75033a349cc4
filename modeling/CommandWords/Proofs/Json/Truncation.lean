import CommandWords.Proofs.Json.Scalars

/-!
# Strings and words that end too early

A text is cut (`IsCut`) if something is missing at its end. The readers of units, escapes, strings
and words say of a cut text that it ends too early, wherever the cut is: between the four digits of
a unit, between the halves of a character, behind a backslash (`readChars_of_isCut`,
`readWord_of_isCut`).
-/

namespace CommandWords

variable {p s t : Text} {c : Char}

/-- A text that is cut: the head of another text, of which something is missing. -/
def IsCut (p s : Text) : Prop := ∃ c missing, s = p ++ c :: missing

theorem not_isCut_nil : ¬ IsCut p [] := by
  rintro ⟨c, missing, h⟩
  simp at h

theorem isCut_cons_iff : IsCut p (c :: s) ↔ p = [] ∨ ∃ p', p = c :: p' ∧ IsCut p' s := by
  constructor
  · rintro ⟨d, missing, h⟩
    cases p with
    | nil => exact .inl rfl
    | cons e p =>
      obtain ⟨rfl, hs⟩ := List.cons.inj h
      exact .inr ⟨p, rfl, d, missing, hs⟩
  · rintro (rfl | ⟨p', rfl, d, missing, rfl⟩)
    · exact ⟨c, s, rfl⟩
    · exact ⟨d, missing, rfl⟩

theorem isCut_cons_cons_iff {d : Char} : IsCut (c :: p) (d :: s) ↔ c = d ∧ IsCut p s := by
  simp [isCut_cons_iff, and_assoc]

theorem isCut_singleton_iff : IsCut p [c] ↔ p = [] := by
  simp [isCut_cons_iff, not_isCut_nil]

/-- A cut goes through the first part or behind it. -/
theorem isCut_append_iff : IsCut p (s ++ t) ↔ IsCut p s ∨ ∃ p', p = s ++ p' ∧ IsCut p' t := by
  induction s generalizing p with
  | nil => simp [not_isCut_nil]
  | cons c s ih =>
    rw [List.cons_append, isCut_cons_iff, isCut_cons_iff]
    constructor
    · rintro (rfl | ⟨p', rfl, hp⟩)
      · exact .inl (.inl rfl)
      · rcases ih.1 hp with hs | ⟨p'', rfl, ht⟩
        · exact .inl (.inr ⟨p', rfl, hs⟩)
        · exact .inr ⟨p'', rfl, ht⟩
    · rintro ((rfl | ⟨p', rfl, hp⟩) | ⟨p', rfl, hp⟩)
      · exact .inl rfl
      · exact .inr ⟨p', rfl, ih.2 (.inl hp)⟩
      · exact .inr ⟨s ++ p', rfl, ih.2 (.inr ⟨p', rfl, hp⟩)⟩

theorem IsCut.subset (h : IsCut p s) : p ⊆ s := by
  obtain ⟨c, missing, rfl⟩ := h
  exact List.subset_append_left p _

theorem IsCut.mem_head? (h : IsCut p s) (hc : c ∈ p.head?) : c ∈ s.head? := by
  obtain ⟨d, missing, rfl⟩ := h
  cases p with
  | nil => cases hc
  | cons e p => exact hc

theorem IsCut.byteSize_lt (h : IsCut p s) : p.byteSize < s.byteSize := by
  obtain ⟨c, missing, rfl⟩ := h
  have := c.utf8Size_pos
  rw [Text.byteSize_append, Text.byteSize_cons]
  omega

namespace Json

variable {text body chars : Text} {u : Nat}

/-! ## Strings -/

/-- A hexadecimal digit is a single byte. -/
theorem utf8Size_of_hexValue? {n : Nat} (h : hexValue? c = some n) : c.utf8Size = 1 := by
  have hle : ∀ d : Char, c ≤ d → d.val ≤ 127 → c.val ≤ 127 := fun d hd => UInt32.le_trans hd
  rw [Char.utf8Size_eq_one_iff]
  unfold hexValue? at h
  split_ifs at h with hd hl hu
  · exact hle '9' hd.2 (by decide)
  · exact hle 'f' hl.2 (by decide)
  · exact hle 'F' hu.2 (by decide)

theorem UnitWritten.byteSize (h : UnitWritten text u) : text.byteSize = 4 := by
  obtain ⟨ha, hb, hc, hd⟩ := h
  simp [utf8Size_of_hexValue? ha, utf8Size_of_hexValue? hb, utf8Size_of_hexValue? hc,
    utf8Size_of_hexValue? hd]

theorem readUnit_of_isCut (h : UnitWritten text u) (hp : IsCut p text) :
    readUnit p = .error .truncated := by
  have hlt := hp.byteSize_lt
  rw [h.byteSize] at hlt
  unfold readUnit
  exact if_pos hlt

theorem readUnicode_of_readUnit (h : readUnit p = .error .truncated) :
    readUnicode p = .error .truncated := by
  rw [readUnicode, h]
  rfl

/-- The second half of a character is missing, or part of it. -/
theorem readUnicode_of_isCut_pair {first second : Text} {high low : Nat}
    (hc : units c = [high, low]) (hh : UnitWritten first high) (hl : UnitWritten second low)
    (hp : IsCut p ('\\' :: 'u' :: second)) : readUnicode (first ++ p) = .error .truncated := by
  have hfirst : readUnit (first ++ p) = .ok (high, p) := readUnit_eq_ok_iff.2 ⟨first, rfl, hh⟩
  obtain ⟨-, hhigh, -⟩ := units_eq_pair_iff.1 hc
  have hlow : ¬ (0xDC00 ≤ high ∧ high ≤ 0xDFFF) := by omega
  simp only [readUnicode, hfirst, bind, Except.bind, if_neg hlow, if_pos hhigh]
  rcases isCut_cons_iff.1 hp with rfl | ⟨p₁, rfl, hp₁⟩
  · rfl
  · rcases isCut_cons_iff.1 hp₁ with rfl | ⟨p₂, rfl, hp₂⟩
    · rfl
    · simp [readUnit_of_isCut hl hp₂]

theorem readEscape_of_isCut (h : EscapeWritten text c) (hp : IsCut p text) :
    readEscape p = .error .truncated := by
  have hunicode : ∀ s, readEscape ('u' :: s) = readUnicode s := fun s => rfl
  cases h with
  | short h =>
    obtain rfl := isCut_singleton_iff.1 hp
    rfl
  | unit hc hu =>
    rcases isCut_cons_iff.1 hp with rfl | ⟨p', rfl, hp'⟩
    · rfl
    · rw [hunicode, readUnicode_of_readUnit (readUnit_of_isCut hu hp')]
  | @pair _ first second high low hc hh hl =>
    rcases isCut_cons_iff.1 hp with rfl | ⟨p', rfl, hp'⟩
    · rfl
    · rw [hunicode]
      rcases isCut_append_iff.1 hp' with hfirst | ⟨p'', rfl, hsecond⟩
      · exact readUnicode_of_readUnit (readUnit_of_isCut hh hfirst)
      · exact readUnicode_of_isCut_pair hc hh hl hsecond

theorem readChars_of_isCut_char (h : CharWritten text c) (hp : IsCut p text) :
    readChars p = .error .truncated := by
  cases h with
  | plain =>
    obtain rfl := isCut_singleton_iff.1 hp
    rw [readChars]
  | escaped h =>
    rcases isCut_cons_iff.1 hp with rfl | ⟨p', rfl, hp'⟩
    · rw [readChars]
    · have hescape := readEscape_of_isCut h hp'
      rw [readChars, if_neg (by decide), if_pos rfl]
      split
      · rename_i he
        obtain rfl := Except.error.inj (he.symm.trans hescape)
        rfl
      · rename_i he
        cases he.symm.trans hescape

/-- A string of which at least the closing quote is missing ends too early. -/
theorem readChars_of_isCut (h : CharsWritten body chars) (hp : IsCut p (body ++ ['"'])) :
    readChars p = .error .truncated := by
  induction h generalizing p with
  | nil =>
    obtain rfl := isCut_singleton_iff.1 hp
    rw [readChars]
  | cons h _ ih =>
    rw [List.append_assoc] at hp
    rcases isCut_append_iff.1 hp with hchar | ⟨p', rfl, hrest⟩
    · exact readChars_of_isCut_char h hchar
    · rw [readChars_append h, ih hrest]
      rfl

/-! ## Words -/

theorem readWord_of_isCut {word : Text} (h : IsCut p word) : readWord word p = .error .truncated := by
  induction word generalizing p with
  | nil => exact absurd h not_isCut_nil
  | cons c word ih =>
    rcases isCut_cons_iff.1 h with rfl | ⟨p', rfl, hp⟩
    · rfl
    · rw [readWord, if_pos rfl, ih hp]

end Json

end CommandWords
