import CommandWords.Proofs.Json.Range
import CommandWords.Proofs.Json.Truncation

/-!
# Numbers that end too early

What is left of a number that is cut may be a number itself. It has lost digits of its whole part
or everything from some digit of its fraction on (`CutNumeral.digits`), or digits of its exponent
(`CutNumeral.exponent`); otherwise it ends too early (`readNumber_of_isCut`).

A number that is cut can be too large where the whole number is not, since a negative exponent may
be missing, but only if more than 300 digits stand before its point (`number?_ne_none_of_cut`).
-/

namespace CommandWords.Json

variable {p rest text digits : Text}

theorem EndsDigits.of_isCut (h : EndsDigits text) (hp : IsCut p text) : EndsDigits p :=
  fun c hc => h c (hp.mem_head? hc)

theorem EndsFraction.of_isCut (h : EndsFraction text) (hp : IsCut p text) : EndsFraction p :=
  fun c hc => h c (hp.mem_head? hc)

theorem endsNumber_nil : EndsNumber [] := fun _ hc => nomatch hc

/-! ## The parts of a numeral -/

theorem IsDigits.of_isCut (h : IsDigits digits) (hp : IsCut p digits) (hne : p ≠ []) : IsDigits p :=
  ⟨hne, fun c hc => h.2 c (hp.subset hc)⟩

theorem IsWhole.of_isCut (h : IsWhole digits) (hp : IsCut p digits) (hne : p ≠ []) : IsWhole p := by
  refine ⟨h.1.of_isCut hp hne, fun hzero => ?_⟩
  rw [h.2 (hp.mem_head? hzero), isCut_singleton_iff] at hp
  exact absurd hp hne

/-- Nothing is left of a fraction, or digits behind the point; a point alone ends too early. -/
theorem readFraction_of_isCut {fraction : Option Text} (h : FractionWritten text fraction)
    (hp : IsCut p text) :
    readFraction p = .error .truncated ∨ ∃ fraction', FractionWritten p fraction' := by
  cases h with
  | absent => exact absurd hp not_isCut_nil
  | present hd =>
    rcases isCut_cons_iff.1 hp with rfl | ⟨p', rfl, hp'⟩
    · exact .inr ⟨none, .absent⟩
    · by_cases hnil : p' = []
      · rw [hnil]
        exact .inl rfl
      · exact .inr ⟨some p', .present (hd.of_isCut hp' hnil)⟩

/-- Nothing is left of an exponent, or some of its digits; without digits it ends too early. -/
theorem readExponent_of_isCut {exponent : Option (Bool × Text)} (h : ExponentWritten text exponent)
    (hp : IsCut p text) :
    readExponent p = .error .truncated ∨ p = [] ∨
      ∃ negative digits digits', exponent = some (negative, digits) ∧ IsCut digits' digits ∧
        ExponentWritten p (some (negative, digits')) := by
  cases h with
  | absent => exact absurd hp not_isCut_nil
  | @present e sign digits negative he hs hd =>
    rcases isCut_cons_iff.1 hp with rfl | ⟨p', rfl, hp'⟩
    · exact .inr (.inl rfl)
    -- What is left behind the `e` is empty, the sign, or the sign and digits.
    have hsign : ∀ s, s = [] ∨ s = sign → readExponent (e :: s) = .error .truncated := by
      rintro s (rfl | rfl)
      · rw [readExponent_cons he]
        rfl
      · rw [readExponent_cons he]
        cases hs <;> rfl
    rcases isCut_append_iff.1 hp' with hcut | ⟨digits', rfl, hcut⟩
    · refine .inl (hsign p' (.inl ?_))
      cases hs with
      | absent => exact absurd hcut not_isCut_nil
      | plus => exact isCut_singleton_iff.1 hcut
      | minus => exact isCut_singleton_iff.1 hcut
    · by_cases hnil : digits' = []
      · exact .inl (hsign _ (.inr (by rw [hnil, List.append_nil])))
      · exact .inr (.inr ⟨negative, digits, digits', rfl, hcut,
          .present he hs (hd.of_isCut hcut hnil)⟩)

/-! ## Numerals -/

/-- A numeral that is what is left of another one. -/
inductive CutNumeral (n : Numeral) : Numeral → Prop
  /-- The whole part, or the start of it, and perhaps a fraction. -/
  | digits {n' : Numeral} (hw : n'.whole <+: n.whole) (he : n'.exponent = none) : CutNumeral n n'
  /-- All but some digits of the exponent. -/
  | exponent {negative : Bool} {digits digits' : Text} (he : n.exponent = some (negative, digits))
    (hp : IsCut digits' digits) : CutNumeral n { n with exponent := some (negative, digits') }

/-- A numeral that is cut ends too early, or what is left of it is a numeral. -/
theorem readNumber_of_isCut {n : Numeral} (h : NumeralWritten text n) (hp : IsCut p text) :
    readNumber p = .error .truncated ∨ ∃ n', NumeralWritten p n' ∧ CutNumeral n n' := by
  obtain @⟨⟨negative, whole, fraction, exponent⟩, ftext, etext, hw, hf, he⟩ := h
  dsimp only at hw hf he hp
  have hends := he.endsFraction endsNumber_nil
  rw [List.append_nil] at hends
  rw [List.append_assoc, List.append_assoc] at hp
  -- The cut goes through the sign, the whole part, the fraction or the exponent.
  rcases isCut_append_iff.1 hp with hcut | ⟨p', rfl, hp'⟩
  · left
    cases negative with
    | false => exact absurd hcut not_isCut_nil
    | true => rw [isCut_singleton_iff.1 hcut]; rfl
  rcases isCut_append_iff.1 hp' with hcut | ⟨p'', rfl, hp''⟩
  · by_cases hnil : p' = []
    · left
      rw [hnil]
      cases negative <;> rfl
    · refine .inr ⟨⟨negative, p', none, none⟩, ?_, .digits ?_ rfl⟩
      · simpa using NumeralWritten.parts (n := ⟨negative, p', none, none⟩) (hw.of_isCut hcut hnil)
          .absent .absent
      · obtain ⟨c, missing, rfl⟩ := hcut
        exact List.prefix_append p' _
  rcases isCut_append_iff.1 hp'' with hcut | ⟨p₃, rfl, hp₃⟩
  · have hdigits := hf.endsDigits endsNumber_nil.endsFraction.endsDigits
    rw [List.append_nil] at hdigits
    rcases readFraction_of_isCut hf hcut with hread | ⟨fraction', hf'⟩
    · left
      rw [readNumber_whole negative hw (hdigits.of_isCut hcut), hread]
      rfl
    · refine .inr ⟨⟨negative, whole, fraction', none⟩, ?_, .digits (List.prefix_refl whole) rfl⟩
      simpa using NumeralWritten.parts (n := ⟨negative, whole, fraction', none⟩) hw hf' .absent
  · have hfraction := hends.of_isCut hp₃
    rcases readExponent_of_isCut he hp₃ with hread | rfl | ⟨minus, digits, digits', rfl, hcut, he'⟩
    · left
      rw [readNumber_whole negative hw (hf.endsDigits hfraction.endsDigits),
        readFraction_append hf hfraction]
      show (readExponent p₃ >>= _) = _
      rw [hread]
      rfl
    · refine .inr ⟨⟨negative, whole, fraction, none⟩, ?_, .digits (List.prefix_refl whole) rfl⟩
      simpa using NumeralWritten.parts (n := ⟨negative, whole, fraction, none⟩) hw hf .absent
    · refine .inr ⟨⟨negative, whole, fraction, some (minus, digits')⟩, ?_, .exponent rfl hcut⟩
      simpa using NumeralWritten.parts (n := ⟨negative, whole, fraction, some (minus, digits')⟩) hw hf
        he'

/-! ## Size -/

namespace Numeral

variable {n n' : Numeral}

theorem magnitude_lt (h : NumeralWritten text n) :
    n.magnitude < 10 ^ (n.whole.length + n.exponentValue) := by
  obtain ⟨hw, hf⟩ := isDigit_of_numeralWritten h
  have hdigits : ∀ c ∈ n.digits, c.isDigit = true := by
    intro c hc
    exact (List.mem_append.1 hc).elim (hw c) (hf c)
  have hlt : (baseValue 10 n.digits : ℚ) < 10 ^ n.digits.length := by
    have hbounds := (appendDigits_bounds 0 hdigits).2
    rw [zero_add, one_mul] at hbounds
    exact_mod_cast hbounds
  have hten : (0 : ℚ) < 10 ^ (n.exponentValue - (n.fraction.getD []).length) := by positivity
  have hlength : (n.whole.length : ℤ) + n.exponentValue =
      (n.digits.length : ℤ) + (n.exponentValue - (n.fraction.getD []).length) := by
    simp [digits]
  rw [hlength, zpow_add₀ (by norm_num), zpow_natCast]
  exact mul_lt_mul_of_pos_right hlt hten

theorem ten_pow_lt_two_pow : (10 : ℚ) ^ 300 * (1 + 1 / 2 ^ 50) < 2 ^ 1024 := by
  have hten : (10 : ℚ) ^ 300 ≤ 2 ^ 1000 := by
    have h : (10 : ℚ) ^ 3 ≤ 2 ^ 10 := by norm_num
    calc (10 : ℚ) ^ 300 = (10 ^ 3) ^ 100 := by rw [← pow_mul]
      _ ≤ (2 ^ 10) ^ 100 := by gcongr
      _ = 2 ^ 1000 := by rw [← pow_mul]
  calc (10 : ℚ) ^ 300 * (1 + 1 / 2 ^ 50) ≤ 2 ^ 1000 * (1 + 1 / 2 ^ 50) := by gcongr
    _ < 2 ^ 1000 * 2 ^ 24 := by gcongr; norm_num
    _ = 2 ^ 1024 := by rw [← pow_add]

/-- A numeral with up to 300 digits before its point and no positive exponent is not too large. -/
theorem number?_ne_none_of_length_le (h : NumeralWritten text n) (hw : n.whole.length ≤ 300)
    (he : n.exponentValue ≤ 0) : n.number? ≠ none := by
  intro hn
  have hlarge := le_magnitude_of_number?_eq_none h hn
  have hsmall : n.magnitude ≤ 10 ^ 300 := by
    refine (magnitude_lt h).le.trans ?_
    rw [← zpow_natCast]
    exact zpow_le_zpow_right₀ (by norm_num) (by push_cast; omega)
  have hle : n.magnitude * (1 + 1 / 2 ^ 50) ≤ 10 ^ 300 * (1 + 1 / 2 ^ 50) := by gcongr
  exact absurd (hlarge.trans hle) (not_le.2 ten_pow_lt_two_pow)

/-- Digits that go on are at least ten times the digits before. -/
theorem ten_mul_baseValue_le {digits digits' : Text} (h : ∀ c ∈ digits, c.isDigit = true)
    (hp : IsCut digits' digits) : 10 * baseValue 10 digits' ≤ baseValue 10 digits := by
  obtain ⟨c, missing, rfl⟩ := hp
  have hvalue : baseValue 10 (digits' ++ c :: missing) =
      appendDigits (baseValue 10 digits') (c :: missing) := List.foldl_append
  have hmissing : ∀ d ∈ c :: missing, d.isDigit = true := fun d hd =>
    h d (List.mem_append_right digits' hd)
  have hbounds := (appendDigits_bounds (baseValue 10 digits') hmissing).1
  have hpow : 10 ≤ 10 ^ (c :: missing).length := Nat.le_self_pow (by simp) 10
  rw [hvalue, mul_comm]
  exact (Nat.mul_le_mul_left _ hpow).trans hbounds

theorem exponent_isDigit {negative : Bool} {digits : Text} (h : NumeralWritten text n)
    (he : n.exponent = some (negative, digits)) : ∀ c ∈ digits, c.isDigit = true := by
  obtain ⟨-, -, hexponent⟩ := h
  rw [he] at hexponent
  cases hexponent with
  | present _ _ hd => exact hd.2

/-- With an exponent that is smaller by one or more, a numeral is a tenth or less. -/
theorem ten_mul_magnitude_le (hw : n'.whole = n.whole) (hf : n'.fraction = n.fraction)
    (he : n'.exponentValue + 1 ≤ n.exponentValue) : 10 * n'.magnitude ≤ n.magnitude := by
  have hdigits : n'.digits = n.digits := by rw [digits, digits, hw, hf]
  have hpow : (10 : ℚ) * 10 ^ (n'.exponentValue - (n.fraction.getD []).length) ≤
      10 ^ (n.exponentValue - (n.fraction.getD []).length) := by
    rw [← zpow_one_add₀ (by norm_num)]
    exact zpow_le_zpow_right₀ (by norm_num) (by omega)
  rw [magnitude, magnitude, hdigits, hf, mul_left_comm]
  exact mul_le_mul_of_nonneg_left hpow (by positivity)

/-- What is left of a numeral that is not too large is not too large, if no more than 300 digits
stand before its point. -/
theorem number?_ne_none_of_cut (h : NumeralWritten text n) (h' : NumeralWritten p n')
    (hcut : CutNumeral n n') (hw : n.whole.length ≤ 300) (hn : n.number? ≠ none) :
    n'.number? ≠ none := by
  cases hcut with
  | digits hstart he =>
    exact number?_ne_none_of_length_le h' (hstart.length_le.trans hw) (by simp [exponentValue, he])
  | @exponent negative digits digits' he hp =>
    -- With a negative exponent or one of zero the digits before the point bound the numeral. What is
    -- left of a positive one makes it a tenth or less, which is more than rounding makes up for.
    by_cases hvalue : negative = true ∨ baseValue 10 digits' = 0
    · refine number?_ne_none_of_length_le h' hw ?_
      cases negative <;> simp_all [exponentValue]
    · have hten := ten_mul_baseValue_le (exponent_isDigit h he) hp
      obtain ⟨rfl, hzero⟩ : negative = false ∧ baseValue 10 digits' ≠ 0 := by simpa using hvalue
      have hle : 10 * magnitude { n with exponent := some (false, digits') } ≤ n.magnitude := by
        refine ten_mul_magnitude_le rfl rfl ?_
        simp only [exponentValue, he]
        omega
      obtain ⟨value, hvalue⟩ := Option.ne_none_iff_exists'.1 hn
      intro hnone
      have hlarge := le_magnitude_of_number?_eq_none h' hnone
      have hsmall := magnitude_lt_of_number?_eq_some h hvalue
      have hpos : (0 : ℚ) < 2 ^ 1024 := by positivity
      generalize (2 : ℚ) ^ 1024 = bound at *
      linarith

end Numeral

/-- A number that is cut ends too early, or what is left of it is a number, or more than 300 digits
stand before its point. -/
theorem readNumber_cut {n : Numeral} (h : NumeralWritten text n) (hn : n.number? ≠ none)
    (hp : IsCut p text) :
    readNumber p = .error .truncated ∨ (∃ value, readNumber p = .ok (value, [])) ∨
      readNumber p = .error .malformed ∧ 300 < n.whole.length := by
  rcases readNumber_of_isCut h hp with hread | ⟨n', h', hcut⟩
  · exact .inl hread
  · have hread := readNumber_numeral h' endsNumber_nil
    rw [List.append_nil] at hread
    rw [hread]
    cases hvalue : n'.number? with
    | some value => exact .inr (.inl ⟨value, rfl⟩)
    | none =>
      refine .inr (.inr ⟨rfl, ?_⟩)
      by_contra hw
      exact Numeral.number?_ne_none_of_cut h h' hcut (not_lt.1 hw) hn hvalue

end CommandWords.Json
