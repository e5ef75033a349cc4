import CommandWords.Proofs.Json.Strings
import CommandWords.Proofs.Number.Rounding

/-!
# Numerals that are too large

A numeral stands for a number unless it is too large for double precision. What it spells
(`Numeral.magnitude`) is not what is rounded: only as many digits enter the significand as 64 bits
hold, and the significand and the power of ten are rounded before they are put together. The digits
left out and the rounding together are less than the 2^50th part of the numeral, so that a numeral
is refused only from 2^1024 on and always from there on, up to this part
(`le_magnitude_of_number?_eq_none`, `magnitude_lt_of_number?_eq_some`).
-/

namespace CommandWords

/-- The value of digits behind a number. -/
def appendDigits (value : Nat) (digits : Text) : Nat :=
  digits.foldl (fun n c => 10 * n + digitValue c) value

theorem digitValue_le {c : Char} (h : c.isDigit = true) : digitValue c ≤ 9 := by
  have hc := toNat_of_isDigit h
  have hle : '0' ≤ c ∧ c ≤ '9' :=
    ⟨UInt32.le_iff_toNat_le.2 hc.1, UInt32.le_iff_toNat_le.2 hc.2⟩
  rw [digitValue, hexValue?, if_pos hle]
  exact Nat.sub_le_of_le_add hc.2

theorem appendDigits_bounds (value : Nat) {digits : Text} (h : ∀ c ∈ digits, c.isDigit = true) :
    value * 10 ^ digits.length ≤ appendDigits value digits ∧
      appendDigits value digits < (value + 1) * 10 ^ digits.length := by
  induction digits generalizing value with
  | nil => simp [appendDigits]
  | cons c cs ih =>
    have hc := digitValue_le (h c List.mem_cons_self)
    have hcs := ih (10 * value + digitValue c) fun d hd => h d (List.mem_cons_of_mem _ hd)
    have hvalue : appendDigits value (c :: cs) = appendDigits (10 * value + digitValue c) cs := rfl
    rw [hvalue, List.length_cons, pow_succ]
    have hpow := Nat.pow_pos (n := cs.length) (by decide : 0 < 10)
    constructor
    · nlinarith
    · nlinarith

namespace Json.Numeral

/-- The digits of a numeral, those of the fraction behind those of the whole part. -/
def digits (n : Numeral) : Text := n.whole ++ n.fraction.getD []

/-- The number that a numeral spells, without its sign. -/
def magnitude (n : Numeral) : ℚ :=
  baseValue 10 n.digits * 10 ^ (n.exponentValue - (n.fraction.getD []).length)

/-- A significand with a number of places behind it that holds the first digits of a value: all of
them, or as many as there is room for. -/
structure Holds (significand places value : Nat) : Prop where
  le : significand ≤ limit
  low : significand * 10 ^ places ≤ value
  high : value < (significand + 1) * 10 ^ places
  full : places = 0 ∨ limit < 10 * significand + 10

theorem Holds.value_eq {significand value : Nat} (h : Holds significand 0 value) :
    value = significand := by
  have hlow := h.low
  have hhigh := h.high
  omega

theorem holds_self {significand : Nat} (h : significand ≤ limit) :
    Holds significand 0 significand := ⟨h, by simp, by simp, .inl rfl⟩

theorem Holds.append {significand places value : Nat} (h : Holds significand places value)
    (hfull : limit < 10 * significand + 10) {digits : Text}
    (hd : ∀ c ∈ digits, c.isDigit = true) :
    Holds significand (places + digits.length) (appendDigits value digits) where
  le := h.le
  low := by
    rw [pow_add, ← mul_assoc]
    exact (Nat.mul_le_mul_right _ h.low).trans (appendDigits_bounds value hd).1
  high := by
    rw [pow_add, ← mul_assoc]
    exact (appendDigits_bounds value hd).2.trans_le (Nat.mul_le_mul_right _ h.high)
  full := .inr hfull

theorem holds_wholeParts {significand places value : Nat} (h : Holds significand places value)
    {digits : Text} (hd : ∀ c ∈ digits, c.isDigit = true) :
    Holds (wholeParts significand places digits).1 (wholeParts significand places digits).2
      (appendDigits value digits) := by
  induction digits generalizing significand places value with
  | nil => exact h
  | cons c cs ih =>
    have hc := digitValue_le (hd c List.mem_cons_self)
    have hcs : ∀ d ∈ cs, d.isDigit = true := fun d hd' => hd d (List.mem_cons_of_mem _ hd')
    have hvalue : appendDigits value (c :: cs) = appendDigits (10 * value + digitValue c) cs := rfl
    rw [hvalue, wholeParts]
    split_ifs with hroom
    · obtain ⟨rfl, hle⟩ := hroom
      obtain rfl := h.value_eq
      refine ih ⟨hle, ?_, ?_, .inl rfl⟩ hcs
      · rw [pow_zero]
        omega
      · rw [pow_zero]
        omega
    · have hfull : limit < 10 * significand + 10 := by
        rcases h.full with rfl | hfull
        · have := not_le.1 fun hle => hroom ⟨rfl, hle⟩
          omega
        · exact hfull
      have hone : ∀ d ∈ [c], d.isDigit = true := by simpa using hd c List.mem_cons_self
      exact ih (h.append hfull hone) hcs

/-- A significand that holds all digits so far takes digits of the fraction as long as there is
room. -/
theorem holds_fractionParts {significand : Nat} (h : significand ≤ limit) (exponent : Int)
    {digits : Text} (hd : ∀ c ∈ digits, c.isDigit = true) :
    ∃ (significand' places : Nat), fractionParts significand exponent digits =
        (significand', exponent - digits.length + places) ∧
      Holds significand' places (appendDigits significand digits) := by
  induction digits generalizing significand exponent with
  | nil => exact ⟨significand, 0, by simp [fractionParts], holds_self h⟩
  | cons c cs ih =>
    have hc := digitValue_le (hd c List.mem_cons_self)
    have hcs : ∀ d ∈ cs, d.isDigit = true := fun d hd' => hd d (List.mem_cons_of_mem _ hd')
    rw [fractionParts]
    split_ifs with hroom
    · obtain ⟨significand', places, hparts, hholds⟩ := ih hroom (exponent - 1) hcs
      have hvalue : appendDigits significand (c :: cs) =
          appendDigits (significand * 10 + digitValue c) cs := by
        rw [mul_comm]
        rfl
      refine ⟨significand', places, ?_, hvalue ▸ hholds⟩
      rw [hparts, List.length_cons]
      congr 1
      omega
    · have hfull : limit < 10 * significand + 10 := by omega
      refine ⟨significand, (c :: cs).length, by simp, ?_⟩
      simpa using (holds_self h).append hfull hd

/-- A significand without room takes one digit of the fraction at most. -/
theorem fractionParts_of_full {significand : Nat} (h : limit < 10 * significand + 10)
    (exponent : Int) (digits : Text) :
    fractionParts significand exponent digits = (significand, exponent) ∨
      ∃ c cs, digits = c :: cs ∧ 10 * significand + digitValue c ≤ limit ∧
        fractionParts significand exponent digits =
          (10 * significand + digitValue c, exponent - 1) := by
  cases digits with
  | nil => exact .inl rfl
  | cons c cs =>
    rw [fractionParts, mul_comm significand]
    split_ifs with hroom
    · refine .inr ⟨c, cs, rfl, hroom, ?_⟩
      cases cs with
      | nil => rfl
      | cons d ds =>
        have hlimit : limit = 2 ^ 64 - 1 := rfl
        rw [fractionParts, if_neg (by omega)]
    · exact .inl rfl

/-- The significand and the places behind it are the digits, up to their 2^56th part. -/
def Approximates (significand places value : Nat) : Prop :=
  significand ≤ limit ∧ |(significand * 10 ^ places : ℚ) - value| ≤ value / 2 ^ 56

theorem approximates_of_slack {significand places value : Nat} (slack : Nat)
    (h : significand ≤ limit)
    (hlow : significand * 10 ^ places ≤ value + slack * 10 ^ places)
    (hhigh : value ≤ (significand + slack) * 10 ^ places)
    (hslack : (2 ^ 56 + 1) * slack ≤ significand) : Approximates significand places value := by
  refine ⟨h, ?_⟩
  have hlow' : (significand * 10 ^ places : ℚ) ≤ value + slack * 10 ^ places := by
    exact_mod_cast hlow
  have hhigh' : (value : ℚ) ≤ (significand + slack) * 10 ^ places := by exact_mod_cast hhigh
  have hslack' : ((2 ^ 56 + 1) * slack : ℚ) * 10 ^ places ≤ significand * 10 ^ places := by
    refine mul_le_mul_of_nonneg_right ?_ (by positivity)
    exact_mod_cast hslack
  rw [abs_le]
  constructor <;> linarith

theorem Holds.approximates {significand places value : Nat} (h : Holds significand places value) :
    Approximates significand places value := by
  have hlimit : limit = 2 ^ 64 - 1 := rfl
  rcases h.full with rfl | hfull
  · obtain rfl := h.value_eq
    refine ⟨h.le, ?_⟩
    simp
    positivity
  · have hhigh := h.high.le
    exact approximates_of_slack 1 h.le (h.low.trans (Nat.le_add_right _ _)) hhigh (by omega)

theorem exists_approximates {whole fraction : Text} (hw : ∀ c ∈ whole, c.isDigit = true)
    (hf : ∀ c ∈ fraction, c.isDigit = true) :
    ∃ significand places : Nat,
      fractionParts (wholeParts 0 0 whole).1 (wholeParts 0 0 whole).2 fraction =
        (significand, (places : Int) - fraction.length) ∧
      Approximates significand places (baseValue 10 (whole ++ fraction)) := by
  have hlimit : limit = 2 ^ 64 - 1 := rfl
  have hvalue : baseValue 10 (whole ++ fraction) =
      appendDigits (appendDigits 0 whole) fraction := List.foldl_append
  have hholds := holds_wholeParts (holds_self (Nat.zero_le limit)) hw
  rw [hvalue]
  generalize (wholeParts 0 0 whole).1 = significand at *
  generalize (wholeParts 0 0 whole).2 = places at *
  generalize appendDigits 0 whole = value at *
  rcases hholds.full with rfl | hfull
  · obtain rfl := hholds.value_eq
    obtain ⟨significand', places, hparts, hholds'⟩ := holds_fractionParts hholds.le 0 hf
    refine ⟨significand', places, ?_, hholds'.approximates⟩
    rw [Nat.cast_zero, hparts]
    congr 1
    omega
  · have hall := hholds.append hfull hf
    rcases fractionParts_of_full hfull places fraction with hparts | ⟨c, cs, rfl, hroom, hparts⟩
    · refine ⟨significand, places + fraction.length, ?_, hall.approximates⟩
      rw [hparts]
      push_cast
      congr 1
      omega
    · have hc := digitValue_le (hf c List.mem_cons_self)
      have hpow : 10 ^ (places + (c :: cs).length) = 10 * 10 ^ (places + cs.length) := by
        rw [List.length_cons, ← add_assoc, pow_succ, mul_comm]
      have hlow := hall.low
      have hhigh := hall.high
      rw [hpow] at hlow hhigh
      refine ⟨10 * significand + digitValue c, places + cs.length, ?_,
        approximates_of_slack 10 hroom ?_ ?_ (by omega)⟩
      · rw [hparts, List.length_cons]
        push_cast
        congr 1
        omega
      · nlinarith
      · nlinarith

theorem float?_eq_none_iff (n : Numeral) {significand : Nat} {exponent : Int}
    (h : fractionParts (wholeParts 0 0 n.whole).1 (wholeParts 0 0 n.whole).2 (n.fraction.getD []) =
      (significand, exponent)) :
    n.float? = none ↔ Binary64.ofDecimal? significand (exponent + n.exponentValue) = none := by
  rw [float?]
  dsimp only
  rw [h, Option.map_eq_none_iff]

/-- The digits of a numeral are digits. -/
theorem isDigit_of_numeralWritten {text : Text} {n : Numeral} (h : NumeralWritten text n) :
    (∀ c ∈ n.whole, c.isDigit = true) ∧ ∀ c ∈ n.fraction.getD [], c.isDigit = true := by
  cases h with
  | parts hw hf _ =>
    refine ⟨hw.1.2, ?_⟩
    generalize n.fraction = fraction at hf
    cases hf with
    | absent => simp
    | present h => exact h.2

theorem magnitude_nonneg (n : Numeral) : 0 ≤ n.magnitude := by
  unfold magnitude
  positivity

theorem exists_float? {text : Text} {n : Numeral} (h : NumeralWritten text n) :
    ∃ (significand : Nat) (exponent : Int), significand < 2 ^ 64 ∧
      (n.float? = none ↔ Binary64.ofDecimal? significand exponent = none) ∧
      |(significand * 10 ^ exponent : ℚ) - n.magnitude| ≤ n.magnitude / 2 ^ 56 := by
  obtain ⟨hw, hf⟩ := isDigit_of_numeralWritten h
  obtain ⟨significand, places, hparts, hle, happrox⟩ := exists_approximates hw hf
  have hlimit : limit = 2 ^ 64 - 1 := rfl
  refine ⟨significand, _, by omega, float?_eq_none_iff n hparts, ?_⟩
  have hpow : (significand * 10 ^ ((places : Int) - (n.fraction.getD []).length + n.exponentValue) : ℚ) =
      significand * 10 ^ places * 10 ^ (n.exponentValue - (n.fraction.getD []).length) := by
    rw [mul_assoc, ← zpow_natCast, ← zpow_add₀ (by norm_num)]
    congr 2
    omega
  have hten : (0 : ℚ) < 10 ^ (n.exponentValue - (n.fraction.getD []).length) := by positivity
  rw [hpow, magnitude, digits, ← sub_mul, abs_mul, abs_of_pos hten, mul_div_right_comm]
  exact mul_le_mul_of_nonneg_right happrox hten.le

/-- A numeral is rounded unless it is an integer that 64 bits hold. -/
theorem number?_eq_float?_or (n : Numeral) :
    n.number? = n.float? ∨ n.number?.isSome ∧ n.magnitude < 2 ^ 64 := by
  unfold number?
  by_cases hinteger : (n.fraction.isNone && n.exponent.isNone) = true
  · rw [if_pos hinteger]
    rw [Bool.and_eq_true_iff, Option.isNone_iff_eq_none, Option.isNone_iff_eq_none] at hinteger
    have hmagnitude : n.magnitude = baseValue 10 n.whole := by
      simp [magnitude, digits, exponentValue, hinteger]
    have hlt : ∀ {value : Nat}, value ≤ limit → (value : ℚ) < 2 ^ 64 := fun hle => by
      have hlimit : limit = 2 ^ 64 - 1 := rfl
      exact_mod_cast (by omega : _ < 2 ^ 64)
    rw [hmagnitude]
    dsimp only
    split_ifs with hnegative hzero hhalf hle
    · exact .inr ⟨rfl, hlt (by omega)⟩
    · exact .inr ⟨rfl, hlt (hhalf.trans (by decide))⟩
    · exact .inl rfl
    · exact .inr ⟨rfl, hlt hle⟩
    · exact .inl rfl
  · exact .inl (if_neg hinteger)

/-- A numeral that is refused is 2^1024 or more, up to its 2^50th part. -/
theorem le_magnitude_of_number?_eq_none {text : Text} {n : Numeral} (h : NumeralWritten text n)
    (hn : n.number? = none) : 2 ^ 1024 ≤ n.magnitude * (1 + 1 / 2 ^ 50) := by
  have hfloat : n.float? = none := by
    rcases n.number?_eq_float?_or with heq | ⟨hsome, -⟩
    · exact heq.symm.trans hn
    · rw [hn] at hsome
      cases hsome
  obtain ⟨significand, exponent, -, hnone, happrox⟩ := exists_float? h
  have hlarge := Binary64.le_of_ofDecimal?_eq_none (hnone.1 hfloat)
  have hpos := n.magnitude_nonneg
  generalize (significand : ℚ) * 10 ^ exponent = rounded at *
  generalize (2 : ℚ) ^ 1024 = bound at *
  have hhigh := (abs_le.1 happrox).2
  linarith

/-- A numeral that is not refused is below 2^1024, up to its 2^50th part. -/
theorem magnitude_lt_of_number?_eq_some {text : Text} {n : Numeral} {value : Number}
    (h : NumeralWritten text n) (hn : n.number? = some value) :
    n.magnitude * (1 - 1 / 2 ^ 50) < 2 ^ 1024 := by
  have hpos := n.magnitude_nonneg
  rcases n.number?_eq_float?_or with heq | ⟨-, hlt⟩
  · obtain ⟨significand, exponent, hs, hnone, happrox⟩ := exists_float? h
    cases hx : Binary64.ofDecimal? significand exponent with
    | none =>
      rw [heq, hnone.2 hx] at hn
      cases hn
    | some x =>
      have hsmall := Binary64.lt_of_ofDecimal?_eq_some hx hs
      generalize (significand : ℚ) * 10 ^ exponent = rounded at *
      generalize (2 : ℚ) ^ 1024 = bound at *
      have hlow := (abs_le.1 happrox).1
      linarith
  · calc n.magnitude * (1 - 1 / 2 ^ 50) ≤ n.magnitude * 1 := by
          gcongr
          norm_num
      _ < 2 ^ 64 := by rwa [mul_one]
      _ ≤ 2 ^ 1024 := pow_le_pow_right₀ (by norm_num) (by norm_num)

end Json.Numeral

end CommandWords
