import CommandWords.Proofs.Json.Strings
import CommandWords.Proofs.Runs

/-!
# Reading numbers

A numeral goes on as long as it can, so a reader takes it from a text only if what follows does not
continue it (`EndsNumber`). Up to this the reader of numbers takes exactly the numerals of the
grammar: `numberWritten_of_readNumber` for what has been read, `readNumber_append` for what is
written before such a text.
-/

namespace CommandWords.Json

/-- A text that does not go on with digits. -/
def EndsDigits (rest : Text) : Prop := ∀ c ∈ rest.head?, c.isDigit = false

/-- A text that does not go on with digits or with a fraction. -/
def EndsFraction (rest : Text) : Prop := ∀ c ∈ rest.head?, c.isDigit = false ∧ c ≠ '.'

/-- A text that does not go on with a numeral. -/
def EndsNumber (rest : Text) : Prop :=
  ∀ c ∈ rest.head?, c.isDigit = false ∧ c ≠ '.' ∧ c ≠ 'e' ∧ c ≠ 'E'

variable {s text rest digits : Text}

theorem EndsFraction.endsDigits (h : EndsFraction rest) : EndsDigits rest := fun c hc => (h c hc).1

theorem EndsNumber.endsFraction (h : EndsNumber rest) : EndsFraction rest := fun c hc =>
  ⟨(h c hc).1, (h c hc).2.1⟩

/-! ## Digits -/

theorem IsDigits.exists_cons (h : IsDigits digits) : ∃ c cs, digits = c :: cs ∧ c.isDigit = true := by
  obtain ⟨c, cs, rfl⟩ := List.exists_cons_of_ne_nil h.1
  exact ⟨c, cs, rfl, h.2 c List.mem_cons_self⟩

theorem readDigits_append (hd : ∀ c ∈ digits, c.isDigit = true) (hr : EndsDigits rest) :
    readDigits (digits ++ rest) = (digits, rest) := by
  rw [readDigits, Text.takeWhile_append_of_head hd hr, Text.dropWhile_append_of_head hd hr]

theorem readSomeDigits_eq_ok_iff :
    readSomeDigits s = .ok (digits, rest) ↔ s = digits ++ rest ∧ IsDigits digits ∧ EndsDigits rest := by
  constructor
  · intro h
    cases s with
    | nil => cases h
    | cons c cs =>
      rw [readSomeDigits] at h
      split_ifs at h with hc
      obtain ⟨rfl, rfl⟩ := Prod.mk.inj (Except.ok.inj h)
      refine ⟨List.takeWhile_append_dropWhile.symm, ⟨by simp [hc], fun d hd => ?_⟩, fun d hd => ?_⟩
      · exact List.all_eq_true.1 List.all_takeWhile d hd
      · have hnot := List.head?_dropWhile_not Char.isDigit (c :: cs)
        rw [hd] at hnot
        simpa using hnot
  · rintro ⟨rfl, hd, hr⟩
    have hread := readDigits_append hd.2 hr
    obtain ⟨c, cs, rfl, hc⟩ := hd.exists_cons
    rw [List.cons_append, readSomeDigits, if_pos hc, ← List.cons_append, hread]

theorem readWhole_eq_ok_iff :
    readWhole s = .ok (digits, rest) ↔ s = digits ++ rest ∧ IsWhole digits ∧ EndsDigits rest := by
  unfold readWhole
  rw [bind_eq_ok_iff]
  constructor
  · rintro ⟨⟨whole, behind⟩, hread, h⟩
    dsimp only at h
    by_cases hzero : whole.head? = some '0' ∧ 1 < whole.length
    · rw [if_pos hzero] at h
      cases h
    · rw [if_neg hzero] at h
      obtain ⟨rfl, rfl⟩ := Prod.mk.inj (Except.ok.inj h)
      obtain ⟨hs, hd, hr⟩ := readSomeDigits_eq_ok_iff.1 hread
      refine ⟨hs, ⟨hd, fun h0 => ?_⟩, hr⟩
      obtain ⟨c, cs, rfl, -⟩ := hd.exists_cons
      obtain rfl : c = '0' := by simpa using h0
      have hlen : ¬ 1 < ('0' :: cs).length := fun hlen => hzero ⟨rfl, hlen⟩
      obtain rfl : cs = [] := by
        rw [← List.length_eq_zero_iff]
        rw [List.length_cons] at hlen
        omega
      rfl
  · rintro ⟨hs, ⟨hd, h0⟩, hr⟩
    refine ⟨(digits, rest), readSomeDigits_eq_ok_iff.2 ⟨hs, hd, hr⟩, ?_⟩
    dsimp only
    rw [if_neg fun h => by rw [h0 h.1] at h; simp at h]
    rfl

/-! ## Fractions and exponents -/

theorem fractionWritten_of_readFraction {fraction : Option Text}
    (h : readFraction s = .ok (fraction, rest)) :
    ∃ text, s = text ++ rest ∧ FractionWritten text fraction := by
  unfold readFraction at h
  split at h
  · obtain ⟨⟨digits, behind⟩, hread, h⟩ := bind_eq_ok_iff.1 h
    obtain ⟨rfl, rfl⟩ := Prod.mk.inj (Except.ok.inj h)
    obtain ⟨rfl, hd, -⟩ := readSomeDigits_eq_ok_iff.1 hread
    exact ⟨'.' :: digits, rfl, .present hd⟩
  · obtain ⟨rfl, rfl⟩ := Prod.mk.inj (Except.ok.inj h)
    exact ⟨[], rfl, .absent⟩

theorem readFraction_append {fraction : Option Text} (h : FractionWritten text fraction)
    (hr : EndsFraction rest) : readFraction (text ++ rest) = .ok (fraction, rest) := by
  cases h with
  | absent =>
    unfold readFraction
    split
    · rename_i heq
      exact absurd rfl (hr '.' (by rw [← List.nil_append rest, heq]; rfl)).2
    · rfl
  | present hd =>
    rw [List.cons_append, readFraction, bind_eq_ok_iff]
    exact ⟨_, readSomeDigits_eq_ok_iff.2 ⟨rfl, hd, hr.endsDigits⟩, rfl⟩

/-- Whether an exponent is negative, and what follows its sign. -/
def takeSign : Text → Bool × Text
  | '+' :: rest => (false, rest)
  | '-' :: rest => (true, rest)
  | rest => (false, rest)

theorem signWritten_takeSign (s : Text) :
    ∃ sign, s = sign ++ (takeSign s).2 ∧ SignWritten sign (takeSign s).1 := by
  fun_cases takeSign s with
  | case1 rest => exact ⟨['+'], rfl, .plus⟩
  | case2 rest => exact ⟨['-'], rfl, .minus⟩
  | case3 => exact ⟨[], by simp, by simpa [takeSign] using .absent⟩

theorem takeSign_append {sign : Text} {negative : Bool} (h : SignWritten sign negative)
    (hd : IsDigits digits) : takeSign (sign ++ (digits ++ rest)) = (negative, digits ++ rest) := by
  cases h with
  | plus => rfl
  | minus => rfl
  | absent =>
    obtain ⟨c, cs, rfl, hc⟩ := hd.exists_cons
    have hplus : c ≠ '+' := by rintro rfl; cases hc
    have hminus : c ≠ '-' := by rintro rfl; cases hc
    simp [takeSign, hplus, hminus]

theorem readExponent_cons {e : Char} (he : e = 'e' ∨ e = 'E') (s : Text) :
    readExponent (e :: s) = (do
      let (digits, rest) ← readSomeDigits (takeSign s).2
      return (some ((takeSign s).1, digits), rest)) := by
  rw [readExponent.eq_def]
  exact if_pos he

theorem exponentWritten_of_readExponent {exponent : Option (Bool × Text)}
    (h : readExponent s = .ok (exponent, rest)) :
    ∃ text, s = text ++ rest ∧ ExponentWritten text exponent := by
  cases s with
  | nil =>
    obtain ⟨rfl, rfl⟩ := Prod.mk.inj (Except.ok.inj h)
    exact ⟨[], rfl, .absent⟩
  | cons e s =>
    by_cases he : e = 'e' ∨ e = 'E'
    · rw [readExponent_cons he, bind_eq_ok_iff] at h
      obtain ⟨⟨digits, behind⟩, hread, h⟩ := h
      obtain ⟨rfl, rfl⟩ := Prod.mk.inj (Except.ok.inj h)
      obtain ⟨hs, hd, -⟩ := readSomeDigits_eq_ok_iff.1 hread
      obtain ⟨sign, hsign, hw⟩ := signWritten_takeSign s
      exact ⟨e :: (sign ++ digits), by rw [hsign, hs]; simp, .present he hw hd⟩
    · rw [readExponent.eq_def] at h
      dsimp only at h
      rw [if_neg he] at h
      obtain ⟨rfl, rfl⟩ := Prod.mk.inj (Except.ok.inj h)
      exact ⟨[], rfl, .absent⟩

theorem readExponent_append {exponent : Option (Bool × Text)} (h : ExponentWritten text exponent)
    (hr : EndsNumber rest) : readExponent (text ++ rest) = .ok (exponent, rest) := by
  cases h with
  | absent =>
    cases rest with
    | nil => rfl
    | cons c cs =>
      obtain ⟨-, -, he, hE⟩ := hr c rfl
      rw [List.nil_append, readExponent.eq_def]
      exact if_neg (by simp [he, hE])
  | @present e sign digits negative he hs hd =>
    have htext : e :: (sign ++ digits) ++ rest = e :: (sign ++ (digits ++ rest)) := by simp
    rw [htext, readExponent_cons he, takeSign_append hs hd, bind_eq_ok_iff]
    exact ⟨_, readSomeDigits_eq_ok_iff.2 ⟨rfl, hd, hr.endsFraction.endsDigits⟩, rfl⟩

theorem ExponentWritten.endsFraction {exponent : Option (Bool × Text)}
    (h : ExponentWritten text exponent) (hr : EndsNumber rest) : EndsFraction (text ++ rest) := by
  cases h with
  | absent => exact hr.endsFraction
  | present he =>
    intro c hc
    obtain rfl : _ = c := by simpa using hc
    rcases he with rfl | rfl <;> decide

theorem FractionWritten.endsDigits {fraction : Option Text} (h : FractionWritten text fraction)
    (hr : EndsDigits rest) : EndsDigits (text ++ rest) := by
  cases h with
  | absent => exact hr
  | present =>
    intro c hc
    obtain rfl : '.' = c := by simpa using hc
    rfl

/-! ## Numbers -/

/-- Whether a numeral is negative, and what follows its sign. -/
def takeMinus : Text → Bool × Text
  | '-' :: rest => (true, rest)
  | s => (false, s)

theorem takeMinus_eq (s : Text) :
    s = (if (takeMinus s).1 then ['-'] else []) ++ (takeMinus s).2 := by
  fun_cases takeMinus s with
  | case1 rest => rfl
  | case2 => simp

theorem takeMinus_append (negative : Bool) (hd : IsDigits digits) :
    takeMinus ((if negative then ['-'] else []) ++ (digits ++ rest)) = (negative, digits ++ rest) := by
  cases negative with
  | true => rfl
  | false =>
    obtain ⟨c, cs, rfl, hc⟩ := hd.exists_cons
    have hminus : c ≠ '-' := by rintro rfl; cases hc
    simp [takeMinus, hminus]

theorem readNumber_eq (s : Text) :
    readNumber s = (do
      let (whole, rest) ← readWhole (takeMinus s).2
      let (fraction, rest) ← readFraction rest
      let (exponent, rest) ← readExponent rest
      match Numeral.number? ⟨(takeMinus s).1, whole, fraction, exponent⟩ with
      | some value => return (value, rest)
      | none => throw .malformed) := rfl

/-- What has been read is a number. -/
theorem numberWritten_of_readNumber {value : Number} (h : readNumber s = .ok (value, rest)) :
    ∃ text, s = text ++ rest ∧ NumberWritten text value := by
  rw [readNumber_eq, bind_eq_ok_iff] at h
  obtain ⟨⟨whole, behind⟩, hwhole, h⟩ := h
  obtain ⟨⟨fraction, behind⟩, hfraction, h⟩ := bind_eq_ok_iff.1 h
  obtain ⟨⟨exponent, behind⟩, hexponent, h⟩ := bind_eq_ok_iff.1 h
  dsimp only at h
  split at h
  · rename_i hnumber
    obtain ⟨rfl, rfl⟩ := Prod.mk.inj (Except.ok.inj h)
    obtain ⟨hs, hw, -⟩ := readWhole_eq_ok_iff.1 hwhole
    obtain ⟨ftext, rfl, hf⟩ := fractionWritten_of_readFraction hfraction
    obtain ⟨etext, rfl, he⟩ := exponentWritten_of_readExponent hexponent
    have hminus := takeMinus_eq s
    rw [hs] at hminus
    exact ⟨_, hminus.trans (by simp), _, .parts hw hf he, hnumber⟩
  · cases h

/-- The reader of numbers behind the whole part. -/
theorem readNumber_whole {whole : Text} (negative : Bool) (hw : IsWhole whole) (hr : EndsDigits rest) :
    readNumber ((if negative then ['-'] else []) ++ (whole ++ rest)) = (do
      let (fraction, rest) ← readFraction rest
      let (exponent, rest) ← readExponent rest
      match Numeral.number? ⟨negative, whole, fraction, exponent⟩ with
      | some value => return (value, rest)
      | none => throw .malformed) := by
  rw [readNumber_eq, takeMinus_append _ hw.1, readWhole_eq_ok_iff.2 ⟨rfl, hw, hr⟩]
  rfl

/-- A numeral is read before a text that does not continue it, and refused if it is too large. -/
theorem readNumber_numeral {n : Numeral} (h : NumeralWritten text n) (hr : EndsNumber rest) :
    readNumber (text ++ rest) =
      match n.number? with
      | some value => .ok (value, rest)
      | none => .error .malformed := by
  obtain @⟨⟨negative, whole, fraction, exponent⟩, ftext, etext, hw, hf, he⟩ := h
  dsimp only at hw hf he
  have hs : (if negative then ['-'] else []) ++ whole ++ ftext ++ etext ++ rest =
      (if negative then ['-'] else []) ++ (whole ++ (ftext ++ (etext ++ rest))) := by
    simp
  have hfraction := he.endsFraction hr
  rw [hs, readNumber_whole negative hw (hf.endsDigits hfraction.endsDigits),
    readFraction_append hf hfraction]
  show (readExponent (etext ++ rest) >>= _) = _
  rw [readExponent_append he hr]
  show (match Numeral.number? ⟨negative, whole, fraction, exponent⟩ with | some _ => _ | none => _) = _
  cases Numeral.number? ⟨negative, whole, fraction, exponent⟩ <;> rfl

/-- A number is read before a text that does not continue it. -/
theorem readNumber_append {value : Number} (h : NumberWritten text value) (hr : EndsNumber rest) :
    readNumber (text ++ rest) = .ok (value, rest) := by
  obtain ⟨n, hn, hvalue⟩ := h
  rw [readNumber_numeral hn hr, hvalue]

theorem NumberWritten.exists_cons {value : Number} (h : NumberWritten text value) :
    ∃ c cs, text = c :: cs ∧ (c = '-' ∨ c.isDigit = true) := by
  obtain ⟨numeral, ⟨hw, -, -⟩, -⟩ := h
  obtain ⟨c, cs, hc, hdigit⟩ := hw.1.exists_cons
  cases numeral.negative with
  | true => exact ⟨'-', _, rfl, .inl rfl⟩
  | false => exact ⟨c, _, by rw [hc]; rfl, .inr hdigit⟩

end CommandWords.Json
