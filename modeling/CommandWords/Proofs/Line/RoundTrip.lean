import CommandWords.Line.Escape
import CommandWords.Proofs.Line.Spans

/-!
# Splitting what was joined

The spelling of a value is read in these steps: a newline is one between its quotes, a run of other
safe characters is one, and every other character is one with its backslash (`escapeSteps`). They
join into one word whatever white space follows (`joined_escapeSteps`), since only white space or
the end of the line separates the last of them and none of them is an empty pair of quotes.

`split_join` says for a whole line what comes of this: the values come back, each from a span that
is its spelling and the space behind it.
-/

namespace CommandWords

theorem toNat_lt_of_isAlphanum {c : Char} (h : c.isAlphanum = true) : c.toNat < 128 := by
  have hlt : ∀ d : Char, d.toNat < 128 → c.val ≤ d.val → c.toNat < 128 := fun d hd hle =>
    Nat.lt_of_le_of_lt (UInt32.le_iff_toNat_le.1 hle) hd
  rcases Bool.or_eq_true_iff.1 h with halpha | hdigit
  · rcases Bool.or_eq_true_iff.1 halpha with hupper | hlower
    · exact hlt 'Z' (by decide) (of_decide_eq_true hupper).2
    · exact hlt 'z' (by decide) (of_decide_eq_true (Bool.and_eq_true_iff.1 hlower).2)
  · exact hlt '9' (by decide) (of_decide_eq_true (Bool.and_eq_true_iff.1 hdigit).2)

theorem toNat_lt_of_isSafe {c : Char} (h : isSafe c = true) : c.toNat < 128 := by
  simp only [isSafe, Bool.or_eq_true, beq_iff_eq] at h
  rcases h with (((((((h | rfl) | rfl) | rfl) | rfl) | rfl) | rfl) | rfl) | rfl
  · exact toNat_lt_of_isAlphanum h
  all_goals decide

/-- Safe characters are ASCII, so that what they have in common can be checked one by one. -/
theorem forall_isSafe {p : Char → Prop}
    (h : ∀ n < 128, isSafe (Char.ofNat n) = true → p (Char.ofNat n)) {c : Char}
    (hc : isSafe c = true) : p c := by
  have hlt := toNat_lt_of_isSafe hc
  rw [← Char.ofNat_toNat c] at hc ⊢
  exact h c.toNat hlt hc

/-- A safe character is no backslash and no quote, and the newline is the only white space among
them. -/
theorem endsWord_eq_false_of_isSafe {c : Char} (h : isSafe c = true) (hc : c ≠ '\n') :
    endsWord c = false :=
  forall_isSafe (p := fun c => c ≠ '\n' → endsWord c = false) (by decide) h hc

/-! ## The steps of a spelling -/

/-- Steps before which a plain character is read: the character goes into the run of plain characters
that they start with, if they start with one. -/
def consPlain (c : Char) : List Step → List Step
  | .word text :: steps => .word (c :: text) :: steps
  | steps => .word [c] :: steps

/-- The steps that the spelling of a value is read in. -/
def escapeSteps : Text → List Step
  | [] => []
  | c :: cs =>
    if c = '\n' then .singleQuoted ['\n'] :: escapeSteps cs
    else if isSafe c then consPlain c (escapeSteps cs)
    else .escaped (some c) :: escapeSteps cs

@[simp] theorem flatMap_raw_consPlain (c : Char) (steps : List Step) :
    (consPlain c steps).flatMap Step.raw = c :: steps.flatMap Step.raw := by
  unfold consPlain
  split <;> simp [Step.raw]

@[simp] theorem flatMap_text_consPlain (c : Char) (steps : List Step) :
    (consPlain c steps).flatMap Step.text = c :: steps.flatMap Step.text := by
  unfold consPlain
  split <;> simp [Step.text, Step.value]

/-- The steps are read from the spelling. -/
theorem flatMap_raw_escapeSteps (value : Text) :
    (escapeSteps value).flatMap Step.raw = value.flatMap escapeChar := by
  induction value with
  | nil => rfl
  | cons c cs ih =>
    rw [escapeSteps, List.flatMap_cons, escapeChar, ← ih]
    split_ifs with hc hs
    · simp [Step.raw, Quote.char]
    · simp
    · simp [Step.raw]

/-- The steps give the value. -/
theorem flatMap_text_escapeSteps (value : Text) :
    (escapeSteps value).flatMap Step.text = value := by
  induction value with
  | nil => rfl
  | cons c cs ih =>
    rw [escapeSteps]
    split_ifs with hc hs
    · simp [Step.text, Step.value, hc, ih]
    · simp [ih]
    · simp [Step.text, Step.value, ih]

theorem escapeSteps_ne_nil {value : Text} (h : value ≠ []) : escapeSteps value ≠ [] := by
  intro hnil
  have htext := flatMap_text_escapeSteps value
  rw [hnil] at htext
  exact h htext.symm

variable {tail separator rest : Text} {steps : List Step}

/-- A step of another form than a run of plain characters starts with a character that ends such a
run. -/
theorem endsWord_head?_raw_append {step : Step} (h : ∀ text, step ≠ .word text) (t : Text) :
    ∀ c ∈ (step.raw ++ t).head?, endsWord c = true := by
  cases step with
  | word text => exact absurd rfl (h text)
  | singleQuoted content => simp [Step.raw, endsWord]
  | doubleQuoted content => simp [Step.raw, endsWord]
  | escaped c => cases c <;> simp [Step.raw, endsWord]
  | unclosed quote => cases quote <;> simp [Step.raw, endsWord]

theorem joined_consPlain {c : Char} (hc : endsWord c = false) (h : Step.Joined steps tail)
    (ht : ∀ c ∈ tail.head?, endsWord c = true) : Step.Joined (consPlain c steps) tail := by
  unfold consPlain
  split
  · obtain ⟨⟨-, hw, hhead⟩, -, -, hj⟩ := h
    exact ⟨⟨by simp, by simpa [hc] using hw, hhead⟩, rfl, rfl, hj⟩
  · rename_i hnot
    have hhead : ∀ c ∈ (steps.flatMap Step.raw ++ tail).head?, endsWord c = true := by
      cases steps with
      | nil => exact ht
      | cons step steps =>
        rw [List.flatMap_cons, List.append_assoc]
        exact endsWord_head?_raw_append (fun text heq => hnot text steps (by rw [heq])) _
    exact ⟨⟨by simp, by simpa using hc, hhead⟩, rfl, rfl, h⟩

/-- The steps of a spelling follow each other at once and do not end the word before its end. -/
theorem joined_escapeSteps (value : Text) (ht : ∀ c ∈ tail.head?, endsWord c = true) :
    Step.Joined (escapeSteps value) tail := by
  induction value with
  | nil => trivial
  | cons c cs ih =>
    rw [escapeSteps]
    split_ifs with hc hs
    · exact ⟨by simp [Step.Before, Quote.char], rfl, rfl, ih⟩
    · exact joined_consPlain (endsWord_eq_false_of_isSafe hs hc) ih ht
    · exact ⟨hc, rfl, rfl, ih⟩

/-! ## Spellings as words -/

theorem Separates.endsWord_head? {separated : Bool} (hs : Separates separator separated rest)
    (h : separated = true) : ∀ c ∈ (separator ++ rest).head?, endsWord c = true := by
  cases hs with
  | @blank c rest hc => simp [endsWord, hc]
  | lineEnd => simp
  | nothing => cases h

/-- The spelling of a value, with what separates it, is read as a word. -/
theorem exists_wordSpan_escape (value : Text) (hs : Separates separator true rest) :
    ∃ w : WordSpan, w.Before rest ∧ w.word = value ∧ w.span = escape value ++ separator := by
  by_cases hv : value = []
  · refine ⟨⟨[], [], .singleQuoted [], separator, true⟩, ?_, ?_, ?_⟩
    · exact ⟨by simp, trivial, by simp [Step.Before], rfl, hs, .inl rfl⟩
    · rw [hv]; rfl
    · rw [hv]; rfl
  · have hj := joined_escapeSteps value (hs.endsWord_head? rfl)
    obtain ⟨w, hw, hword, hspan⟩ := WordSpan.exists_of_joined (escapeSteps_ne_nil hv) hj hs
    refine ⟨w, hw, by rw [hword, flatMap_text_escapeSteps], ?_⟩
    rw [hspan, flatMap_raw_escapeSteps, escape, if_neg hv]

/-- A joined line is read as the spellings of its values, each with a space behind it but the
last. -/
theorem exists_readsAs_join (values : List Text) :
    ∃ words, ReadsAs (join values) words (.blank []) ∧ words.map WordSpan.word = values ∧
      words.map WordSpan.span =
        values.dropLast.map (fun value => escape value ++ [' ']) ++
          (values.getLast?.map escape).toList := by
  have hstop : ReadsAs [] [] (.blank []) := .stop (.blank []) (by simp [LineEnd.Valid])
  induction values with
  | nil => exact ⟨[], hstop, rfl, rfl⟩
  | cons value values ih =>
    cases values with
    | nil =>
      obtain ⟨w, hw, hword, hspan⟩ := exists_wordSpan_escape value .lineEnd
      rw [List.append_nil] at hspan
      refine ⟨[w], ?_, by simp [hword], by simp [hspan]⟩
      simpa [join, hspan] using ReadsAs.word hw hstop
    | cons next values =>
      obtain ⟨words, hread, hwords, hspans⟩ := ih
      have hs : Separates [' '] true (join (next :: values)) := .blank rfl
      obtain ⟨w, hw, hword, hspan⟩ := exists_wordSpan_escape value hs
      refine ⟨w :: words, ?_, by simp [hword, hwords], by simp [hspan, hspans]⟩
      simpa [join, hspan] using ReadsAs.word hw hread

/-- Splitting gives back the values that a line was joined from, and the span of each is its spelling
and the space behind it. -/
theorem split_join (values : List Text) :
    split (join values) = .ok values ∧
      (splitReport (join values)).spans =
        values.dropLast.map (fun value => escape value ++ [' ']) ++
          (values.getLast?.map escape).toList := by
  obtain ⟨words, hread, hwords, hspans⟩ := exists_readsAs_join values
  rw [split, splitReport_of_blank hread, trailingSpan_nil, List.append_nil, hwords]
  exact ⟨rfl, hspans⟩

end CommandWords
