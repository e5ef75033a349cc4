import CommandWords.Proofs.Line.Quoted
import CommandWords.Proofs.Runs

/-!
# The grammar of the steps

`Step.Before` says when a step is read before a text: what its own characters are, and what it asks
of the character that follows. A step and its text determine each other:

* `Step.read?_raw_append` and `Step.before_of_read?`: reading takes exactly the steps of the
  grammar.
* `Step.Before.of_head`: apart from a quote that is never closed, a step asks nothing of the text
  behind it but of its first character.
* `findStep_eq`, `blank_or_step`: a search finds a step exactly where the text is white space, the
  step, and what separates it (`Separates`), and it finds nothing exactly in white space.
* `exists_parts_of_findStep`: these parts of a text from what a search has found in it.
-/

namespace CommandWords

namespace Text

theorem blanks_append {b t : Text} (hb : ∀ c ∈ b, isBlank c = true)
    (ht : ∀ c ∈ t.head?, isBlank c = false) : blanks (b ++ t) = b :=
  takeWhile_append_of_head hb ht

theorem trimLeft_append {b t : Text} (hb : ∀ c ∈ b, isBlank c = true)
    (ht : ∀ c ∈ t.head?, isBlank c = false) : trimLeft (b ++ t) = t :=
  dropWhile_append_of_head hb ht

theorem isBlank_of_mem_blanks {s : Text} {c : Char} (h : c ∈ s.blanks) : isBlank c = true :=
  List.all_eq_true.1 List.all_takeWhile c h

theorem isBlank_head?_trimLeft (s : Text) : ∀ c ∈ s.trimLeft.head?, isBlank c = false := by
  intro c hc
  have h := List.head?_dropWhile_not isBlank s
  rw [show s.dropWhile isBlank = s.trimLeft from rfl, hc] at h
  simpa using h

end Text

theorem isBlank_of_endsWord {c : Char} (h : endsWord c = false) : isBlank c = false := by
  simp only [endsWord, Bool.or_eq_false_iff] at h
  exact h.1.1.1

namespace Step

/-- Whether a step is anything but a quote that is never closed. -/
def isClosed : Step → Bool
  | .unclosed _ => false
  | _ => true

/-- The text that a step adds to its word; nothing for a quote that is never closed. -/
def text (step : Step) : Text :=
  match step.value with
  | .ok text => text
  | .error _ => []

/-- When a step is read before a text: `step.raw` has the form of the step, and the text behind it
neither continues the step nor makes it another one. -/
def Before : Step → Text → Prop
  | .word text, tail =>
    text ≠ [] ∧ (∀ c ∈ text, endsWord c = false) ∧ ∀ c ∈ tail.head?, endsWord c = true
  | .singleQuoted content, _ => Quote.single.char ∉ content
  | .doubleQuoted content, _ => DoubleQuoted.IsContent content
  | .escaped (some c), _ => c ≠ '\n'
  | .escaped none, tail => ∀ c ∈ tail.head?, c = '\n'
  | .unclosed .single, tail => Quote.single.char ∉ tail
  | .unclosed .double, tail => DoubleQuoted.close? tail = none

variable {step : Step} {s tail rest : Text}

theorem value_eq (h : step.isClosed = true) : step.value = .ok step.text := by
  cases step <;> simp [isClosed, text, value] at h ⊢

/-- Only an empty pair of quotes adds nothing to its word. -/
theorem Before.text_ne_nil (h : step.Before tail) (hc : step.isClosed = true)
    (he : step.isEmptyQuotes = false) : step.text ≠ [] := by
  cases step with
  | word text => exact h.1
  | singleQuoted content => simpa [isEmptyQuotes, text, value] using he
  | doubleQuoted content => exact DoubleQuoted.decode_ne_nil (by simpa [isEmptyQuotes] using he)
  | escaped c => exact List.cons_ne_nil _ _
  | unclosed quote => simp [isClosed] at hc

theorem Before.raw_eq_cons (h : step.Before tail) :
    ∃ c cs, step.raw = c :: cs ∧ isBlank c = false := by
  cases step with
  | word text =>
    obtain ⟨c, cs, rfl⟩ := List.exists_cons_of_ne_nil h.1
    exact ⟨c, cs, rfl, isBlank_of_endsWord (h.2.1 c List.mem_cons_self)⟩
  | singleQuoted content => exact ⟨_, _, rfl, by decide⟩
  | doubleQuoted content => exact ⟨_, _, rfl, by decide⟩
  | escaped c => cases c <;> exact ⟨_, _, rfl, by decide⟩
  | unclosed quote => cases quote <;> exact ⟨_, _, rfl, by decide⟩

theorem Before.isBlank_head?_raw_append (h : step.Before tail) (t : Text) :
    ∀ c ∈ (step.raw ++ t).head?, isBlank c = false := by
  obtain ⟨c, cs, hr, hc⟩ := h.raw_eq_cons
  simpa [hr] using hc

/-- A closed step stays a step when the text behind it is cut off or goes on with the same
character. -/
theorem Before.of_head (h : step.Before tail) (hc : step.isClosed = true)
    (ht : ∀ c ∈ rest.head?, c ∈ tail.head?) : step.Before rest := by
  cases step with
  | word text => exact ⟨h.1, h.2.1, fun c hr => h.2.2 c (ht c hr)⟩
  | singleQuoted content => exact h
  | doubleQuoted content => exact h
  | escaped c =>
    cases c with
    | none => exact fun c hr => h c (ht c hr)
    | some c => exact h
  | unclosed quote => simp [isClosed] at hc

/-- Reading takes a step of the grammar and leaves what is behind it. -/
theorem read?_raw_append (h : step.Before tail) :
    Step.read? (step.raw ++ tail) = some (step, tail) := by
  cases step with
  | word text =>
    obtain ⟨hn, hw, ht⟩ := h
    have hrun : ∀ c ∈ text, (!endsWord c) = true := by simpa using hw
    have hrest : ∀ c ∈ tail.head?, (!endsWord c) = false := by simpa using ht
    have htake := Text.takeWhile_append_of_head hrun hrest
    have hdrop := Text.dropWhile_append_of_head hrun hrest
    obtain ⟨c, cs, rfl⟩ := List.exists_cons_of_ne_nil hn
    have hc := hw c List.mem_cons_self
    simp only [endsWord, Bool.or_eq_false_iff, beq_eq_false_iff_ne] at hc
    rw [raw, List.cons_append, read?.eq_def]
    simp only [if_neg hc.2, if_neg hc.1.2, if_neg hc.1.1.2]
    rw [← List.cons_append, htake, hdrop]
  | singleQuoted content =>
    have hclose := closeSingle?_append h tail
    simp [raw, read?.eq_def, hclose]
  | doubleQuoted content =>
    have hclose := DoubleQuoted.close?_append h tail
    simp [raw, read?.eq_def, hclose, Quote.char]
  | escaped c =>
    cases c with
    | some c => simp [raw, read?, Quote.char, show c ≠ '\n' from h]
    | none =>
      cases tail with
      | nil => rfl
      | cons d ds => rw [show d = '\n' from h d rfl]; rfl
  | unclosed quote =>
    cases quote with
    | single =>
      have hclose : closeSingle? tail = none := closeSingle?_eq_none_iff.2 h
      simp [raw, read?.eq_def, hclose]
    | double =>
      have hclose : DoubleQuoted.close? tail = none := h
      simp [raw, read?.eq_def, hclose, Quote.char]

/-- What is read at the head of a text is a step of the grammar, unless the text starts with white
space. -/
theorem before_of_read? (hs : ∀ c ∈ s.head?, isBlank c = false)
    (h : Step.read? s = some (step, rest)) : step.Before rest := by
  fun_cases Step.read? s with
  | case1 => simp [Step.read?] at h
  | case2 cs content behind hc =>
    obtain ⟨rfl, rfl⟩ : .singleQuoted content = step ∧ behind = rest := by
      simpa [Step.read?, hc] using h
    exact not_mem_of_closeSingle? hc
  | case3 cs hc =>
    obtain ⟨rfl, rfl⟩ : .unclosed .single = step ∧ cs = rest := by simpa [Step.read?, hc] using h
    exact closeSingle?_eq_none_iff.1 hc
  | case4 cs content behind hc hq =>
    obtain ⟨rfl, rfl⟩ : .doubleQuoted content = step ∧ behind = rest := by
      simpa [Step.read?, hc, hq] using h
    exact DoubleQuoted.isContent_of_close? hc
  | case5 cs hc hq =>
    obtain ⟨rfl, rfl⟩ : .unclosed .double = step ∧ cs = rest := by
      simpa [Step.read?, hc, hq] using h
    exact hc
  | case6 =>
    obtain ⟨rfl, rfl⟩ : .escaped none = step ∧ [] = rest := by
      simpa [Step.read?, Quote.char] using h
    exact fun c hc => by simp at hc
  | case7 =>
    rename_i ds _ _
    obtain ⟨rfl, rfl⟩ : .escaped none = step ∧ '\n' :: ds = rest := by
      simpa [Step.read?, Quote.char] using h
    exact fun c hc => by simpa using hc.symm
  | case8 =>
    rename_i d ds hd _ _
    obtain ⟨rfl, rfl⟩ : .escaped (some d) = step ∧ ds = rest := by
      simpa [Step.read?, Quote.char, hd] using h
    exact hd
  | case9 c cs h₁ h₂ h₃ =>
    obtain ⟨rfl, rfl⟩ : .word ((c :: cs).takeWhile (!endsWord ·)) = step ∧
        (c :: cs).dropWhile (!endsWord ·) = rest := by
      simpa [Step.read?, h₁, h₂, h₃] using h
    have hc : endsWord c = false := by
      simp [endsWord, hs c rfl, h₁, h₂, h₃]
    refine ⟨by simp [hc], fun d hd => ?_, fun d hd => ?_⟩
    · simpa using List.all_eq_true.1 List.all_takeWhile d hd
    · have := List.head?_dropWhile_not (!endsWord ·) (c :: cs)
      rw [hd] at this
      simpa using this

theorem eq_nil_of_read?_eq_none (h : Step.read? s = none) : s = [] := by
  cases s with
  | nil => rfl
  | cons c cs =>
    rw [read?.eq_def] at h
    dsimp only at h
    repeat' split at h
    all_goals cases h

end Step

/-! ## Searching for a step -/

/-- What separates a step from the rest of the line, whether it counts as separated, and that
rest. -/
inductive Separates : Text → Bool → Text → Prop
  /-- A character of white space, which a search takes with the step. -/
  | blank {c : Char} {rest : Text} (h : isBlank c = true) : Separates [c] true rest
  /-- The end of the line. -/
  | lineEnd : Separates [] true []
  /-- Nothing: the next step follows at once. -/
  | nothing {c : Char} {rest : Text} (h : isBlank c = false) : Separates [] false (c :: rest)

variable {blanks separator rest : Text} {separated : Bool} {step : Step}

theorem exists_separates (s : Text) :
    ∃ separator separated rest, s = separator ++ rest ∧ Separates separator separated rest := by
  cases s with
  | nil => exact ⟨[], true, [], rfl, .lineEnd⟩
  | cons c cs =>
    cases h : isBlank c with
    | true => exact ⟨[c], true, cs, rfl, .blank h⟩
    | false => exact ⟨[], false, c :: cs, rfl, .nothing h⟩

theorem findStep_eq_none {s : Text} (h : ∀ c ∈ s, isBlank c = true) : findStep s = none := by
  have ht : s.trimLeft = [] := by
    simpa using Text.trimLeft_append (t := []) h (by simp)
  rw [findStep, ht]
  rfl

/-- The search takes the white space before a step, the step and its separator. -/
theorem findStep_eq (hb : ∀ c ∈ blanks, isBlank c = true) (h : step.Before (separator ++ rest))
    (hs : Separates separator separated rest) :
    findStep (blanks ++ step.raw ++ separator ++ rest) =
      some ⟨0, (blanks ++ step.raw ++ separator).byteSize, step, blanks.byteSize, separated⟩ := by
  have hhead := h.isBlank_head?_raw_append (separator ++ rest)
  rw [List.append_assoc, List.append_assoc, findStep, Text.trimLeft_append hb hhead,
    Text.blanks_append hb hhead, Step.read?_raw_append h]
  cases hs with
  | blank hc => simp [hc, Nat.add_assoc]
  | lineEnd => simp
  | nothing hc => simp [hc]

/-- A text is white space or has a first step. -/
theorem blank_or_step (s : Text) :
    (∀ c ∈ s, isBlank c = true) ∨
      ∃ (blanks : Text) (step : Step) (separator : Text) (separated : Bool) (rest : Text),
      s = blanks ++ step.raw ++ separator ++ rest ∧ (∀ c ∈ blanks, isBlank c = true) ∧
        step.Before (separator ++ rest) ∧ Separates separator separated rest := by
  cases hr : Step.read? s.trimLeft with
  | none =>
    have hs := Text.blanks_append_trimLeft s
    rw [Step.eq_nil_of_read?_eq_none hr, List.append_nil] at hs
    rw [← hs]
    exact .inl fun c => Text.isBlank_of_mem_blanks
  | some found =>
    obtain ⟨step, tail⟩ := found
    obtain ⟨separator, separated, rest, rfl, hs⟩ := exists_separates tail
    refine .inr ⟨s.blanks, step, separator, separated, rest, ?_, fun c =>
      Text.isBlank_of_mem_blanks, Step.before_of_read? (Text.isBlank_head?_trimLeft s) hr, hs⟩
    rw [List.append_assoc, List.append_assoc, Step.raw_append_of_read? hr,
      Text.blanks_append_trimLeft]

/-- The parts of a text that a match is made of. -/
theorem exists_parts_of_findStep {s : Text} {found : Found StepMatch}
    (h : findStep s = some found) :
    ∃ (blanks : Text) (step : Step) (separator : Text) (separated : Bool) (rest : Text),
      s = blanks ++ step.raw ++ separator ++ rest ∧ (∀ c ∈ blanks, isBlank c = true) ∧
        step.Before (separator ++ rest) ∧ Separates separator separated rest ∧
        found =
          ⟨0, (blanks ++ step.raw ++ separator).byteSize, step, blanks.byteSize, separated⟩ := by
  rcases blank_or_step s with hs | ⟨blanks, step, separator, separated, rest, rfl, hb, hstep, hsep⟩
  · rw [findStep_eq_none hs] at h
    cases h
  · rw [findStep_eq hb hstep hsep] at h
    exact ⟨blanks, step, separator, separated, rest, rfl, hb, hstep, hsep, (Option.some.inj h).symm⟩

end CommandWords
