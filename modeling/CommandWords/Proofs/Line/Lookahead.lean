import CommandWords.Proofs.Line.Step

/-!
# How far a search for a step looks

The search for a step goes through the rest of the line for a closing quote or for the end of a
word. Still, what it finds depends only on the text up to the end of the step and on one character
behind it.

* `findStep_append_of_head`: two texts that are the same up to the end of the step and in the
  character behind it have the same first step.
* `Step.Before.newline`: a step at the end of a line is the same step before a newline. No other
  white space would do for every step: behind a lone backslash it would be escaped.
* `lookahead_of_findStep`: what this says of a match that took a separator, of one that another step
  follows at once, and of one that the end of the line separates (`Lookahead`).
* `findStep_append_quotes`: a quote that is never closed is the exception, and has no bound.
-/

namespace CommandWords

variable {s front tail tail' separator rest : Text} {separated : Bool} {step : Step}
  {found : Found StepMatch}

/-- What separates a step shows in the first character behind it. -/
theorem Separates.of_head (h : Separates separator separated rest)
    (ht : tail.head? = (separator ++ rest).head?) :
    ∃ rest', tail = separator ++ rest' ∧ Separates separator separated rest' := by
  cases h with
  | @blank c _ hc =>
    obtain ⟨cs, rfl⟩ : ∃ cs, tail = c :: cs := List.head?_eq_some_iff.1 ht
    exact ⟨cs, rfl, .blank hc⟩
  | lineEnd =>
    obtain rfl : tail = [] := List.head?_eq_none_iff.1 ht
    exact ⟨[], rfl, .lineEnd⟩
  | @nothing c _ hc =>
    obtain ⟨cs, rfl⟩ : ∃ cs, tail = c :: cs := List.head?_eq_some_iff.1 ht
    exact ⟨c :: cs, rfl, .nothing hc⟩

/-- Of the text behind a closed step, a search looks at the first character alone. -/
theorem findStep_append_of_head (h : findStep (front ++ tail) = some found)
    (hc : found.value.step.isClosed = true)
    (hfront : front.byteSize = found.value.offset + found.value.step.raw.byteSize)
    (ht : tail'.head? = tail.head?) : findStep (front ++ tail') = some found := by
  obtain ⟨blanks, step, separator, separated, rest, hs, hb, hstep, hsep, rfl⟩ :=
    exists_parts_of_findStep h
  obtain ⟨rfl, rfl⟩ : front = blanks ++ step.raw ∧ tail = separator ++ rest := by
    have hcut := Text.splitBytes?_append front tail
    rw [hs, hfront, ← Text.byteSize_append, List.append_assoc (blanks ++ step.raw),
      Text.splitBytes?_append] at hcut
    simpa [eq_comm] using hcut
  -- The separator is at most one character, so it stands before the other text too.
  obtain ⟨rest', rfl, hsep'⟩ := hsep.of_head ht
  have hstep' : step.Before (separator ++ rest') :=
    hstep.of_head hc fun c hr => by rwa [ht] at hr
  rw [← List.append_assoc]
  exact findStep_eq hb hstep' hsep'

/-- A step that ends the line stays the step it is before a newline. -/
theorem Step.Before.newline (h : step.Before []) (hc : step.isClosed = true) (x : Text) :
    step.Before ('\n' :: x) := by
  cases step with
  | word text =>
    refine ⟨h.1, h.2.1, fun c hr => ?_⟩
    obtain rfl := Option.some.inj hr
    decide
  | singleQuoted content => exact h
  | doubleQuoted content => exact h
  | escaped c =>
    cases c with
    | none => simp [Step.Before]
    | some c => exact h
  | unclosed quote => simp [isClosed] at hc

/-- Whether a match goes on behind its step: the text that it took ends in a character of white
space which stands there. -/
def TakesSeparator (taken : Text) (found : StepMatch) : Prop :=
  ∃ (front : Text) (c : Char), taken = front ++ [c] ∧ isBlank c = true ∧
    front.byteSize = found.offset + found.step.raw.byteSize

/-- How far a search looks: `taken` is the text up to the end of the match and `rest` what follows
it. -/
structure Lookahead (s : Text) (found : Found StepMatch) (taken rest : Text) : Prop where
  stop_cut : s.splitBytes? found.stop = some (taken, rest)
  /-- Behind a separator nothing matters. -/
  of_separator : TakesSeparator taken found.value → ∀ x, findStep (taken ++ x) = some found
  /-- Where the next step follows at once, its first character alone matters. -/
  of_next : found.value.separated = false →
    ∃ c behind, rest = c :: behind ∧ ∀ x, findStep (taken ++ c :: x) = some found
  /-- Where the line ends, a newline and any text behind it do not change the step; the match takes
  the newline. -/
  of_lineEnd : found.value.separated = true → ¬ TakesSeparator taken found.value →
    rest = [] ∧ ∀ x, findStep (s ++ '\n' :: x) = some { found with stop := found.stop + 1 }

theorem Lookahead.eq_of_splitBytes? {taken rest taken' rest' : Text}
    (h : Lookahead s found taken rest) (hcut : s.splitBytes? found.stop = some (taken', rest')) :
    taken' = taken ∧ rest' = rest :=
  Prod.mk.inj (Option.some.inj (hcut.symm.trans h.stop_cut))

/-- Every search looks at most one character past the step that it finds, if this is not a quote
that is never closed. -/
theorem lookahead_of_findStep (h : findStep s = some found)
    (hc : found.value.step.isClosed = true) : ∃ taken rest, Lookahead s found taken rest := by
  obtain ⟨blanks, step, separator, separated, rest, rfl, hb, hstep, hsep, rfl⟩ :=
    exists_parts_of_findStep h
  refine ⟨blanks ++ step.raw ++ separator, rest,
    { stop_cut := Text.splitBytes?_append _ _
      of_separator := ?_
      of_next := ?_
      of_lineEnd := ?_ }⟩
  · rintro ⟨front, c, htaken, -, hfront⟩ x
    rw [htaken, List.append_assoc] at h ⊢
    exact findStep_append_of_head h hc hfront rfl
  · rintro (rfl : separated = false)
    cases hsep with
    | @nothing c behind _ =>
      refine ⟨c, behind, rfl, fun x => ?_⟩
      exact findStep_append_of_head h hc (by simp) rfl
  · rintro (rfl : separated = true) hnone
    cases hsep with
    | @blank c _ hblank => exact absurd ⟨blanks ++ step.raw, c, rfl, hblank, by simp⟩ hnone
    | lineEnd =>
      refine ⟨rfl, fun x => ?_⟩
      have hnewline : Separates ['\n'] true x := .blank rfl
      have hfind := findStep_eq hb (hstep.newline hc x) hnewline
      simpa [Nat.add_assoc, show '\n'.utf8Size = 1 from rfl] using hfind

/-- A double-quoted text and a separator before a quote that is never closed, a word that such a
quote follows at once, and a lone backslash at the end of the line. -/
theorem lookahead_separators :
    (findStep " \"a\\\" b\"\té'".toList =
        some ⟨0, 9, .doubleQuoted "a\\\" b".toList, 1, true⟩ ∧
      (Step.doubleQuoted "a\\\" b".toList).isClosed = true ∧
      ∀ x, findStep (" \"a\\\" b\"\t".toList ++ x) =
        some ⟨0, 9, .doubleQuoted "a\\\" b".toList, 1, true⟩) ∧
    (findStep "é'b".toList = some ⟨0, 2, .word "é".toList, 0, false⟩ ∧
      (Step.word "é".toList).isClosed = true ∧
      ∀ x, findStep ("é".toList ++ '\x27' :: x) = some ⟨0, 2, .word "é".toList, 0, false⟩) ∧
    (findStep "\\".toList = some ⟨0, 1, .escaped none, 0, true⟩ ∧
      (Step.escaped none).isClosed = true ∧
      ∀ x, findStep ("\\".toList ++ '\n' :: x) = some ⟨0, 2, .escaped none, 0, true⟩) := by
  have hblank : findStep " \"a\\\" b\"\té'".toList =
      some ⟨0, 9, .doubleQuoted "a\\\" b".toList, 1, true⟩ := by decide +kernel
  have hnext : findStep "é'b".toList = some ⟨0, 2, .word "é".toList, 0, false⟩ := by decide +kernel
  have hend : findStep "\\".toList = some ⟨0, 1, .escaped none, 0, true⟩ := by decide +kernel
  refine ⟨⟨hblank, rfl, ?_⟩, ⟨hnext, rfl, ?_⟩, ⟨hend, rfl, ?_⟩⟩
  · obtain ⟨taken, rest, h⟩ := lookahead_of_findStep hblank rfl
    have hcut : Text.splitBytes? 9 " \"a\\\" b\"\té'".toList =
        some (" \"a\\\" b\"\t".toList, "é'".toList) := by decide +kernel
    obtain ⟨rfl, rfl⟩ := h.eq_of_splitBytes? hcut
    exact h.of_separator ⟨" \"a\\\" b\"".toList, '\t', rfl, rfl, by decide⟩
  · obtain ⟨taken, rest, h⟩ := lookahead_of_findStep hnext rfl
    have hcut : Text.splitBytes? 2 "é'b".toList = some ("é".toList, "'b".toList) := by
      decide +kernel
    obtain ⟨rfl, rfl⟩ := h.eq_of_splitBytes? hcut
    obtain ⟨c, behind, hrest, hx⟩ := h.of_next rfl
    obtain ⟨rfl, -⟩ := List.cons.inj hrest
    exact hx
  · obtain ⟨taken, rest, h⟩ := lookahead_of_findStep hend rfl
    have hcut : Text.splitBytes? 1 "\\".toList = some ("\\".toList, []) := by decide +kernel
    obtain ⟨rfl, rfl⟩ := h.eq_of_splitBytes? hcut
    refine (h.of_lineEnd rfl ?_).2
    rintro ⟨front, c, htaken, hblank, -⟩
    obtain rfl : '\\' = c := by simpa using congrArg List.getLast? htaken
    cases hblank

/-! ## A quote that is never closed -/

/-- Two more quotes close a quote that nothing closed, even if a backslash stands before them. -/
theorem Step.exists_closed_of_before {quote : Quote} (h : (Step.unclosed quote).Before tail) :
    ∃ (step : Step) (rest : Text),
      (Step.unclosed quote).raw ++ tail ++ [quote.char, quote.char] = step.raw ++ rest ∧
        step.Before rest ∧ step.isClosed = true := by
  cases quote with
  | single => exact ⟨.singleQuoted tail, [Quote.single.char], by simp [raw], h, rfl⟩
  | double =>
    obtain ⟨content, hcontent, rfl | rfl⟩ := DoubleQuoted.close?_eq_none_iff.1 h
    · exact ⟨.doubleQuoted tail, [Quote.double.char], by simp [raw], hcontent, rfl⟩
    · exact ⟨.doubleQuoted (content ++ ['\\', Quote.double.char]), [], by simp [raw],
        hcontent.append (.escaped .nil), rfl⟩

/-- For a quote that is never closed no bound holds: however long the text behind it is, the step is
another one when two more quotes follow that text. -/
theorem findStep_append_quotes {quote : Quote} (h : findStep s = some found)
    (hq : found.value.step = .unclosed quote) :
    ∃ found', findStep (s ++ [quote.char, quote.char]) = some found' ∧
      found'.value.offset = found.value.offset ∧ found'.value.step.isClosed = true := by
  obtain ⟨blanks, step, separator, separated, rest, rfl, hb, hstep, -, rfl⟩ :=
    exists_parts_of_findStep h
  obtain rfl : step = .unclosed quote := hq
  obtain ⟨step', tail', hraw, hstep', hc⟩ := Step.exists_closed_of_before hstep
  obtain ⟨separator', separated', rest', rfl, hsep⟩ := exists_separates tail'
  have htext :
      blanks ++ (Step.unclosed quote).raw ++ separator ++ rest ++ [quote.char, quote.char] =
        blanks ++ step'.raw ++ separator' ++ rest' := by
    simpa using congrArg (blanks ++ ·) hraw
  rw [htext]
  exact ⟨_, findStep_eq hb hstep' hsep, rfl, hc⟩

end CommandWords
