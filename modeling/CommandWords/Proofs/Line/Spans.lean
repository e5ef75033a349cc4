import CommandWords.Proofs.Line.Automaton
import Mathlib.Data.List.Forall2

/-!
# The spans of a line

A step looks at most one character ahead, and a line that ends behind a word separates its last
step as white space does. So a word reads the same when the line is cut off behind its span
(`WordSpan.Before.alone`), and its span, taken as a line, splits to this word alone
(`splitReport_span`).

`spansTile_of_split` puts this together for a whole line (`SpansTile`): the spans are the line, in
order, one for each word, and white space behind the last word is one more.
-/

namespace CommandWords

variable {front : List Step} {tail rest line : Text} {w : WordSpan} {words : List Text}

theorem head?_append_of_head? {s t : Text} (a : Text) (h : ∀ c ∈ s.head?, c ∈ t.head?) :
    ∀ c ∈ (a ++ s).head?, c ∈ (a ++ t).head? := by
  cases a with
  | nil => exact h
  | cons b bs => exact fun c hc => hc

/-- Steps that follow each other at once still do so when the text behind them is cut off or goes
on with the same character. -/
theorem Step.Joined.of_head (h : Step.Joined front tail) (ht : ∀ c ∈ rest.head?, c ∈ tail.head?) :
    Step.Joined front rest := by
  induction front with
  | nil => trivial
  | cons step steps ih =>
    obtain ⟨hstep, hc, he, hj⟩ := h
    exact ⟨hstep.of_head hc (head?_append_of_head? _ ht), hc, he, ih hj⟩

theorem Separates.alone {separator : Text} {separated : Bool}
    (h : Separates separator separated rest) : Separates separator true [] := by
  cases h with
  | blank hb => exact .blank hb
  | lineEnd => exact .lineEnd
  | nothing => exact .lineEnd

theorem Separates.separator_eq {separator : Text} {separated : Bool}
    (h : Separates separator separated rest) :
    separator = [] ∨ ∃ c, separator = [c] ∧ isBlank c = true := by
  cases h with
  | blank hb => exact .inr ⟨_, rfl, hb⟩
  | lineEnd => exact .inl rfl
  | nothing => exact .inl rfl

namespace WordSpan

/-- A word whose last step counts as separated. -/
def alone (w : WordSpan) : WordSpan := { w with separated := true }

@[simp] theorem span_alone (w : WordSpan) : w.alone.span = w.span := rfl
@[simp] theorem word_alone (w : WordSpan) : w.alone.word = w.word := rfl
@[simp] theorem steps_alone (w : WordSpan) : w.alone.steps = w.steps := rfl

/-- A word is read in the same way when the line ends behind its span. -/
theorem Before.alone (h : w.Before rest) : w.alone.Before [] where
  blanks := h.blanks
  front := h.front.of_head (head?_append_of_head? _ (head?_append_of_head? _ (by simp)))
  last := h.last.of_head h.closed (head?_append_of_head? _ (by simp))
  closed := h.closed
  separates := h.separates.alone
  ends := .inl rfl

theorem map_step_foundFrom (last : Step) (separated : Bool) (offset : Nat) (front : List Step) :
    (foundFrom last separated offset front).map StepMatch.step = front ++ [last] := by
  induction front generalizing offset with
  | nil => rfl
  | cons step steps ih => rw [foundFrom, List.map_cons, ih, List.cons_append]

theorem map_step_found (w : WordSpan) : w.found.map StepMatch.step = w.steps :=
  map_step_foundFrom ..

theorem Before.span_ne_nil (h : w.Before rest) : w.span ≠ [] := by
  obtain ⟨c, cs, hr, -⟩ := h.last.raw_eq_cons
  simp [span, steps, hr]

end WordSpan

/-- The span of a word, split as a line of its own. -/
theorem splitReport_span (h : w.Before rest) :
    splitReport w.span = ⟨.ok [w.word], [w.span], w.alone.found⟩ := by
  have hread : ReadsAs w.span [w.alone] (.blank []) := by
    simpa [LineEnd.text] using ReadsAs.word h.alone (.stop (.blank []) (by simp [LineEnd.Valid]))
  simpa using splitReport_of_blank hread

theorem ReadsAs.splitReport_span {ws : List WordSpan} {stop : LineEnd} (h : ReadsAs line ws stop) :
    ∀ w ∈ ws, splitReport w.span = ⟨.ok [w.word], [w.span], w.alone.found⟩ := by
  intro w hw
  obtain ⟨rest, hr⟩ := h.exists_before w hw
  exact CommandWords.splitReport_span hr

/-- The spans of a line that splits to `words`: those of the words, and those behind them. -/
structure SpansTile (line : Text) (words wordSpans trailing : List Text) : Prop where
  spans_eq : (splitReport line).spans = wordSpans ++ trailing
  flatten_eq : (wordSpans ++ trailing).flatten = line
  ne_nil : ∀ span ∈ wordSpans ++ trailing, span ≠ []
  /-- Each word has one span, and the span splits to this word alone. -/
  split_span : List.Forall₂ (fun word span => split span = .ok [word]) words wordSpans
  /-- At most one span follows those of the words, and it is white space. -/
  trailing_eq : trailing = [] ∨ ∃ text, trailing = [text] ∧ ∀ c ∈ text, isBlank c = true
  /-- The steps of the line are those of the spans of its words. -/
  steps_eq : (splitReport line).steps.map StepMatch.step =
    wordSpans.flatMap fun span => (splitReport span).steps.map StepMatch.step
  /-- Such a span is white space, its steps, and at most one character of white space. -/
  span_eq : ∀ span ∈ wordSpans, ∃ blanks separator,
    span = blanks ++ ((splitReport span).steps.map StepMatch.step).flatMap Step.raw ++ separator ∧
      (∀ c ∈ blanks, isBlank c = true) ∧
        (separator = [] ∨ ∃ c, separator = [c] ∧ isBlank c = true)

/-- What is read with a line is what its spans tell. -/
theorem ReadsAs.spansTile {ws : List WordSpan} {text : Text} (h : ReadsAs line ws (.blank text)) :
    SpansTile line (ws.map WordSpan.word) (ws.map WordSpan.span) (trailingSpan text) where
  spans_eq := by rw [splitReport_of_blank h]
  flatten_eq := by
    rw [List.flatten_append, flatten_trailingSpan, ← List.flatMap_def]
    exact h.line_eq.symm
  ne_nil := by
    intro span hs
    rcases List.mem_append.1 hs with hs | hs
    · obtain ⟨w, hw, rfl⟩ := List.mem_map.1 hs
      obtain ⟨rest, hr⟩ := h.exists_before w hw
      exact hr.span_ne_nil
    · exact ne_nil_of_mem_trailingSpan hs
  split_span := by
    rw [List.forall₂_map_left_iff, List.forall₂_map_right_iff, List.forall₂_same]
    intro w hw
    rw [split, h.splitReport_span w hw]
  trailing_eq := by
    by_cases ht : text = []
    · exact .inl (if_pos ht)
    · exact .inr ⟨text, if_neg ht, h.valid⟩
  steps_eq := by
    rw [splitReport_of_blank h, List.map_flatMap, List.flatMap_map]
    refine List.flatMap_congr fun w hw => ?_
    rw [h.splitReport_span w hw, WordSpan.map_step_found, WordSpan.map_step_found,
      WordSpan.steps_alone]
  span_eq := by
    intro span hs
    obtain ⟨w, hw, rfl⟩ := List.mem_map.1 hs
    obtain ⟨rest, hr⟩ := h.exists_before w hw
    refine ⟨w.blanks, w.separator, ?_, hr.blanks, hr.separates.separator_eq⟩
    rw [h.splitReport_span w hw, WordSpan.map_step_found, WordSpan.steps_alone, WordSpan.span]

/-- The spans of a line tile it, and each but a last one of white space is a word of its own. -/
theorem spansTile_of_split (h : split line = .ok words) :
    ∃ wordSpans trailing, SpansTile line words wordSpans trailing := by
  obtain ⟨ws, stop, hread⟩ := exists_readsAs line
  cases stop with
  | unclosed blanks front quote behind =>
    rw [split, (splitReport_of_unclosed hread).1] at h
    cases h
  | blank text =>
    obtain rfl : ws.map WordSpan.word = words := by
      rw [split, splitReport_of_blank hread] at h
      exact Except.ok.inj h
    exact ⟨ws.map WordSpan.span, trailingSpan text, hread.spansTile⟩

/-- White space before and behind a word, quotes that end a word, and a backslash before a line
end. -/
theorem spansTile_mixed :
    split " a'b c'\"\"d\\\n\t ".toList = .ok ["ab c".toList, "d\\".toList] ∧
      ∃ wordSpans trailing, SpansTile " a'b c'\"\"d\\\n\t ".toList
        ["ab c".toList, "d\\".toList] wordSpans trailing := by
  have hsplit : split " a'b c'\"\"d\\\n\t ".toList = .ok ["ab c".toList, "d\\".toList] := by
    rw [← Automaton.result_run_start]
    rfl
  exact ⟨hsplit, spansTile_of_split hsplit⟩

end CommandWords
