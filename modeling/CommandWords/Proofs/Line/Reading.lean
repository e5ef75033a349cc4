import CommandWords.Line.Split
import CommandWords.Proofs.Line.Step
import CommandWords.Proofs.Scan.Walk
import Mathlib.Data.List.Basic

/-!
# How a line reads

A line is a sequence of words and an end. A word (`WordSpan`) is white space, steps that follow
each other at once, and what separates the last of them from the rest; the line ends in white space
or in an unmatched quote (`LineEnd`). `ReadsAs` puts the parts together, each read before the text
that follows it.

* `exists_readsAs`: every line reads in this way.
* `splitReport_of_blank`, `splitReport_of_unclosed`: the report of a line is its words, their spans
  and their steps, however the line was read.
-/

namespace CommandWords

/-- Steps that follow each other at once before a text and do not end their word. -/
def Step.Joined : List Step → Text → Prop
  | [], _ => True
  | step :: steps, tail =>
    step.Before (steps.flatMap Step.raw ++ tail) ∧ step.isClosed = true ∧
      step.isEmptyQuotes = false ∧ Step.Joined steps tail

/-- A word and the part of a line that it is read from. -/
structure WordSpan where
  /-- The white space before the word. -/
  blanks : Text
  /-- The steps of the word but the last. -/
  front : List Step
  last : Step
  /-- The character of white space that is taken with the last step, if there is one. -/
  separator : Text
  /-- Whether the last step counts as separated. -/
  separated : Bool

namespace WordSpan

def steps (w : WordSpan) : List Step := w.front ++ [w.last]

def word (w : WordSpan) : Text := w.steps.flatMap Step.text

def span (w : WordSpan) : Text := w.blanks ++ w.steps.flatMap Step.raw ++ w.separator

/-- The steps as a search finds them, the first of them behind `offset` bytes of white space. -/
def foundFrom (last : Step) (separated : Bool) : Nat → List Step → List StepMatch
  | offset, [] => [⟨last, offset, separated⟩]
  | offset, step :: steps => ⟨step, offset, false⟩ :: foundFrom last separated 0 steps

def found (w : WordSpan) : List StepMatch :=
  foundFrom w.last w.separated w.blanks.byteSize w.front

/-- When a word is read before a text. -/
structure Before (w : WordSpan) (rest : Text) : Prop where
  blanks : ∀ c ∈ w.blanks, isBlank c = true
  front : Step.Joined w.front (w.last.raw ++ (w.separator ++ rest))
  last : w.last.Before (w.separator ++ rest)
  closed : w.last.isClosed = true
  separates : Separates w.separator w.separated rest
  ends : w.separated = true ∨ w.last.isEmptyQuotes = true

end WordSpan

/-- What follows the last word of a line. -/
inductive LineEnd where
  /-- White space. -/
  | blank (text : Text)
  /-- White space and the steps of a word that an unmatched quote interrupts. -/
  | unclosed (blanks : Text) (front : List Step) (quote : Quote) (behind : Text)

def LineEnd.text : LineEnd → Text
  | .blank text => text
  | .unclosed blanks front quote behind =>
    blanks ++ front.flatMap Step.raw ++ quote.char :: behind

/-- The span of the white space behind the last word, if there is any. -/
def trailingSpan (text : Text) : List Text := if text = [] then [] else [text]

@[simp] theorem trailingSpan_nil : trailingSpan [] = [] := rfl

@[simp] theorem flatten_trailingSpan (text : Text) : (trailingSpan text).flatten = text := by
  by_cases h : text = [] <;> simp [trailingSpan, h]

theorem ne_nil_of_mem_trailingSpan {text span : Text} (h : span ∈ trailingSpan text) :
    span ≠ [] := by
  by_cases ht : text = []
  · simp [ht] at h
  · rw [trailingSpan, if_neg ht, List.mem_singleton] at h
    exact h ▸ ht

/-- When a text can end a line. -/
def LineEnd.Valid : LineEnd → Prop
  | .blank text => ∀ c ∈ text, isBlank c = true
  | .unclosed blanks front quote behind =>
    (∀ c ∈ blanks, isBlank c = true) ∧ Step.Joined front (quote.char :: behind) ∧
      (Step.unclosed quote).Before behind

/-- The words of a line and what follows the last of them. -/
inductive ReadsAs : Text → List WordSpan → LineEnd → Prop
  | stop (stop : LineEnd) (h : stop.Valid) : ReadsAs stop.text [] stop
  | word {w : WordSpan} {rest : Text} {words : List WordSpan} {stop : LineEnd}
    (hw : w.Before rest) (h : ReadsAs rest words stop) :
    ReadsAs (w.span ++ rest) (w :: words) stop

variable {blanks separator rest tail text line : Text} {separated : Bool} {step : Step}
  {front : List Step} {words : List WordSpan} {stop : LineEnd} {w : WordSpan}

theorem blanks_eq_nil {c : Char} {cs t : Text} (hb : ∀ c ∈ blanks, isBlank c = true)
    (hc : isBlank c = false) (h : blanks ++ t = c :: cs) : blanks = [] := by
  cases blanks with
  | nil => rfl
  | cons b bs =>
    obtain ⟨rfl, -⟩ : b = c ∧ bs ++ t = cs := by simpa using h
    rw [hb b List.mem_cons_self] at hc
    cases hc

/-! ## The parts of a line -/

theorem ReadsAs.line_eq (h : ReadsAs line words stop) :
    line = words.flatMap WordSpan.span ++ stop.text := by
  induction h with
  | stop => rfl
  | word _ _ ih => rw [ih, List.flatMap_cons, List.append_assoc]

theorem ReadsAs.valid (h : ReadsAs line words stop) : stop.Valid := by
  induction h with
  | stop _ h => exact h
  | word _ _ ih => exact ih

theorem ReadsAs.exists_before (h : ReadsAs line words stop) : ∀ w ∈ words, ∃ rest, w.Before rest := by
  induction h with
  | stop => simp
  | word hw _ ih => simpa using ⟨⟨_, hw⟩, ih⟩

/-! ## Words from their steps -/

theorem Step.joined_append {back : List Step} :
    Step.Joined (front ++ back) tail ↔
      Step.Joined front (back.flatMap Step.raw ++ tail) ∧ Step.Joined back tail := by
  induction front with
  | nil => simp [Step.Joined]
  | cons step steps ih => simp [Step.Joined, ih, and_assoc]

/-- Steps that join before what separates them from the rest are a word. -/
theorem WordSpan.exists_of_joined {steps : List Step} (hne : steps ≠ [])
    (h : Step.Joined steps (separator ++ rest)) (hs : Separates separator true rest) :
    ∃ w : WordSpan, w.Before rest ∧ w.word = steps.flatMap Step.text ∧
      w.span = steps.flatMap Step.raw ++ separator := by
  obtain ⟨front, last, rfl⟩ := steps.eq_nil_or_concat'.resolve_left hne
  obtain ⟨hf, hlast, hc, -, -⟩ := Step.joined_append.1 h
  exact ⟨⟨[], front, last, separator, true⟩,
    ⟨by simp, by simpa using hf, hlast, hc, hs, .inl rfl⟩, rfl, rfl⟩

/-! ## Every line reads -/

/-- A step before a line that starts with another step belongs to the first word of the line. -/
theorem ReadsAs.cons_step (h : ReadsAs rest words stop) (hb : ∀ c ∈ blanks, isBlank c = true)
    (hstep : step.Before rest) (hc : step.isClosed = true) (he : step.isEmptyQuotes = false)
    (hs : Separates [] false rest) :
    ∃ words stop, ReadsAs (blanks ++ step.raw ++ rest) words stop := by
  obtain ⟨c, cs, rfl, hsolid⟩ : ∃ c cs, rest = c :: cs ∧ isBlank c = false := by
    cases hs with | nothing hc => exact ⟨_, _, rfl, hc⟩
  generalize hr : c :: cs = rest at h
  cases h with
  | stop _ h =>
    cases stop with
    | blank text =>
      obtain rfl : c :: cs = text := hr
      simpa [hsolid] using h c List.mem_cons_self
    | unclosed blanks' front quote behind =>
      obtain ⟨hb', hf, hq⟩ := h
      obtain rfl : blanks' = [] := blanks_eq_nil hb' hsolid (by rw [hr, LineEnd.text, List.append_assoc])
      refine ⟨[], .unclosed blanks (step :: front) quote behind, ?_⟩
      simpa [LineEnd.text] using ReadsAs.stop (.unclosed blanks (step :: front) quote behind)
        ⟨hb, ⟨by simpa [LineEnd.text, hr] using hstep, hc, he, hf⟩, hq⟩
  | @word w rest' words' _ hw h =>
    have hnil : w.blanks = [] := blanks_eq_nil hw.blanks hsolid
      (by rw [hr, WordSpan.span, List.append_assoc, List.append_assoc])
    have hfront : step.Before (w.front.flatMap Step.raw ++ (w.last.raw ++ (w.separator ++ rest'))) := by
      simpa [hr, WordSpan.span, WordSpan.steps, hnil] using hstep
    have hbefore : WordSpan.Before { w with blanks, front := step :: w.front } rest' :=
      ⟨hb, ⟨hfront, hc, he, hw.front⟩, hw.last, hw.closed, hw.separates, hw.ends⟩
    refine ⟨{ w with blanks, front := step :: w.front } :: words', stop, ?_⟩
    simpa [WordSpan.span, WordSpan.steps, hnil] using ReadsAs.word hbefore h

/-- Every line is a sequence of words and an end. -/
theorem exists_readsAs (line : Text) : ∃ words stop, ReadsAs line words stop := by
  rcases blank_or_step line with h | ⟨blanks, step, separator, separated, rest, hl, hb, hstep, hs⟩
  · exact ⟨[], .blank line, .stop (.blank line) h⟩
  obtain ⟨words, stop, h⟩ := exists_readsAs rest
  rw [hl]
  cases hc : step.isClosed with
  | false =>
    obtain ⟨quote, rfl⟩ : ∃ quote, step = .unclosed quote := by
      cases step <;> simp [Step.isClosed] at hc ⊢
    refine ⟨[], .unclosed blanks [] quote (separator ++ rest), ?_⟩
    simpa [LineEnd.text, Step.raw] using
      ReadsAs.stop (.unclosed blanks [] quote (separator ++ rest)) ⟨hb, trivial, hstep⟩
  | true =>
    by_cases he : separated = true ∨ step.isEmptyQuotes = true
    · have hw : WordSpan.Before ⟨blanks, [], step, separator, separated⟩ rest :=
        ⟨hb, trivial, hstep, hc, hs, he⟩
      refine ⟨⟨blanks, [], step, separator, separated⟩ :: words, stop, ?_⟩
      simpa [WordSpan.span, WordSpan.steps] using ReadsAs.word hw h
    · simp only [not_or, Bool.not_eq_true] at he
      obtain ⟨rfl, he⟩ := he
      obtain rfl : separator = [] := by cases hs; rfl
      simpa using h.cons_step hb hstep hc he hs
termination_by line.length
decreasing_by
  obtain ⟨c, cs, hr, -⟩ := hstep.raw_eq_cons
  simp only [hl, hr, List.length_append, List.length_cons]
  omega

/-! ## The report of a line -/

/-- One turn of a scan for steps. -/
theorem scan_step {σ ε : Type} {handle : Handler σ StepMatch ε}
    (hb : ∀ c ∈ blanks, isBlank c = true) (h : step.Before (separator ++ rest))
    (hs : Separates separator separated rest) (s : σ) :
    scan (.ofFunction findStep) handle () s (blanks ++ step.raw ++ separator ++ rest) =
      match handle s (blanks ++ step.raw ++ separator) ⟨step, blanks.byteSize, separated⟩ with
      | (.error e, s') => ⟨.error e, (), s'⟩
      | (.ok replacement, s') =>
        let behind := scan (.ofFunction findStep) handle () s' rest
        { behind with result := behind.result.map (replacement ++ ·) } := by
  let o : Occurrence StepMatch :=
    ⟨[], blanks ++ step.raw ++ separator, ⟨step, blanks.byteSize, separated⟩⟩
  have hne : o.text ≠ [] := by
    obtain ⟨c, cs, hr, -⟩ := h.raw_eq_cons
    simp [o, Occurrence.text, hr]
  have hf : findStep (o.text ++ rest) = some o.found := by
    simpa [o, Occurrence.text, Occurrence.found] using findStep_eq hb h hs
  exact scan_turn hne hf

/-- One turn of a scan that replaces the step by nothing. -/
theorem scan_step_ok {σ ε : Type} {handle : Handler σ StepMatch ε}
    (hb : ∀ c ∈ blanks, isBlank c = true) (h : step.Before (separator ++ rest))
    (hs : Separates separator separated rest) {s s' : σ}
    (ha : handle s (blanks ++ step.raw ++ separator) ⟨step, blanks.byteSize, separated⟩ =
      (.ok [], s')) :
    scan (.ofFunction findStep) handle () s (blanks ++ step.raw ++ separator ++ rest) =
      scan (.ofFunction findStep) handle () s' rest := by
  rw [scan_step hb h hs, ha]
  dsimp only
  obtain ⟨result, finder, handler⟩ := scan (.ofFunction findStep) handle () s' rest
  cases result <;> rfl

theorem scan_blank {σ ε : Type} {handle : Handler σ StepMatch ε}
    (h : ∀ c ∈ text, isBlank c = true) (s : σ) :
    scan (.ofFunction findStep) handle () s text = ⟨.ok text, (), s⟩ := by
  by_cases hne : text = []
  · rw [hne, scan_nil]
  · exact scan_stop hne (by simp [Finder.ofFunction, findStep_eq_none h])

theorem Step.Before.separates (h : step.Before tail) (t : Text) :
    Separates [] false (step.raw ++ t) := by
  obtain ⟨c, cs, hr, hc⟩ := h.raw_eq_cons
  rw [hr]
  exact .nothing hc

theorem Step.Joined.separates (h : Step.Joined front tail) (ht : Separates [] false tail) :
    Separates [] false (front.flatMap Step.raw ++ tail) := by
  cases front with
  | nil => exact ht
  | cons step steps => rw [List.flatMap_cons, List.append_assoc]; exact h.1.separates _

namespace Splitting

/-- The scan of the rest of a line. -/
abbrev scanRest (line : Text) (state : Splitting) (rest : Text) :
    Scanned Unit Splitting UnmatchedQuote :=
  scan (.ofFunction findStep) (Splitting.step line) () state rest

/-- The bytes that a splitting counts are those of the texts it has seen: the spans, the part of the
line behind them that belongs to the open word, and the rest. -/
structure Tracks (state : Splitting) (line pending rest : Text) : Prop where
  line_eq : line = state.spans.flatten ++ pending ++ rest
  spanStart_eq : state.spanStart = Text.byteSize state.spans.flatten
  consumed_eq : state.consumed = Text.byteSize (state.spans.flatten ++ pending)

/-- A splitting that has read one more step, with the white space before it, of its open word. -/
def join (state : Splitting) (blanks : Text) (step : Step) : Splitting :=
  { state with
    field := state.field ++ step.text
    consumed := state.consumed + (blanks ++ step.raw).byteSize
    steps := state.steps ++ [⟨step, blanks.byteSize, false⟩] }

/-- A splitting that has read a word, of which `pending` is the part already read. -/
def push (state : Splitting) (pending : Text) (w : WordSpan) : Splitting where
  words := state.words ++ [state.field ++ w.word]
  field := []
  spanStart := state.consumed + w.span.byteSize
  consumed := state.consumed + w.span.byteSize
  spans := state.spans ++ [pending ++ w.span]
  steps := state.steps ++ w.found

/-- A splitting between two words that has read more words. -/
def pushAll (state : Splitting) (words : List WordSpan) : Splitting where
  words := state.words ++ words.map WordSpan.word
  field := []
  spanStart := state.consumed + Text.byteSize (words.flatMap WordSpan.span)
  consumed := state.consumed + Text.byteSize (words.flatMap WordSpan.span)
  spans := state.spans ++ words.map WordSpan.span
  steps := state.steps ++ words.flatMap WordSpan.found

variable {state : Splitting} {pending raw : Text}

theorem Tracks.slice?_eq (h : state.Tracks line pending (raw ++ rest)) :
    line.slice? state.spanStart (state.consumed + raw.byteSize) = some (pending ++ raw) := by
  have hs := Text.slice?_append state.spans.flatten (pending ++ raw) rest
  rw [h.line_eq, h.spanStart_eq, h.consumed_eq, ← List.append_assoc, List.append_assoc _ pending,
    Text.byteSize_append, Nat.add_assoc, ← Text.byteSize_append, hs]

theorem Tracks.span_eq (h : state.Tracks line pending (raw ++ rest)) :
    state.span line (state.consumed + raw.byteSize) = pending ++ raw := by
  rw [span, h.slice?_eq]
  rfl

theorem Tracks.join (h : state.Tracks line pending (blanks ++ step.raw ++ rest)) :
    (state.join blanks step).Tracks line (pending ++ (blanks ++ step.raw)) rest where
  line_eq := by rw [h.line_eq]; simp [Splitting.join]
  spanStart_eq := h.spanStart_eq
  consumed_eq := by simp [Splitting.join, h.consumed_eq, Nat.add_assoc]

theorem Tracks.push (h : state.Tracks line pending (w.span ++ rest)) :
    (state.push pending w).Tracks line [] rest where
  line_eq := by rw [h.line_eq]; simp [Splitting.push]
  spanStart_eq := by simp [Splitting.push, h.consumed_eq, Nat.add_assoc]
  consumed_eq := by simp [Splitting.push, h.consumed_eq, Nat.add_assoc]

/-- A step that does not end its word. -/
theorem step_eq_join (line : Text) (state : Splitting) (blanks : Text)
    (hc : step.isClosed = true) (he : step.isEmptyQuotes = false) :
    Splitting.step line state (blanks ++ step.raw) ⟨step, blanks.byteSize, false⟩ =
      (.ok [], state.join blanks step) := by
  simp [Splitting.step, join, Step.value_eq hc, he]

/-- A step that ends its word. -/
theorem step_eq_push (ht : state.Tracks line pending (blanks ++ step.raw ++ separator ++ rest))
    (hc : step.isClosed = true) (he : separated = true ∨ step.isEmptyQuotes = true) :
    Splitting.step line state (blanks ++ step.raw ++ separator) ⟨step, blanks.byteSize, separated⟩ =
      (.ok [], state.push pending ⟨blanks, [], step, separator, separated⟩) := by
  have hends : (separated || step.isEmptyQuotes) = true := by simpa using he
  simp only [Splitting.step, Step.value_eq hc, hends, ↓reduceIte, ht.span_eq]
  simp [push, WordSpan.word, WordSpan.span, WordSpan.steps, WordSpan.found, WordSpan.foundFrom]

/-- A step that another one follows at once. -/
theorem scanRest_joined (hb : ∀ c ∈ blanks, isBlank c = true) (h : step.Before rest)
    (hc : step.isClosed = true) (he : step.isEmptyQuotes = false) (hs : Separates [] false rest) :
    scanRest line state (blanks ++ step.raw ++ rest) =
      scanRest line (state.join blanks step) rest := by
  have ha : Splitting.step line state (blanks ++ step.raw ++ []) ⟨step, blanks.byteSize, false⟩ =
      (.ok [], state.join blanks step) := by
    rw [List.append_nil]
    exact step_eq_join line state blanks hc he
  simpa using scan_step_ok hb h hs ha

/-- The last step of a word. -/
theorem scanRest_last (ht : state.Tracks line pending (blanks ++ step.raw ++ separator ++ rest))
    (hb : ∀ c ∈ blanks, isBlank c = true) (h : step.Before (separator ++ rest))
    (hc : step.isClosed = true) (hs : Separates separator separated rest)
    (he : separated = true ∨ step.isEmptyQuotes = true) :
    scanRest line state (blanks ++ step.raw ++ separator ++ rest) =
      scanRest line (state.push pending ⟨blanks, [], step, separator, separated⟩) rest :=
  scan_step_ok hb h hs (step_eq_push ht hc he)

/-- A word is read step by step, and the scan goes on behind it. -/
theorem scanRest_word (ht : state.Tracks line pending (w.span ++ rest)) (hw : w.Before rest) :
    scanRest line state (w.span ++ rest) = scanRest line (state.push pending w) rest := by
  obtain ⟨blanks, front, last, separator, separated⟩ := w
  induction front generalizing state pending blanks with
  | nil =>
    simp only [WordSpan.span, WordSpan.steps, List.nil_append, List.flatMap_cons, List.flatMap_nil,
      List.append_nil] at ht ⊢
    exact scanRest_last ht hw.blanks hw.last hw.closed hw.separates hw.ends
  | cons step steps ih =>
    obtain ⟨hb, ⟨hstep, hc, he, hj⟩, hlast, hclosed, hs, hends⟩ := hw
    let w : WordSpan := ⟨[], steps, last, separator, separated⟩
    have hw : w.Before rest := ⟨by simp [w], hj, hlast, hclosed, hs, hends⟩
    have hrest : w.span ++ rest = steps.flatMap Step.raw ++ (last.raw ++ (separator ++ rest)) := by
      simp [w, WordSpan.span, WordSpan.steps]
    have hspan : WordSpan.span ⟨blanks, step :: steps, last, separator, separated⟩ ++ rest =
        blanks ++ step.raw ++ (w.span ++ rest) := by
      simp [w, WordSpan.span, WordSpan.steps]
    have hsep : Separates [] false (w.span ++ rest) := by
      rw [hrest]
      exact hj.separates (hlast.separates _)
    rw [hspan] at ht ⊢
    rw [scanRest_joined hb (by rwa [hrest]) hc he hsep, ih [] ht.join hw]
    congr 1
    simp [push, join, WordSpan.word, WordSpan.span, WordSpan.steps, WordSpan.found,
      WordSpan.foundFrom, Nat.add_assoc]

/-- An unmatched quote ends the scan at the byte it stands at; no span is added. -/
theorem scanRest_unclosed (line : Text) (state : Splitting) (blanks : Text) {quote : Quote}
    {behind : Text} (hb : ∀ c ∈ blanks, isBlank c = true)
    (hf : Step.Joined front (quote.char :: behind)) (hq : (Step.unclosed quote).Before behind) :
    ∃ state', scanRest line state (blanks ++ front.flatMap Step.raw ++ quote.char :: behind) =
        ⟨.error ⟨quote, state.consumed + Text.byteSize (blanks ++ front.flatMap Step.raw)⟩, (),
          state'⟩ ∧ state'.spans = state.spans := by
  induction front generalizing state blanks with
  | nil =>
    obtain ⟨separator, separated, rest, rfl, hs⟩ := exists_separates behind
    have htext : blanks ++ [].flatMap Step.raw ++ quote.char :: (separator ++ rest) =
        blanks ++ (Step.unclosed quote).raw ++ separator ++ rest := by simp [Step.raw]
    rw [htext, scanRest, scan_step hb hq hs]
    refine ⟨{ state with
      consumed := state.consumed + (blanks ++ (Step.unclosed quote).raw ++ separator).byteSize
      steps := state.steps ++ [⟨.unclosed quote, blanks.byteSize, separated⟩] }, ?_, rfl⟩
    simp [Splitting.step, Step.value]
  | cons step steps ih =>
    obtain ⟨hstep, hc, he, hj⟩ := hf
    have hsep : Separates [] false (quote.char :: behind) := .nothing (by cases quote <;> decide)
    have htext : blanks ++ (step :: steps).flatMap Step.raw ++ quote.char :: behind =
        blanks ++ step.raw ++ (steps.flatMap Step.raw ++ quote.char :: behind) := by simp
    obtain ⟨state', hscan, hspans⟩ := ih (state.join blanks step) [] (by simp) hj
    rw [List.nil_append] at hscan
    rw [htext, scanRest_joined hb hstep hc he (hj.separates hsep), hscan]
    exact ⟨state', by simp [join, Nat.add_assoc], hspans⟩

/-- Between two words a scan takes all the words that follow and goes on with the end of the line. -/
theorem scanRest_readsAs (h : ReadsAs rest words stop) (ht : state.Tracks line [] rest)
    (hf : state.field = []) :
    scanRest line state rest = scanRest line (state.pushAll words) stop.text ∧
      (state.pushAll words).Tracks line [] stop.text := by
  have hnil : state.pushAll [] = state := by
    have hc : state.consumed = state.spanStart := by
      rw [ht.consumed_eq, List.append_nil, ht.spanStart_eq]
    obtain ⟨words, field, spanStart, consumed, spans, steps⟩ := state
    obtain rfl : field = [] := hf
    obtain rfl : consumed = spanStart := hc
    simp [pushAll]
  induction h generalizing state with
  | stop => rw [hnil]; exact ⟨rfl, ht⟩
  | @word w rest words stop hw h ih =>
    have hpush : (state.push [] w).pushAll words = state.pushAll (w :: words) := by
      simp [push, pushAll, hf, Nat.add_assoc]
    have hnil' : (state.push [] w).pushAll [] = state.push [] w := by simp [push, pushAll]
    rw [scanRest_word ht hw, ← hpush]
    exact ih ht.push rfl hnil'

/-- White space behind the last word is one more span. -/
theorem finish_eq (ht : state.Tracks line [] text) (hf : state.field = []) :
    state.finish line = { state with spans := state.spans ++ trailingSpan text } := by
  have hsize : line.byteSize = state.consumed + text.byteSize := by
    rw [ht.line_eq, ht.consumed_eq, Text.byteSize_append]
  have hstart : state.spanStart = state.consumed := by
    rw [ht.spanStart_eq, ht.consumed_eq, List.append_nil]
  have hspan : state.span line line.byteSize = text := by
    rw [hsize]
    have htext : state.Tracks line [] (text ++ []) := by rwa [List.append_nil]
    exact htext.span_eq
  rw [finish, if_neg (by simp [hf]), hspan]
  cases text with
  | nil =>
    rw [if_neg (by rw [hsize, hstart]; simp)]
    simp
  | cons c cs =>
    have := c.utf8Size_pos
    rw [if_pos (by rw [hsize, hstart, Text.byteSize_cons]; omega), trailingSpan,
      if_neg (List.cons_ne_nil c cs)]

end Splitting

open Splitting in
theorem scanRest_start (h : ReadsAs line words stop) :
    scanRest line start line = scanRest line (start.pushAll words) stop.text ∧
      (start.pushAll words).Tracks line [] stop.text :=
  scanRest_readsAs h ⟨rfl, rfl, rfl⟩ rfl

/-- The report of a line that ends in white space. -/
theorem splitReport_of_blank (h : ReadsAs line words (.blank text)) :
    splitReport line = ⟨.ok (words.map WordSpan.word),
      words.map WordSpan.span ++ trailingSpan text,
      words.flatMap WordSpan.found⟩ := by
  obtain ⟨hscan, ht⟩ := scanRest_start h
  simp only [LineEnd.text, Splitting.scanRest, scan_blank h.valid] at hscan
  simp only [splitReport, hscan, Splitting.finish_eq ht rfl]
  rfl

/-- The report of a line that ends in an unmatched quote. -/
theorem splitReport_of_unclosed {quote : Quote} {behind : Text}
    (h : ReadsAs line words (.unclosed blanks front quote behind)) :
    (splitReport line).words = .error ⟨quote,
        Text.byteSize (words.flatMap WordSpan.span ++ (blanks ++ front.flatMap Step.raw))⟩ ∧
      (splitReport line).spans = words.map WordSpan.span := by
  obtain ⟨hscan, -⟩ := scanRest_start h
  obtain ⟨hb, hf, hq⟩ := h.valid
  obtain ⟨state, hend, hspans⟩ :=
    Splitting.scanRest_unclosed line (Splitting.start.pushAll words) blanks hb hf hq
  simp only [LineEnd.text, hend] at hscan
  simp only [splitReport, hscan, hspans]
  refine ⟨?_, rfl⟩
  simp [Splitting.pushAll, Splitting.start]

/-- A line that splits ends in white space behind its words. -/
theorem exists_readsAs_of_split {ws : List Text} (h : split line = .ok ws) :
    ∃ words text, ReadsAs line words (.blank text) ∧ words.map WordSpan.word = ws := by
  obtain ⟨words, stop, hread⟩ := exists_readsAs line
  cases stop with
  | unclosed blanks front quote behind =>
    rw [split, (splitReport_of_unclosed hread).1] at h
    cases h
  | blank text =>
    rw [split, splitReport_of_blank hread] at h
    exact ⟨words, text, hread, Except.ok.inj h⟩

end CommandWords
