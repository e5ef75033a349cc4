import CommandWords.Proofs.Line.Step

/-!
# What a search for a step finds

`Production` is the grammar of the steps said without the reader: the kinds of steps, how each is
written, and what may follow it. `FirstStep` says where a text has its first step and what a search
has to tell about it.

* `production_iff`: the grammar and `Step.Before` agree.
* `Production.unique`: a text has one step of the grammar at its head at most.
* `findStep_eq_none_iff`, `findStep_classifies`: a search finds nothing exactly in white space, and
  otherwise exactly the first step of the grammar.
-/

namespace CommandWords

/-- A character that stands for itself outside quotes and separates nothing. -/
def IsPlain (c : Char) : Prop := isBlank c = false ∧ c ≠ '\\' ∧ ∀ quote : Quote, c ≠ quote.char

/-- A text that can stand between two quotes of a kind without ending there. -/
def Quote.Encloses : Quote → Text → Prop
  | .single, content => Quote.single.char ∉ content
  | .double, content => DoubleQuoted.IsContent content

/-- A step, how it is written, and a text that can follow it. -/
inductive Production : Step → Text → Text → Prop
  | word {text tail : Text} (ne_nil : text ≠ []) (plain : ∀ c ∈ text, IsPlain c)
    (ends : ∀ c ∈ tail.head?, ¬ IsPlain c) : Production (.word text) text tail
  | singleQuoted {content tail : Text} (h : Quote.single.Encloses content) :
    Production (.singleQuoted content) (Quote.single.char :: content ++ [Quote.single.char]) tail
  | doubleQuoted {content tail : Text} (h : Quote.double.Encloses content) :
    Production (.doubleQuoted content) (Quote.double.char :: content ++ [Quote.double.char]) tail
  | escaped {c : Char} {tail : Text} (h : c ≠ '\n') : Production (.escaped (some c)) ['\\', c] tail
  | backslash {tail : Text} (h : ∀ c ∈ tail.head?, c = '\n') : Production (.escaped none) ['\\'] tail
  /-- Nothing in the text behind the quote closes it. -/
  | unclosed {quote : Quote} {tail : Text}
    (h : ∀ content behind, quote.Encloses content → tail ≠ content ++ quote.char :: behind) :
    Production (.unclosed quote) [quote.char] tail

variable {s raw raw' tail tail' separator rest : Text} {step step' : Step}
  {found : Found StepMatch}

theorem isPlain_iff {c : Char} : IsPlain c ↔ endsWord c = false := by
  simp only [IsPlain, endsWord, Bool.or_eq_false_iff, beq_eq_false_iff_ne]
  constructor
  · rintro ⟨hb, hs, hq⟩
    exact ⟨⟨⟨hb, hs⟩, hq .single⟩, hq .double⟩
  · rintro ⟨⟨⟨hb, hs⟩, hsingle⟩, hdouble⟩
    exact ⟨hb, hs, fun quote => by cases quote <;> assumption⟩

theorem closeSingle?_eq_none_iff_forall : closeSingle? s = none ↔
    ∀ content behind, Quote.single.Encloses content → s ≠ content ++ Quote.single.char :: behind := by
  constructor
  · rintro h content behind hc rfl
    rw [closeSingle?_append hc] at h
    cases h
  · intro h
    cases hclose : closeSingle? s with
    | none => rfl
    | some parts =>
      exact absurd (eq_append_of_closeSingle? hclose) (h _ _ (not_mem_of_closeSingle? hclose))

theorem DoubleQuoted.close?_eq_none_iff_forall : close? s = none ↔
    ∀ content behind, Quote.double.Encloses content → s ≠ content ++ Quote.double.char :: behind := by
  constructor
  · rintro h content behind hc rfl
    rw [show Quote.double.char = '"' from rfl, close?_append hc] at h
    cases h
  · intro h
    cases hclose : close? s with
    | none => rfl
    | some parts =>
      exact absurd (eq_append_of_close? hclose) (h _ _ (isContent_of_close? hclose))

/-- The grammar of the steps is what reading a step asks for. -/
theorem production_iff : Production step raw tail ↔ raw = step.raw ∧ step.Before tail := by
  constructor
  · rintro (⟨hne, hplain, hends⟩ | h | h | h | h | @⟨quote, _, h⟩)
    · refine ⟨rfl, hne, fun c hc => isPlain_iff.1 (hplain c hc), fun c hc => ?_⟩
      simpa [isPlain_iff] using hends c hc
    · exact ⟨rfl, h⟩
    · exact ⟨rfl, h⟩
    · exact ⟨rfl, h⟩
    · exact ⟨rfl, h⟩
    · cases quote with
      | single => exact ⟨rfl, closeSingle?_eq_none_iff.1 (closeSingle?_eq_none_iff_forall.2 h)⟩
      | double => exact ⟨rfl, DoubleQuoted.close?_eq_none_iff_forall.2 h⟩
  · rintro ⟨rfl, h⟩
    cases step with
    | word text =>
      obtain ⟨hne, hplain, hends⟩ := h
      refine .word hne (fun c hc => isPlain_iff.2 (hplain c hc)) fun c hc => ?_
      simp [isPlain_iff, hends c hc]
    | singleQuoted content => exact .singleQuoted h
    | doubleQuoted content => exact .doubleQuoted h
    | escaped c =>
      cases c with
      | none => exact .backslash h
      | some c => exact .escaped h
    | unclosed quote =>
      cases quote with
      | single => exact .unclosed (closeSingle?_eq_none_iff_forall.1 (closeSingle?_eq_none_iff.2 h))
      | double => exact .unclosed (DoubleQuoted.close?_eq_none_iff_forall.1 h)

/-- A text has at most one step of the grammar at its head. -/
theorem Production.unique (h : Production step raw tail) (h' : Production step' raw' tail')
    (ht : raw ++ tail = raw' ++ tail') : step = step' ∧ raw = raw' ∧ tail = tail' := by
  obtain ⟨rfl, hb⟩ := production_iff.1 h
  obtain ⟨rfl, hb'⟩ := production_iff.1 h'
  have hread := Step.read?_raw_append hb
  rw [ht, Step.read?_raw_append hb'] at hread
  obtain ⟨rfl, rfl⟩ := Prod.mk.inj (Option.some.inj hread)
  exact ⟨rfl, rfl, rfl⟩

theorem Separates.separated_iff {separated : Bool} (h : Separates separator separated rest) :
    separated = true ↔ ∀ c ∈ (separator ++ rest).head?, isBlank c = true := by
  cases h with
  | blank hc => simp [hc]
  | lineEnd => simp
  | nothing hc => simp [hc]

/-- Where a text has its first step, and what a search that finds it tells: `raw` is the step,
`separator` the white space taken with it, if any, and `rest` what follows. -/
structure FirstStep (s : Text) (found : Found StepMatch) (raw separator rest : Text) : Prop where
  start_eq : found.start = 0
  /-- The offset ends the longest white space at the head of the text. -/
  offset_cut : s.splitBytes? found.value.offset = some (s.blanks, raw ++ (separator ++ rest))
  production : Production found.value.step raw (separator ++ rest)
  /-- No other step of the grammar stands there. -/
  only : ∀ step raw' tail, Production step raw' tail → raw' ++ tail = raw ++ (separator ++ rest) →
    step = found.value.step ∧ raw' = raw ∧ tail = separator ++ rest
  separates : Separates separator found.value.separated rest
  separated_iff : found.value.separated = true ↔
    ∀ c ∈ (separator ++ rest).head?, isBlank c = true
  stop_cut : s.splitBytes? found.stop = some (s.blanks ++ raw ++ separator, rest)
  stop_pos : 0 < found.stop
  stop_le : found.stop ≤ s.byteSize

theorem findStep_eq_none_iff : findStep s = none ↔ ∀ c ∈ s, isBlank c = true := by
  refine ⟨fun h => ?_, findStep_eq_none⟩
  rcases blank_or_step s with hs | ⟨blanks, step, separator, separated, rest, rfl, hb, hstep, hsep⟩
  · exact hs
  · rw [findStep_eq hb hstep hsep] at h
    cases h

/-- What the search finds is the first step of the text. -/
theorem exists_firstStep_of_findStep (h : findStep s = some found) :
    ∃ raw separator rest, FirstStep s found raw separator rest := by
  obtain ⟨blanks, step, separator, separated, rest, rfl, hb, hstep, hsep, rfl⟩ :=
    exists_parts_of_findStep h
  have hproduction : Production step step.raw (separator ++ rest) := production_iff.2 ⟨rfl, hstep⟩
  have hblanks : Text.blanks (blanks ++ (step.raw ++ (separator ++ rest))) = blanks :=
    Text.blanks_append hb (hstep.isBlank_head?_raw_append _)
  have hpos : 0 < (blanks ++ step.raw ++ separator).byteSize := by
    obtain ⟨c, cs, hr, -⟩ := hstep.raw_eq_cons
    have := c.utf8Size_pos
    simp only [hr, Text.byteSize_append, Text.byteSize_cons]
    omega
  exact ⟨step.raw, separator, rest, {
    start_eq := rfl
    offset_cut := by simp [Text.splitBytes?_eq_some_iff, hblanks]
    production := hproduction
    only := fun _ _ _ h ht => h.unique hproduction ht
    separates := hsep
    separated_iff := hsep.separated_iff
    stop_cut := by simp [Text.splitBytes?_eq_some_iff, hblanks]
    stop_pos := hpos
    stop_le := by simp }⟩

/-- The search finds the first step of a text wherever there is one. -/
theorem FirstStep.findStep_eq (h : FirstStep s found raw separator rest) :
    findStep s = some found := by
  obtain ⟨start, stop, step, offset, separated⟩ := found
  obtain ⟨hs, hoffset⟩ := Text.splitBytes?_eq_some_iff.1 h.offset_cut
  obtain ⟨-, hstop⟩ := Text.splitBytes?_eq_some_iff.1 h.stop_cut
  obtain ⟨rfl, hbefore⟩ := production_iff.1 h.production
  have hblanks : ∀ c ∈ s.blanks, isBlank c = true := fun c => Text.isBlank_of_mem_blanks
  have hfind := CommandWords.findStep_eq hblanks hbefore h.separates
  rw [List.append_assoc, List.append_assoc, ← hs, hstop, hoffset] at hfind
  rw [hfind, show start = 0 from h.start_eq]

/-- A search finds nothing exactly in white space, and otherwise the one step of the grammar behind
the white space at the head of the text, with a character of white space behind the step. -/
theorem findStep_classifies (s : Text) :
    (findStep s = none ↔ ∀ c ∈ s, isBlank c = true) ∧
      ∀ found, findStep s = some found ↔
        ∃ raw separator rest, FirstStep s found raw separator rest :=
  ⟨findStep_eq_none_iff, fun _ => ⟨exists_firstStep_of_findStep, fun ⟨_, _, _, h⟩ => h.findStep_eq⟩⟩

end CommandWords
