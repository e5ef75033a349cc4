import CommandWords.Proofs.Line.Classification
import CommandWords.Proofs.Line.Reading
import CommandWords.Proofs.Scan.Loop
import Mathlib.Data.List.DropRight

/-!
# The loop of the splitting

Between two steps the splitting of a line has counted the bytes up to the part that is left, and
has put together a word exactly if it has read on since the last finished one; then the next step
follows at once. `Splitting.Stands` says so of the texts behind the counts, a turn keeps it
(`Splitting.Stands.turn`), and `BetweenSteps` is what it says of the counts themselves.

* `TurnsTo.exists_readsStep`: the step that a turn reads.
* `splitting_loop`: the invariant at every point between two steps, and what follows from it: all
  slices of the line exist, no word is left over at the end, and an empty word comes from an empty
  pair of quotes alone.
-/

namespace CommandWords

variable {line pending rest : Text} {state : Splitting} {point next : ScanPoint Unit Splitting}
  {o : Occurrence StepMatch}

/-- The points that the splitting of a line comes to between two steps. -/
def SplitsTo (line : Text) (point : ScanPoint Unit Splitting) : Prop :=
  Reaches (.ofFunction findStep) (Splitting.step line) ⟨(), .start, line⟩ point

/-- One step of the splitting of a line. -/
abbrev SplitTurn (line : Text) :
    ScanPoint Unit Splitting → Occurrence StepMatch → ScanPoint Unit Splitting → Prop :=
  TurnsTo (.ofFunction findStep) (Splitting.step line)

/-- Whether a step ends its word. -/
def StepMatch.endsItsWord (found : StepMatch) : Bool := found.separated || found.step.isEmptyQuotes

/-- The steps of the word being put together: those behind the last one that ended a word. -/
def Splitting.openSteps (state : Splitting) : List Step :=
  (state.steps.rtakeWhile (!·.endsItsWord)).map StepMatch.step

/-- The invariant of the loop. -/
structure BetweenSteps (line : Text) (state : Splitting) (rest : Text) : Prop where
  consumed_add : state.consumed + rest.byteSize = line.byteSize
  spanStart_le : state.spanStart ≤ state.consumed
  /-- A character ends at the byte behind the last finished word. -/
  spanStart_cut : (line.splitBytes? state.spanStart).isSome
  consumed_cut : (line.splitBytes? state.consumed).isSome
  field_eq_nil_iff : state.field = [] ↔ state.spanStart = state.consumed
  rest_eq_cons : state.field ≠ [] → ∃ c cs, rest = c :: cs ∧ isBlank c = false

/-- The slices that are taken next are parts of their texts: the match and what is around it, and
the span of a word that ends with this match or with the line. -/
structure SlicesFit (line : Text) (state : Splitting) (rest : Text) : Prop where
  next_match : ∀ found ∈ findStep rest, ∃ gap raw behind,
    rest.cut? found.start found.stop = some (gap, raw, behind) ∧
      (line.slice? state.spanStart (state.consumed + raw.byteSize)).isSome
  line_end : (line.slice? state.spanStart line.byteSize).isSome

/-- What a turn makes of the steps of a word: they stay open, or the word that they give is
finished. It is empty exactly if they are one empty pair of quotes. -/
inductive JoinsOrFinishes (before after : Splitting) (steps : List Step) : Prop
  | joins (words_eq : after.words = before.words) (openSteps_eq : after.openSteps = steps)
  | finishes {token : Text} (words_eq : after.words = before.words ++ [token])
    (openSteps_eq : after.openSteps = []) (token_eq : token = steps.flatMap Step.text)
    (token_eq_nil_iff : token = [] ↔ ∃ step, steps = [step] ∧ step.isEmptyQuotes = true)

/-! ## The step that a turn reads -/

/-- Where a search finds a step. -/
structure ReadsStep (text : Text) (found : Found StepMatch) (blanks : Text) (step : Step)
    (separator : Text) (separated : Bool) (rest : Text) : Prop where
  text_eq : text = blanks ++ step.raw ++ separator ++ rest
  value_eq : found.value = ⟨step, blanks.byteSize, separated⟩
  cut_eq : text.cut? found.start found.stop = some ([], blanks ++ step.raw ++ separator, rest)
  before : step.Before (separator ++ rest)
  separates : Separates separator separated rest

theorem exists_readsStep {text : Text} {found : Found StepMatch}
    (h : findStep text = some found) : ∃ blanks step separator separated rest,
      ReadsStep text found blanks step separator separated rest := by
  obtain ⟨blanks, step, separator, separated, rest, htext, -, hstep, hs, rfl⟩ :=
    exists_parts_of_findStep h
  refine ⟨blanks, step, separator, separated, rest, htext, rfl, ?_, hstep, hs⟩
  exact Text.cut?_eq_some_iff.2 ⟨htext, rfl, by simp⟩

/-- The match of a turn is a step with the white space around it. -/
theorem TurnsTo.exists_readsStep {σ ε : Type} {handle : Handler σ StepMatch ε}
    {a b : ScanPoint Unit σ} (h : TurnsTo (.ofFunction findStep) handle a o b) :
    ∃ blanks step separator separated,
      ReadsStep a.rest o.found blanks step separator separated b.rest ∧
        o.range = blanks ++ step.raw ++ separator := by
  cases h with
  | @turn _ _ _ o rest _ _ hf _ =>
    obtain ⟨blanks, step, separator, separated, behind, hreads⟩ := CommandWords.exists_readsStep hf
    have hcut : (o.text ++ rest).cut? o.found.start o.found.stop = some (o.gap, o.range, rest) :=
      Text.cut?_eq_some_iff.2 ⟨rfl, rfl, rfl⟩
    obtain ⟨-, hrange, rfl⟩ : o.gap = [] ∧ o.range = blanks ++ step.raw ++ separator ∧
        rest = behind := by
      simpa only [hcut, Option.some.injEq, Prod.mk.injEq] using hreads.cut_eq
    exact ⟨blanks, step, separator, separated, hreads, hrange⟩

/-! ## The invariant -/

namespace Splitting

/-- Where a splitting stands between two steps: `pending` is the part of the line behind the last
finished word that has been read. -/
structure Stands (state : Splitting) (line pending rest : Text) : Prop where
  tracks : state.Tracks line pending rest
  pending_eq_nil_iff : pending = [] ↔ state.field = []
  separates : state.field ≠ [] → Separates [] false rest
  field_eq : state.field = state.openSteps.flatMap Step.text
  text_ne_nil : ∀ step ∈ state.openSteps, step.text ≠ []

theorem stands_start (line : Text) : start.Stands line [] line where
  tracks := ⟨rfl, rfl, rfl⟩
  pending_eq_nil_iff := by simp [start]
  separates h := absurd rfl h
  field_eq := rfl
  text_ne_nil := by simp [openSteps, start]

theorem openSteps_join (state : Splitting) (blanks : Text) {step : Step}
    (he : step.isEmptyQuotes = false) :
    (state.join blanks step).openSteps = state.openSteps ++ [step] := by
  simp [openSteps, join, StepMatch.endsItsWord, he]

theorem openSteps_push (state : Splitting) (pending blanks separator : Text) {step : Step}
    {separated : Bool} (he : separated = true ∨ step.isEmptyQuotes = true) :
    (state.push pending ⟨blanks, [], step, separator, separated⟩).openSteps = [] := by
  have hends : separated = false → step.isEmptyQuotes = true := fun hs => by simpa [hs] using he
  simpa [openSteps, push, WordSpan.found, WordSpan.foundFrom, List.rtakeWhile_concat,
    StepMatch.endsItsWord] using hends

variable {blanks separator : Text} {step : Step} {separated : Bool}

theorem Stands.join (h : state.Stands line pending (blanks ++ step.raw ++ rest))
    (hstep : step.Before rest) (hc : step.isClosed = true) (he : step.isEmptyQuotes = false)
    (hs : Separates [] false rest) :
    (state.join blanks step).Stands line (pending ++ (blanks ++ step.raw)) rest where
  tracks := h.tracks.join
  pending_eq_nil_iff := by
    obtain ⟨c, cs, hraw, -⟩ := hstep.raw_eq_cons
    simp [Splitting.join, hraw, hstep.text_ne_nil hc he]
  separates _ := hs
  field_eq := by
    rw [openSteps_join state blanks he, Splitting.join, List.flatMap_append, ← h.field_eq]
    simp
  text_ne_nil := by
    rw [openSteps_join state blanks he, List.forall_mem_append, List.forall_mem_singleton]
    exact ⟨h.text_ne_nil, hstep.text_ne_nil hc he⟩

theorem Stands.push (h : state.Stands line pending (blanks ++ step.raw ++ separator ++ rest))
    (he : separated = true ∨ step.isEmptyQuotes = true) :
    (state.push pending ⟨blanks, [], step, separator, separated⟩).Stands line [] rest where
  tracks := by
    refine Tracks.push ?_
    simpa [WordSpan.span, WordSpan.steps] using h.tracks
  pending_eq_nil_iff := by simp [Splitting.push]
  separates h := absurd rfl h
  field_eq := by rw [openSteps_push state pending blanks separator he]; rfl
  text_ne_nil := by rw [openSteps_push state pending blanks separator he]; simp

/-- A word put together with one more step is empty only if that step is an empty pair of quotes
and the only one of the word. -/
theorem Stands.append_text_eq_nil_iff (h : state.Stands line pending rest) {t : Text}
    (hstep : step.Before t) (hc : step.isClosed = true) :
    state.field ++ step.text = [] ↔
      ∃ step', state.openSteps ++ [step] = [step'] ∧ step'.isEmptyQuotes = true := by
  have htext : step.text = [] ↔ step.isEmptyQuotes = true := by
    constructor
    · intro hnil
      by_contra he
      exact hstep.text_ne_nil hc (by simpa using he) hnil
    · intro he
      cases step with
      | singleQuoted content =>
        obtain rfl : content = [] := by simpa [Step.isEmptyQuotes] using he
        rfl
      | doubleQuoted content =>
        obtain rfl : content = [] := by simpa [Step.isEmptyQuotes] using he
        rfl
      | word | escaped | unclosed => cases he
  have hopen : state.field = [] ↔ state.openSteps = [] := by
    rw [h.field_eq, List.flatMap_eq_nil_iff, List.eq_nil_iff_forall_not_mem]
    exact forall_congr' fun step => ⟨fun hs hmem => h.text_ne_nil step hmem (hs hmem),
      fun hs hmem => absurd hmem hs⟩
  rw [List.append_eq_nil_iff, htext, hopen]
  constructor
  · rintro ⟨hnil, he⟩
    exact ⟨step, by rw [hnil, List.nil_append], he⟩
  · rintro ⟨step', hsteps, he⟩
    obtain ⟨hnil, hlast⟩ := List.append_inj' (hsteps.trans (List.nil_append [step']).symm) rfl
    exact ⟨hnil, List.singleton_inj.1 hlast ▸ he⟩

/-- A turn joins its step to the word or finishes the word with it. -/
theorem Stands.turn (h : point.handler.Stands line pending point.rest)
    (hturn : SplitTurn line point o next) :
    (∃ pending', next.handler.Stands line pending' next.rest) ∧
      JoinsOrFinishes point.handler next.handler
        (point.handler.openSteps ++ [o.value.step]) := by
  obtain ⟨blanks, step, separator, separated, hreads, hrange⟩ := hturn.exists_readsStep
  cases hturn with
  | @turn _ state state' o rest replacement _ _ ha =>
    obtain ⟨htext, hvalue, -, hstep, hs⟩ := hreads
    have hvalue : o.value = ⟨step, blanks.byteSize, separated⟩ := hvalue
    dsimp only at h htext hstep hs ⊢
    rw [htext] at h
    rw [hrange, hvalue] at ha
    rw [hvalue]
    cases hc : step.isClosed with
    | false =>
      obtain ⟨quote, rfl⟩ : ∃ quote, step = .unclosed quote := by
        cases step <;> simp [Step.isClosed] at hc ⊢
      cases (Prod.mk.inj ha).1
    | true =>
      by_cases he : separated = true ∨ step.isEmptyQuotes = true
      · rw [step_eq_push h.tracks hc he] at ha
        obtain ⟨-, rfl⟩ := Prod.mk.inj ha
        refine ⟨⟨[], h.push he⟩, .finishes ?_ (openSteps_push state pending blanks separator he)
          ?_ (h.append_text_eq_nil_iff hstep hc)⟩
        · simp [Splitting.push, WordSpan.word, WordSpan.steps]
        · simp [h.field_eq]
      · simp only [not_or, Bool.not_eq_true] at he
        obtain ⟨rfl, he⟩ := he
        obtain rfl : separator = [] := by cases hs; rfl
        rw [List.append_nil, step_eq_join line state blanks hc he] at ha
        obtain ⟨-, rfl⟩ := Prod.mk.inj ha
        rw [List.append_nil] at h
        exact ⟨⟨_, h.join hstep hc he hs⟩, .joins rfl (openSteps_join state blanks he)⟩

end Splitting

/-- The splitting of a line stands somewhere at each point that it comes to. -/
theorem SplitsTo.stands (h : SplitsTo line point) :
    ∃ pending, point.handler.Stands line pending point.rest := by
  induction h with
  | refl => exact ⟨[], Splitting.stands_start line⟩
  | tail _ hturn ih =>
    obtain ⟨o, hturn⟩ := hturn
    obtain ⟨pending, hstands⟩ := ih
    exact (hstands.turn hturn).1

/-! ## What follows at a point -/

namespace Splitting

theorem Stands.betweenSteps (h : state.Stands line pending rest) :
    BetweenSteps line state rest where
  consumed_add := by rw [h.tracks.line_eq, h.tracks.consumed_eq, ← Text.byteSize_append]
  spanStart_le := by
    rw [h.tracks.spanStart_eq, h.tracks.consumed_eq, Text.byteSize_append]
    exact Nat.le_add_right _ _
  spanStart_cut := by
    rw [h.tracks.spanStart_eq, h.tracks.line_eq, List.append_assoc, Text.splitBytes?_append]
    rfl
  consumed_cut := by
    rw [h.tracks.consumed_eq, h.tracks.line_eq, Text.splitBytes?_append]
    rfl
  field_eq_nil_iff := by
    rw [← h.pending_eq_nil_iff, h.tracks.spanStart_eq, h.tracks.consumed_eq, Text.byteSize_append]
    cases pending with
    | nil => simp
    | cons c cs =>
      have := c.utf8Size_pos
      simp only [List.cons_ne_nil, Text.byteSize_cons, false_iff]
      omega
  rest_eq_cons hne := by
    cases h.separates hne with
    | nothing hc => exact ⟨_, _, rfl, hc⟩

theorem Stands.slicesFit (h : state.Stands line pending rest) : SlicesFit line state rest where
  next_match found hfound := by
    obtain ⟨blanks, step, separator, separated, behind, hreads⟩ := exists_readsStep hfound
    refine ⟨[], blanks ++ step.raw ++ separator, behind, hreads.cut_eq, ?_⟩
    have htracks : state.Tracks line pending (blanks ++ step.raw ++ separator ++ behind) :=
      hreads.text_eq ▸ h.tracks
    rw [htracks.slice?_eq]
    rfl
  line_end := by
    have htracks : state.Tracks line pending (rest ++ []) := by
      rw [List.append_nil]
      exact h.tracks
    rw [← h.betweenSteps.consumed_add, htracks.slice?_eq]
    rfl

end Splitting

/-- White space is left where nothing more is found, so that no word is open there. -/
theorem SplitsTo.field_eq_nil (h : SplitsTo line point)
    (hend : point.IsEnd (.ofFunction findStep)) : point.handler.field = [] := by
  obtain ⟨pending, hstands⟩ := h.stands
  by_contra hne
  obtain ⟨c, cs, hrest, hc⟩ := hstands.betweenSteps.rest_eq_cons hne
  have hstop := hend.resolve_left (by simp [hrest])
  cases hfound : findStep point.rest with
  | none =>
    have hblank := findStep_eq_none_iff.1 hfound c (by simp [hrest])
    rw [hc] at hblank
    cases hblank
  | some found =>
    obtain ⟨blanks, step, separator, separated, behind, hreads⟩ := exists_readsStep hfound
    obtain ⟨d, ds, hraw, -⟩ := hreads.before.raw_eq_cons
    have := d.utf8Size_pos
    rcases hstop found hfound with hzero | hnone
    · have hsize := (Text.cut?_eq_some_iff.1 hreads.cut_eq).2.2
      simp only [hzero, hraw, Text.byteSize_append, Text.byteSize_cons] at hsize
      omega
    · rw [hreads.cut_eq] at hnone
      cases hnone

theorem Splitting.words_finish (h : state.field = []) (line : Text) :
    (state.finish line).words = state.words := by
  rw [finish, if_neg (not_not_intro h)]
  split <;> rfl

/-- At every point between two steps the splitting of a line has counted right and has a word open
exactly if it has read on since the last one, and then the next step follows at once. So every slice
it takes exists; a step that finishes a word gives an empty one exactly if the word is this step, an
empty pair of quotes; and when the line has been read no word is left over. -/
theorem splitting_loop (line : Text) :
    (∀ point, SplitsTo line point →
      BetweenSteps line point.handler point.rest ∧ SlicesFit line point.handler point.rest ∧
        ∀ o next, SplitTurn line point o next →
          JoinsOrFinishes point.handler next.handler
            (point.handler.openSteps ++ [o.value.step])) ∧
    ∀ text, (Splitting.scanRest line .start line).result = .ok text →
      (Splitting.scanRest line .start line).handler.field = [] ∧
        ((Splitting.scanRest line .start line).handler.finish line).words =
          (Splitting.scanRest line .start line).handler.words := by
  refine ⟨fun point h => ?_, fun text htext => ?_⟩
  · obtain ⟨pending, hstands⟩ := h.stands
    exact ⟨hstands.betweenSteps, hstands.slicesFit, fun o next hturn => (hstands.turn hturn).2⟩
  · obtain ⟨last, hlast, hend⟩ :=
      exists_last_point (.ofFunction findStep) (Splitting.step line) () .start line
    have hend := hend.resolve_right fun ⟨e, he⟩ => by
      rw [Splitting.scanRest, he] at htext
      cases htext
    have hstate : (Splitting.scanRest line .start line).handler = last.handler := by
      obtain ⟨done, hscan⟩ := Reaches.scan_eq hlast
      have hhandler := congrArg Scanned.handler hscan
      exact hhandler.trans hend.scan_eq.2
    have hfield : last.handler.field = [] := SplitsTo.field_eq_nil hlast hend
    rw [hstate]
    exact ⟨hfield, Splitting.words_finish hfield line⟩

/-- Behind the first of two steps of a word, which is not empty though the second is an empty pair
of quotes. -/
theorem splitting_loop_joined :
    SplitsTo "é''b".toList
      ⟨(), ⟨[], ['é'], 0, 2, [], [⟨.word ['é'], 0, false⟩]⟩, "''b".toList⟩ ∧
    BetweenSteps "é''b".toList ⟨[], ['é'], 0, 2, [], [⟨.word ['é'], 0, false⟩]⟩ "''b".toList := by
  have hpoint : SplitsTo "é''b".toList
      ⟨(), ⟨[], ['é'], 0, 2, [], [⟨.word ['é'], 0, false⟩]⟩, "''b".toList⟩ := by
    let o : Occurrence StepMatch := ⟨[], ['é'], ⟨.word ['é'], 0, false⟩⟩
    have hfound : findStep (o.text ++ "''b".toList) = some o.found := by decide
    have hne : o.text ≠ [] := List.cons_ne_nil _ _
    exact .tail .refl ⟨o, .turn hne hfound rfl⟩
  exact ⟨hpoint, ((splitting_loop _).1 _ hpoint).1⟩

end CommandWords
