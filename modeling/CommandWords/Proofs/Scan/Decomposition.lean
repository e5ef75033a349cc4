import CommandWords.Proofs.Line.Classification
import CommandWords.Proofs.Scan.Walk
import CommandWords.Scan.Template

/-!
# What a scan does to a text and to its handler

A scan cuts a text into gaps and matches, and nothing of the text is lost: `Decomposes` describes
the cut, the result, and every call of finder and handler on the way.

* `scan_decomposes`: every scan whose handler never fails is of this kind, and a handler that
  answers each match with its own text gives the text back.
* `scan_handlers`: the matches do not depend on the handler, and a handler that fails cuts the scan
  off at the first match on which it fails.
-/

namespace CommandWords

variable {π σ μ ε : Type}

/-- A finder whose matches are ranges of the text it is given, between ends of characters. -/
def Finder.Fits (find : Finder π μ) : Prop :=
  ∀ p s, ∀ found ∈ (find p s).1, ∃ before range after, s = before ++ range ++ after ∧
    found.start = before.byteSize ∧ found.stop = (before ++ range).byteSize

/-- A handler that answers whatever it is asked. -/
def Handler.NeverFails (handle : Handler σ μ ε) : Prop :=
  ∀ s range value, (handle s range value).1.isOk = true

/-- The handler that answers each match with the matched text. -/
def Handler.copy : Handler σ μ ε := fun s range _ => (.ok range, s)

/-- The searches that meet occurrences one after another, in a text that ends in `last`: each is made
in what is left of the text. -/
def searchesAlong : List (Occurrence μ) → Text → List (Search μ)
  | [], _ => []
  | o :: occurrences, last =>
    ⟨o.text ++ (occurrences.flatMap Occurrence.text ++ last), some o.found⟩ ::
      searchesAlong occurrences last

/-- How the searches of a scan end: nothing is left to search, or what is left is searched for a
match once more and has none, or one that ends at its first byte. -/
inductive SearchesEnd : Text → List (Search μ) → Prop
  | used : SearchesEnd [] []
  | noMatch {last : Text} {answer : Option (Found μ)} (hne : last ≠ [])
    (h : ∀ found ∈ answer, found.stop = 0) : SearchesEnd last [⟨last, answer⟩]

/-- What a scan that succeeds does: `turns` are the matches with the gap before each and the answer
of the handler, and `last` is the text behind them. -/
structure Decomposes (find : Finder π μ) (handle : Handler σ μ ε) (p : π) (s : σ) (line : Text)
    (turns : List (Turn μ)) (last : Text) : Prop where
  line_eq : line = (turns.flatMap fun t => t.gap ++ t.range) ++ last
  result_eq : (scan find handle p s line).result =
    .ok ((turns.flatMap fun t => t.gap ++ t.replacement) ++ last)
  calls_eq : scanCalls find handle p s line = turns.map fun t => ⟨t.range, t.value, .ok t.replacement⟩
  length_calls_le : (scanCalls find handle p s line).length ≤ line.byteSize
  ne_nil : ∀ t ∈ turns, t.gap ++ t.range ≠ []
  searches_eq : ∃ final, SearchesEnd last final ∧
    scanSearches find handle p s line = searchesAlong (turns.map Turn.toOccurrence) last ++ final

variable {find : Finder π μ} {handle : Handler σ μ ε} {p : π} {s : σ} {line last : Text}
  {occurrences : List (Occurrence μ)} {made : List (Search μ)}

/-! ## Searches -/

theorem Finder.Fits.cut?_ne_none (hf : find.Fits) {found : Found μ} (h : found ∈ (find p line).1) :
    line.cut? found.start found.stop ≠ none := by
  obtain ⟨before, range, after, hl, hstart, hstop⟩ := hf p line found h
  have hcut : line.cut? found.start found.stop = some (before, range, after) :=
    Text.cut?_eq_some_iff.2 ⟨hl, hstart.symm, by rw [hstop, Text.byteSize_append]⟩
  rw [hcut]
  exact Option.some_ne_none _

/-- The searches of a walk are made in what is left behind each match. -/
theorem Walk.searches_eq (hf : find.Fits) (h : Walk find p line occurrences last made) :
    ∃ final, SearchesEnd last final ∧ made = searchesAlong occurrences last ++ final := by
  induction h with
  | used => exact ⟨[], .used, rfl⟩
  | @stop p line hne h =>
    refine ⟨_, .noMatch hne fun found hfound => ?_, rfl⟩
    exact (h found hfound).resolve_right (hf.cut?_ne_none hfound)
  | turn _ _ h ih =>
    obtain ⟨final, hfinal, hmade⟩ := ih
    exact ⟨final, hfinal, by rw [searchesAlong, hmade, ← h.line_eq, List.cons_append]⟩

theorem findStep_fits : (Finder.ofFunction findStep).Fits := by
  intro _ s found h
  obtain ⟨raw, separator, rest, hstep⟩ := exists_firstStep_of_findStep h
  obtain ⟨hs, hsize⟩ := Text.splitBytes?_eq_some_iff.1 hstep.stop_cut
  exact ⟨[], s.blanks ++ raw ++ separator, rest, hs, hstep.start_eq, hsize.symm⟩

/-! ## Answers -/

theorem Handler.NeverFails.isOk_answers (hh : handle.NeverFails) (s : σ)
    (matched : List (Text × μ)) : ∀ a ∈ handle.answers s matched, a.isOk = true := by
  induction matched generalizing s with
  | nil => simp [Handler.answers]
  | cons m matched ih =>
    rw [Handler.answers, List.forall_mem_cons]
    exact ⟨hh s m.1 m.2, ih _⟩

/-- Matches that a handler answers, with the answers. -/
theorem exists_turns (h : ∀ a ∈ handle.answers s (occurrences.map Occurrence.matched),
      a.isOk = true) :
    ∃ turns : List (Turn μ), turns.map Turn.toOccurrence = occurrences ∧
      handle.answers s (turns.map fun t => t.matched) = turns.map fun t => .ok t.replacement := by
  induction occurrences generalizing s with
  | nil => exact ⟨[], rfl, rfl⟩
  | cons o occurrences ih =>
    rw [List.map_cons, Handler.answers_cons, List.forall_mem_cons] at h
    obtain ⟨replacement, ha⟩ := exists_eq_ok_of_isOk h.1
    obtain ⟨turns, rfl, hturns⟩ := ih h.2
    refine ⟨⟨o, replacement⟩ :: turns, rfl, ?_⟩
    rw [List.map_cons, Handler.answers_cons, ha, hturns, List.map_cons]

/-- Either a handler answers each match or there is a first one on which it fails. -/
theorem isOk_or_exists_error (answers : List (Except ε Text)) :
    (∀ a ∈ answers, a.isOk = true) ∨
      ∃ (j : Nat) (e : ε), answers[j]? = some (.error e) ∧ ∀ a ∈ answers.take j, a.isOk = true := by
  induction answers with
  | nil => simp
  | cons a answers ih =>
    cases a with
    | error e => exact .inr ⟨0, e, rfl, by simp⟩
    | ok replacement =>
      rcases ih with h | ⟨j, e, hj, h⟩
      · exact .inl (List.forall_mem_cons.2 ⟨rfl, h⟩)
      · exact .inr ⟨j + 1, e, hj, List.forall_mem_cons.2 ⟨rfl, h⟩⟩

/-! ## Scans -/

theorem scan_result_eq (h : Walk find p line occurrences last made) :
    (scan find handle p s line).result =
      (scan find.recorded handle.recorded (p, []) (s, []) line).result := by
  rw [h.scan_recorded handle s [] []]

/-- A handler that never fails is called with every match of a walk. -/
theorem Walk.map_matched_scanCalls (h : Walk find p line occurrences last made)
    (hh : handle.NeverFails) (s : σ) :
    (scanCalls find handle p s line).map Call.matched = occurrences.map Occurrence.matched := by
  obtain ⟨turns, rfl, ha⟩ := exists_turns (hh.isOk_answers s (occurrences.map Occurrence.matched))
  obtain ⟨-, -, hcalls⟩ := h.scan_ok ha [] []
  rw [scanCalls, hcalls]
  simp [Turn.call, Call.matched, Occurrence.matched]

/-- Each turn takes a part of the text, so that there are no more turns than bytes. -/
theorem length_le_byteSize_flatMap {turns : List (Turn μ)} (h : ∀ t ∈ turns, t.text ≠ []) :
    turns.length ≤ Text.byteSize (turns.flatMap fun t => t.text) := by
  induction turns with
  | nil => simp
  | cons t turns ih =>
    rw [List.forall_mem_cons] at h
    have hlength := List.length_pos_iff.2 h.1
    have hsize := Text.length_le_byteSize t.text
    have := ih h.2
    simp only [List.flatMap_cons, Text.byteSize_append, List.length_cons]
    omega

theorem Walk.exists_decomposes (hf : find.Fits) (h : Walk find p line occurrences last made)
    (hok : ∀ a ∈ handle.answers s (occurrences.map Occurrence.matched), a.isOk = true) :
    ∃ turns, Decomposes find handle p s line turns last := by
  obtain ⟨turns, rfl, ha⟩ := exists_turns hok
  obtain ⟨hresult, hmade, hcalls⟩ := h.scan_ok ha [] []
  obtain ⟨final, hfinal, hsearches⟩ := h.searches_eq hf
  have hline : line = (turns.flatMap fun t => t.text) ++ last := by
    rw [h.line_eq, List.flatMap_map]
  have hne : ∀ t ∈ turns, t.text ≠ [] := fun t ht => h.text_ne_nil _ (List.mem_map_of_mem ht)
  rw [List.nil_append] at hmade hcalls
  exact ⟨turns, {
    line_eq := hline
    result_eq := by rw [scan_result_eq h, hresult]; rfl
    calls_eq := hcalls
    length_calls_le := by
      have := length_le_byteSize_flatMap hne
      rw [scanCalls, hcalls, List.length_map, hline, Text.byteSize_append]
      omega
    ne_nil := hne
    searches_eq := ⟨final, hfinal, by rw [scanSearches, hmade, hsearches]⟩ }⟩

/-- Answering each match with its own text gives the text back. -/
theorem Walk.scan_copy (h : Walk find p line occurrences last made) (s : σ) :
    (scan find (Handler.copy : Handler σ μ ε) p s line).result = .ok line := by
  induction h with
  | used => rw [scan_nil]
  | stop hne h => rw [scan_stop hne h]
  | turn hne hf _ ih =>
    rw [scan_turn hne hf, Handler.copy]
    dsimp only
    rw [ih]
    rfl

/-- A scan whose handler never fails loses nothing of the text: it cuts the text into gaps and
matches, hands each match to the handler, and ends where no match takes part of what is left. With
the matches as their own answers it gives the text back, also when it scans for steps. -/
theorem scan_decomposes (hf : find.Fits) (hh : handle.NeverFails) (p : π) (s : σ) (line : Text) :
    (∃ turns last, Decomposes find handle p s line turns last) ∧
      (scan find (Handler.copy : Handler Unit μ ε) p () line).result = .ok line ∧
      ∀ text, (scan (.ofFunction findStep) (Handler.copy : Handler Unit StepMatch ε) () () text).result =
        .ok text := by
  obtain ⟨occurrences, last, made, h⟩ := exists_walk find p line
  obtain ⟨turns, hturns⟩ := h.exists_decomposes hf (hh.isOk_answers s _)
  refine ⟨⟨turns, last, hturns⟩, h.scan_copy (), fun text => ?_⟩
  obtain ⟨_, _, _, hsteps⟩ := exists_walk (.ofFunction findStep) () text
  exact hsteps.scan_copy ()

/-- Steps replaced by a template, in a line that ends in an unmatched quote and white space. -/
theorem scan_decomposes_steps :
    (Finder.ofFunction findStep).Fits ∧
      Handler.NeverFails (substitute "<&>".toList none : Handler (List (Text × StepMatch)) _ _) ∧
      ∃ turns last, Decomposes (.ofFunction findStep) (substitute "<&>".toList none) () []
        " a'b c' \"\\\"\u3000 ".toList turns last := by
  have hh : Handler.NeverFails
      (substitute "<&>".toList none : Handler (List (Text × StepMatch)) _ _) := fun _ _ _ => rfl
  exact ⟨findStep_fits, hh, (scan_decomposes findStep_fits hh _ _ _).1⟩

/-- Which matches a scan meets does not depend on its handler: `matched` are the calls of every
handler that never fails. A handler that fails on one of them is called with the matches up to the
first such one, its error is the result, and nothing is searched behind that match; without such a
match the scan succeeds. -/
theorem scan_handlers (find : Finder π μ) (p : π) (line : Text) :
    ∃ (matched : List (Text × μ)) (made : List (Search μ)),
      ∀ (σ ε : Type) (handle : Handler σ μ ε) (s : σ),
        (handle.NeverFails →
          (scanCalls find handle p s line).map Call.matched = matched ∧
            scanSearches find handle p s line = made) ∧
        (∀ j e, (handle.answers s matched)[j]? = some (.error e) →
          (∀ a ∈ (handle.answers s matched).take j, a.isOk = true) →
          (scan find handle p s line).result = .error e ∧
            (scanCalls find handle p s line).map Call.matched = matched.take (j + 1) ∧
            scanSearches find handle p s line = made.take (j + 1)) ∧
        ((scan find handle p s line).result.isOk = true ↔
          ∀ a ∈ handle.answers s matched, a.isOk = true) := by
  obtain ⟨occurrences, last, made, h⟩ := exists_walk find p line
  refine ⟨occurrences.map Occurrence.matched, made, fun σ ε handle s => ⟨fun hh => ?_, ?_, ?_⟩⟩
  · obtain ⟨turns, rfl, ha⟩ := exists_turns (hh.isOk_answers s (occurrences.map Occurrence.matched))
    obtain ⟨-, hmade, hcalls⟩ := h.scan_ok ha [] []
    rw [scanCalls, scanSearches, hmade, hcalls]
    simp [Turn.call, Call.matched, Occurrence.matched]
  · intro j e hj hok
    obtain ⟨hresult, hmade, called, hcalled, hmatched⟩ := h.scan_error hj hok [] []
    rw [scan_result_eq h, scanCalls, scanSearches, hresult, hmade, hcalled]
    exact ⟨rfl, hmatched, rfl⟩
  · rcases isOk_or_exists_error (handle.answers s (occurrences.map Occurrence.matched)) with
      hok | ⟨j, e, hj, hok⟩
    · obtain ⟨turns, rfl, ha⟩ := exists_turns hok
      rw [scan_result_eq h, (h.scan_ok ha [] []).1]
      exact ⟨fun _ => hok, fun _ => rfl⟩
    · rw [scan_result_eq h, (h.scan_error hj hok [] []).1]
      have herror : (Except.error e : Except ε Text).isOk ≠ true := Bool.false_ne_true
      exact ⟨fun hfalse => absurd hfalse herror,
        fun hall => absurd (hall _ (List.mem_of_getElem? hj)) herror⟩

end CommandWords
