import CommandWords.Proofs.Line.RoundTrip
import CommandWords.Proofs.Scan.Decomposition

/-!
# The steps of a spelled value

Which steps a scan finds in the spelling of a value can be said of the value alone (`SpelledBy`): each
longest run of bare characters is a word, each newline stands between single quotes, and each other
character has a backslash. No step reaches into the characters of the next one.

* `spelledBy_iff`: every value is spelled by one sequence of steps.
* `Step.Joined.exists_walk`: a scan of steps that follow each other at once finds these steps.
* `scanCalls_escape`: the steps that a scan of a spelling hands to its handler.
-/

namespace CommandWords

/-- The characters that stand bare in a spelling. -/
def bareCharacters : Text :=
  "ABCDEFGHIJKLMNOPQRSTUVWXYZabcdefghijklmnopqrstuvwxyz0123456789_-.,:/@".toList

/-- The steps that spell a value, in the order of its characters. -/
inductive SpelledBy : Text → List Step → Prop
  | nil : SpelledBy [] []
  /-- The run does not go on: it is a longest one, since a run never follows another. -/
  | run {text rest : Text} {steps : List Step} (ne_nil : text ≠ [])
    (bare : ∀ c ∈ text, c ∈ bareCharacters) (ends : ∀ c ∈ rest.head?, c ∉ bareCharacters)
    (h : SpelledBy rest steps) : SpelledBy (text ++ rest) (.word text :: steps)
  | newline {rest : Text} {steps : List Step} (h : SpelledBy rest steps) :
    SpelledBy ('\n' :: rest) (.singleQuoted ['\n'] :: steps)
  | escaped {c : Char} {rest : Text} {steps : List Step} (not_bare : c ∉ bareCharacters)
    (not_newline : c ≠ '\n') (h : SpelledBy rest steps) :
    SpelledBy (c :: rest) (.escaped (some c) :: steps)

variable {c : Char} {value rest : Text} {front steps : List Step} {last : Step}

theorem newline_not_mem_bareCharacters : '\n' ∉ bareCharacters := by decide

theorem isSafe_iff_mem (hc : c ≠ '\n') : isSafe c = true ↔ c ∈ bareCharacters := by
  have hsafe : bareCharacters.all isSafe = true := by decide
  refine ⟨fun h => ?_, List.all_eq_true.1 hsafe c⟩
  exact forall_isSafe (p := fun c => c ≠ '\n' → c ∈ bareCharacters) (by decide +kernel) h hc

/-! ## The steps of a value -/

theorem SpelledBy.consPlain (hc : c ∈ bareCharacters) (h : SpelledBy rest steps) :
    SpelledBy (c :: rest) (consPlain c steps) := by
  have hone : ∀ d ∈ [c], d ∈ bareCharacters := by simpa using hc
  cases h with
  | nil => exact .run (List.cons_ne_nil c []) hone (by simp) .nil
  | @run text rest steps _ bare ends h =>
    exact .run (List.cons_ne_nil c text) (List.forall_mem_cons.2 ⟨hc, bare⟩) ends h
  | newline h =>
    exact .run (List.cons_ne_nil c []) hone (by simpa using newline_not_mem_bareCharacters)
      (.newline h)
  | escaped not_bare not_newline h =>
    exact .run (List.cons_ne_nil c []) hone (by simpa using not_bare)
      (.escaped not_bare not_newline h)

theorem spelledBy_escapeSteps (value : Text) : SpelledBy value (escapeSteps value) := by
  induction value with
  | nil => exact .nil
  | cons c cs ih =>
    rw [escapeSteps]
    split_ifs with hc hs
    · exact hc ▸ .newline ih
    · exact ih.consPlain ((isSafe_iff_mem hc).1 hs)
    · exact .escaped (mt (isSafe_iff_mem hc).2 hs) hc ih

/-- Before a character that does not stand bare no run goes on. -/
theorem consPlain_escapeSteps (c : Char) (ends : ∀ d ∈ rest.head?, d ∉ bareCharacters) :
    consPlain c (escapeSteps rest) = .word [c] :: escapeSteps rest := by
  cases rest with
  | nil => rfl
  | cons d ds =>
    rw [escapeSteps]
    split_ifs with hnewline hsafe
    · rfl
    · exact absurd ((isSafe_iff_mem hnewline).1 hsafe) (ends d rfl)
    · rfl

theorem escapeSteps_run {text : Text} (ne_nil : text ≠ [])
    (bare : ∀ c ∈ text, c ∈ bareCharacters) (ends : ∀ c ∈ rest.head?, c ∉ bareCharacters) :
    escapeSteps (text ++ rest) = .word text :: escapeSteps rest := by
  induction text with
  | nil => exact absurd rfl ne_nil
  | cons c cs ih =>
    rw [List.forall_mem_cons] at bare
    have hnewline : c ≠ '\n' := by
      rintro rfl
      exact newline_not_mem_bareCharacters bare.1
    rw [List.cons_append, escapeSteps, if_neg hnewline,
      if_pos ((isSafe_iff_mem hnewline).2 bare.1)]
    cases cs with
    | nil => exact consPlain_escapeSteps c ends
    | cons d ds => rw [ih (List.cons_ne_nil d ds) bare.2]; rfl

/-- A value is spelled by exactly one sequence of steps. -/
theorem spelledBy_iff : SpelledBy value steps ↔ steps = escapeSteps value := by
  constructor
  · intro h
    induction h with
    | nil => rfl
    | run ne_nil bare ends _ ih => rw [ih, escapeSteps_run ne_nil bare ends]
    | newline _ ih => rw [ih, escapeSteps, if_pos rfl]
    | escaped not_bare not_newline _ ih =>
      rw [ih, escapeSteps, if_neg not_newline, if_neg (mt (isSafe_iff_mem not_newline).1 not_bare)]
  · rintro rfl
    exact spelledBy_escapeSteps value

/-- What a spelling is made of: runs, escaped characters other than newlines, and quoted newlines. -/
theorem SpelledBy.forms (h : SpelledBy value steps) : ∀ step ∈ steps,
    (∃ text, step = .word text) ∨ step = .singleQuoted ['\n'] ∨ ∃ c, step = .escaped (some c) := by
  induction h with
  | nil => simp
  | run _ _ _ _ ih => exact List.forall_mem_cons.2 ⟨.inl ⟨_, rfl⟩, ih⟩
  | newline _ ih => exact List.forall_mem_cons.2 ⟨.inr (.inl rfl), ih⟩
  | escaped _ _ _ ih => exact List.forall_mem_cons.2 ⟨.inr (.inr ⟨_, rfl⟩), ih⟩

/-! ## Scanning a spelling -/

/-- A step where a scan meets it, without white space around it. -/
def Step.occurrence (separated : Bool) (step : Step) : Occurrence StepMatch :=
  ⟨[], step.raw, ⟨step, 0, separated⟩⟩

/-- A scan of steps that follow each other at once up to the end of the line finds these steps. -/
theorem Step.Joined.exists_walk (hf : Step.Joined front last.raw) (hl : last.Before []) :
    ∃ made, Walk (.ofFunction findStep) () (front.flatMap Step.raw ++ last.raw)
      (front.map (Step.occurrence false) ++ [last.occurrence true]) [] made := by
  have hturn : ∀ {step : Step} {separated : Bool} {rest : Text}, step.Before rest →
      Separates [] separated rest → (step.occurrence separated).text ≠ [] ∧
        (Finder.ofFunction findStep () ((step.occurrence separated).text ++ rest)).1 =
          some (step.occurrence separated).found := fun {step separated rest} h hs => by
    obtain ⟨c, cs, hraw, -⟩ := h.raw_eq_cons
    have hblanks : ∀ c ∈ ([] : Text), isBlank c = true := by simp
    have hfind := findStep_eq hblanks h hs
    constructor
    · simp [Step.occurrence, Occurrence.text, hraw]
    · simpa [Step.occurrence, Occurrence.text, Occurrence.found, Finder.ofFunction] using hfind
  induction front with
  | nil =>
    obtain ⟨hne, hfound⟩ := hturn hl .lineEnd
    have hwalk := Walk.turn hne hfound (.used ())
    exact ⟨_, by simpa [Step.occurrence, Occurrence.text] using hwalk⟩
  | cons step steps ih =>
    obtain ⟨hstep, -, -, hj⟩ := hf
    obtain ⟨made, hwalk⟩ := ih hj
    obtain ⟨hne, hfound⟩ := hturn hstep (hj.separates (by simpa using hl.separates []))
    have hwalk := Walk.turn hne hfound hwalk
    exact ⟨_, by simpa [Step.occurrence, Occurrence.text] using hwalk⟩

/-- A scan of the spelling of a value finds the steps that spell it, each at once behind the one
before, and nothing else: none of them is a quote without its match, a double-quoted text, a lone
backslash or an empty pair of quotes. Only the end of the line separates. -/
theorem scanCalls_escape (h : value ≠ []) :
    ∃ front last, (∀ steps, SpelledBy value steps ↔ steps = front ++ [last]) ∧
      (∀ step ∈ front ++ [last], (∀ content, step ≠ .doubleQuoted content) ∧
        (∀ quote, step ≠ .unclosed quote) ∧ step ≠ .escaped none ∧ step.isEmptyQuotes = false) ∧
      ∀ (σ ε : Type) (handle : Handler σ StepMatch ε) (s : σ), handle.NeverFails →
        (scanCalls (.ofFunction findStep) handle () s (escape value)).map Call.matched =
            front.map (fun step => (step.raw, ⟨step, 0, false⟩)) ++ [(last.raw, ⟨last, 0, true⟩)] ∧
          (scanCalls (.ofFunction findStep) handle () s (escape value)).flatMap Call.range =
            escape value := by
  obtain ⟨front, last, hsteps⟩ :=
    (escapeSteps value).eq_nil_or_concat'.resolve_left (escapeSteps_ne_nil h)
  have hspelled : ∀ steps, SpelledBy value steps ↔ steps = front ++ [last] := fun steps => by
    rw [← hsteps, spelledBy_iff]
  have hraw : escape value = front.flatMap Step.raw ++ last.raw := by
    rw [escape, if_neg h, ← flatMap_raw_escapeSteps, hsteps]
    simp
  have hj : Step.Joined (front ++ [last]) [] := hsteps ▸ joined_escapeSteps value (by simp)
  obtain ⟨hfront, hlast, -⟩ := Step.joined_append.1 hj
  obtain ⟨made, hwalk⟩ := Step.Joined.exists_walk (by simpa using hfront) hlast
  refine ⟨front, last, hspelled, fun step hstep => ?_, fun σ ε handle s hh => ?_⟩
  · obtain ⟨text, rfl⟩ | rfl | ⟨c, rfl⟩ := ((hspelled _).2 rfl).forms step hstep
    · simp [Step.isEmptyQuotes]
    · simp [Step.isEmptyQuotes]
    · simp [Step.isEmptyQuotes]
  · have hcalls := hwalk.map_matched_scanCalls hh s
    rw [← hraw] at hcalls
    have hmatched : (scanCalls (.ofFunction findStep) handle () s (escape value)).map Call.matched =
        front.map (fun step => (step.raw, ⟨step, 0, false⟩)) ++ [(last.raw, ⟨last, 0, true⟩)] := by
      rw [hcalls]
      simp [Step.occurrence, Occurrence.matched]
    have hrange : (Call.range : Call StepMatch ε → Text) = Prod.fst ∘ Call.matched := rfl
    refine ⟨hmatched, ?_⟩
    rw [List.flatMap_def, hrange, ← List.map_map, hmatched, hraw]
    simp [List.flatMap_def, Function.comp_def]

/-- A run, two newlines that touch, a space, a quote and a letter that is not ASCII. -/
theorem scanCalls_escape_touching :
    "a-\n\n 'é".toList ≠ [] ∧ (Handler.copy : Handler Unit StepMatch Unit).NeverFails ∧
      (scanCalls (.ofFunction findStep) (Handler.copy : Handler Unit StepMatch Unit) () ()
          (escape "a-\n\n 'é".toList)).map Call.matched =
        [("a-".toList, ⟨.word "a-".toList, 0, false⟩),
          ("'\n'".toList, ⟨.singleQuoted ['\n'], 0, false⟩),
          ("'\n'".toList, ⟨.singleQuoted ['\n'], 0, false⟩),
          ("\\ ".toList, ⟨.escaped (some ' '), 0, false⟩),
          ("\\'".toList, ⟨.escaped (some '\x27'), 0, false⟩),
          ("\\é".toList, ⟨.escaped (some 'é'), 0, true⟩)] := by
  have hne : "a-\n\n 'é".toList ≠ [] := by decide
  have hh : (Handler.copy : Handler Unit StepMatch Unit).NeverFails := fun _ _ _ => rfl
  have hspelled : SpelledBy "a-\n\n 'é".toList
      ([.word "a-".toList, .singleQuoted ['\n'], .singleQuoted ['\n'], .escaped (some ' '),
        .escaped (some '\x27')] ++ [.escaped (some 'é')]) := spelledBy_iff.2 (by decide)
  obtain ⟨front, last, hsteps, -, hcalls⟩ := scanCalls_escape hne
  obtain ⟨rfl, hlast⟩ := List.append_inj' ((hsteps _).1 hspelled) rfl
  obtain rfl := List.singleton_inj.1 hlast
  exact ⟨hne, hh, (hcalls Unit Unit Handler.copy () hh).1⟩

end CommandWords
