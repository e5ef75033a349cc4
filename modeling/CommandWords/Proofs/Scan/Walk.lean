import CommandWords.Scan.Basic

/-!
# The way a scan takes through a text

Which matches a scan meets depends on the finder alone. `Walk` is the way a finder leads through a
text: the matches with the text skipped before each (`Occurrence`), the text behind the last of
them, and all searches on the way. What a handler answers to the matches, one after another, is
`Handler.answers`.

To tell what was called in the course of a scan, finder and handler are wrapped so that they keep a
record (`Finder.recorded`, `Handler.recorded`), which changes nothing else (`scan_recorded`).

* `exists_walk`: a finder leads through every text.
* `Walk.scan_ok`: a scan whose handler answers every match makes all the searches and calls of the
  walk.
* `Walk.scan_error`: a scan whose handler fails makes those up to the first failure.
-/

namespace CommandWords

variable {π σ μ ε : Type}

/-! ## Calls and their record -/

/-- A call of a finder: the text it was given and what it answered. -/
structure Search (μ : Type) where
  text : Text
  answer : Option (Found μ)

/-- A call of a handler: the matched text, what the finder told about it, and the answer. -/
structure Call (μ ε : Type) where
  range : Text
  value : μ
  answer : Except ε Text

/-- What a handler was called with. -/
def Call.matched (call : Call μ ε) : Text × μ := (call.range, call.value)

/-- A finder that keeps a record of its calls. -/
def Finder.recorded (find : Finder π μ) : Finder (π × List (Search μ)) μ := fun p s =>
  ((find p.1 s).1, (find p.1 s).2, p.2 ++ [⟨s, (find p.1 s).1⟩])

/-- A handler that keeps a record of its calls. -/
def Handler.recorded (handle : Handler σ μ ε) : Handler (σ × List (Call μ ε)) μ ε :=
  fun s range value =>
    ((handle s.1 range value).1, (handle s.1 range value).2,
      s.2 ++ [⟨range, value, (handle s.1 range value).1⟩])

/-- The calls of the finder in a scan. -/
def scanSearches (find : Finder π μ) (handle : Handler σ μ ε) (p : π) (s : σ) (line : Text) :
    List (Search μ) :=
  (scan find.recorded handle.recorded (p, []) (s, []) line).finder.2

/-- The calls of the handler in a scan. -/
def scanCalls (find : Finder π μ) (handle : Handler σ μ ε) (p : π) (s : σ) (line : Text) :
    List (Call μ ε) :=
  (scan find.recorded handle.recorded (p, []) (s, []) line).handler.2

/-- What a handler answers if it is asked about each match in turn. -/
def Handler.answers (handle : Handler σ μ ε) : σ → List (Text × μ) → List (Except ε Text)
  | _, [] => []
  | s, (range, value) :: matched =>
    (handle s range value).1 :: handle.answers (handle s range value).2 matched

theorem exists_eq_ok_of_isOk {answer : Except ε Text} (h : answer.isOk = true) :
    ∃ replacement, answer = .ok replacement := by
  cases answer with
  | error e => cases h
  | ok replacement => exact ⟨replacement, rfl⟩

/-! ## Occurrences and walks -/

/-- A match where a scan meets it. -/
structure Occurrence (μ : Type) where
  /-- The text that is skipped before the match. -/
  gap : Text
  range : Text
  value : μ

namespace Occurrence

def text (o : Occurrence μ) : Text := o.gap ++ o.range

/-- What a handler is called with. -/
def matched (o : Occurrence μ) : Text × μ := (o.range, o.value)

/-- The match as a finder tells it. -/
def found (o : Occurrence μ) : Found μ :=
  ⟨o.gap.byteSize, o.gap.byteSize + o.range.byteSize, o.value⟩

end Occurrence

theorem Handler.answers_cons (handle : Handler σ μ ε) (s : σ) (o : Occurrence μ)
    (matched : List (Text × μ)) :
    handle.answers s (o.matched :: matched) =
      (handle s o.range o.value).1 :: handle.answers (handle s o.range o.value).2 matched := rfl

/-- A finder leads from a state through a text: the occurrences it finds, the text behind them in
which it finds nothing more, and the searches made. -/
inductive Walk (find : Finder π μ) :
    π → Text → List (Occurrence μ) → Text → List (Search μ) → Prop
  | used (p : π) : Walk find p [] [] [] []
  | stop {p : π} {line : Text} (hne : line ≠ [])
    (h : ∀ found ∈ (find p line).1,
      found.stop = 0 ∨ line.cut? found.start found.stop = none) :
    Walk find p line [] line [⟨line, (find p line).1⟩]
  | turn {p : π} {o : Occurrence μ} {rest last : Text} {occurrences : List (Occurrence μ)}
    {searches : List (Search μ)} (hne : o.text ≠ [])
    (hf : (find p (o.text ++ rest)).1 = some o.found)
    (h : Walk find (find p (o.text ++ rest)).2 rest occurrences last searches) :
    Walk find p (o.text ++ rest) (o :: occurrences) last
      (⟨o.text ++ rest, some o.found⟩ :: searches)

variable {find : Finder π μ} {handle : Handler σ μ ε} {p : π} {s : σ} {line rest last : Text}
  {o : Occurrence μ} {occurrences : List (Occurrence μ)} {made : List (Search μ)}

theorem Walk.line_eq (h : Walk find p line occurrences last made) :
    line = occurrences.flatMap Occurrence.text ++ last := by
  induction h with
  | used => rfl
  | stop => rfl
  | turn _ _ _ ih => rw [List.flatMap_cons, List.append_assoc, ← ih]

theorem Walk.text_ne_nil (h : Walk find p line occurrences last made) :
    ∀ o ∈ occurrences, o.text ≠ [] := by
  induction h with
  | used => simp
  | stop => simp
  | turn hne _ _ ih => simpa using ⟨hne, ih⟩

/-- An answer of a finder ends the scan or is an occurrence at the head of the text. -/
theorem stop_or_occurrence (answer : Option (Found μ)) (line : Text) :
    (∀ found ∈ answer, found.stop = 0 ∨ line.cut? found.start found.stop = none) ∨
      ∃ (o : Occurrence μ) (rest : Text),
        line = o.text ++ rest ∧ o.text ≠ [] ∧ answer = some o.found := by
  rcases answer with _ | ⟨start, stop, value⟩
  · simp
  by_cases hpos : stop = 0
  · simp [hpos]
  cases hc : line.cut? start stop with
  | none => simp [hc]
  | some parts =>
    obtain ⟨gap, range, rest⟩ := parts
    obtain ⟨rfl, rfl, rfl⟩ := Text.cut?_eq_some_iff.1 hc
    refine .inr ⟨⟨gap, range, value⟩, rest, rfl, fun hnil => hpos ?_, rfl⟩
    simp_all [Occurrence.text]

/-- A finder leads through every text. -/
theorem exists_walk (find : Finder π μ) (p : π) (line : Text) :
    ∃ occurrences last made, Walk find p line occurrences last made := by
  by_cases hne : line = []
  · subst hne
    exact ⟨[], [], [], .used p⟩
  rcases stop_or_occurrence (find p line).1 line with h | ⟨o, rest, hl, ho, hf⟩
  · exact ⟨[], line, _, .stop hne h⟩
  · obtain ⟨occurrences, last, made, h⟩ := exists_walk find (find p line).2 rest
    subst hl
    exact ⟨o :: occurrences, last, _, .turn ho hf h⟩
termination_by line.length
decreasing_by
  have := List.length_pos_iff.2 ho
  simp only [hl, List.length_append]
  omega

/-! ## One turn of a scan -/

theorem scan_nil (find : Finder π μ) (handle : Handler σ μ ε) (p : π) (s : σ) :
    scan find handle p s [] = ⟨.ok [], p, s⟩ := by
  rw [scan, if_pos rfl]

/-- Without a match that takes part of it, a text is left as it is. -/
theorem scan_stop (hne : line ≠ [])
    (h : ∀ found ∈ (find p line).1, found.stop = 0 ∨ line.cut? found.start found.stop = none) :
    scan find handle p s line = ⟨.ok line, (find p line).2, s⟩ := by
  rw [scan, if_neg hne]
  rcases hf : find p line with ⟨_ | found, p'⟩
  · rfl
  · rw [hf] at h
    dsimp only
    split
    · split
      · rfl
      · rename_i hpos _ _ _ hc
        rcases h found rfl with h | h
        · omega
        · rw [hc] at h
          cases h
    · rfl

/-- A match is handed to the handler, and the scan goes on behind it. -/
theorem scan_turn (hne : o.text ≠ []) (hf : (find p (o.text ++ rest)).1 = some o.found) :
    scan find handle p s (o.text ++ rest) =
      match handle s o.range o.value with
      | (.error e, s') => ⟨.error e, (find p (o.text ++ rest)).2, s'⟩
      | (.ok replacement, s') =>
        let behind := scan find handle (find p (o.text ++ rest)).2 s' rest
        { behind with result := behind.result.map (o.gap ++ replacement ++ ·) } := by
  obtain ⟨p', hp⟩ : ∃ p', find p (o.text ++ rest) = (some o.found, p') := ⟨_, Prod.ext hf rfl⟩
  have hpos : 0 < o.found.stop := by
    obtain ⟨c, cs, hc⟩ := List.exists_cons_of_ne_nil hne
    have hsize := congrArg Text.byteSize hc
    have := c.utf8Size_pos
    simp only [Occurrence.text, Text.byteSize_append, Text.byteSize_cons] at hsize
    simp only [Occurrence.found]
    omega
  have hcut : (o.text ++ rest).cut? o.found.start o.found.stop = some (o.gap, o.range, rest) :=
    Text.cut?_eq_some_iff.2 ⟨rfl, rfl, rfl⟩
  rw [scan, if_neg (by simp [hne]), hp]
  simp only [hpos, ↓reduceDIte]
  split
  · rename_i hn
    rw [hcut] at hn
    cases hn
  · rename_i gap range after hs
    obtain ⟨rfl, rfl, rfl⟩ : o.gap = gap ∧ o.range = range ∧ rest = after := by
      simpa only [hcut, Option.some.injEq, Prod.mk.injEq] using hs
    rfl

/-! ## Scans with a record -/

variable {replacement : Text} {e : ε} {ps : List (Search μ)} {cs : List (Call μ ε)}

theorem scan_recorded_stop (hne : line ≠ [])
    (h : ∀ found ∈ (find p line).1, found.stop = 0 ∨ line.cut? found.start found.stop = none) :
    scan find.recorded handle.recorded (p, ps) (s, cs) line =
      ⟨.ok line, ((find p line).2, ps ++ [⟨line, (find p line).1⟩]), (s, cs)⟩ :=
  scan_stop hne h

/-- A turn in which the handler answers. -/
theorem scan_recorded_ok (hne : o.text ≠ []) (hf : (find p (o.text ++ rest)).1 = some o.found)
    (ha : (handle s o.range o.value).1 = .ok replacement) :
    scan find.recorded handle.recorded (p, ps) (s, cs) (o.text ++ rest) =
      let behind := scan find.recorded handle.recorded
        ((find p (o.text ++ rest)).2, ps ++ [⟨o.text ++ rest, some o.found⟩])
        ((handle s o.range o.value).2, cs ++ [⟨o.range, o.value, .ok replacement⟩]) rest
      { behind with result := behind.result.map (o.gap ++ replacement ++ ·) } := by
  have hf' : (find.recorded (p, ps) (o.text ++ rest)).1 = some o.found := hf
  rw [scan_turn hne hf', Finder.recorded, Handler.recorded, hf, ha]

/-- A turn in which the handler fails. -/
theorem scan_recorded_error (hne : o.text ≠ []) (hf : (find p (o.text ++ rest)).1 = some o.found)
    (ha : (handle s o.range o.value).1 = .error e) :
    scan find.recorded handle.recorded (p, ps) (s, cs) (o.text ++ rest) =
      ⟨.error e, ((find p (o.text ++ rest)).2, ps ++ [⟨o.text ++ rest, some o.found⟩]),
        ((handle s o.range o.value).2, cs ++ [⟨o.range, o.value, .error e⟩])⟩ := by
  have hf' : (find.recorded (p, ps) (o.text ++ rest)).1 = some o.found := hf
  rw [scan_turn hne hf', Finder.recorded, Handler.recorded, hf, ha]

/-- Keeping a record changes nothing else. -/
theorem Walk.scan_recorded (h : Walk find p line occurrences last made)
    (handle : Handler σ μ ε) (s : σ) (ps : List (Search μ)) (cs : List (Call μ ε)) :
    scan find handle p s line =
      let recorded := scan find.recorded handle.recorded (p, ps) (s, cs) line
      ⟨recorded.result, recorded.finder.1, recorded.handler.1⟩ := by
  induction h generalizing s ps cs with
  | used p => rw [scan_nil, scan_nil]
  | stop hne h => rw [scan_recorded_stop hne h, scan_stop hne h]
  | @turn p o rest _ _ _ hne hf _ ih =>
    have hturn : scan find handle p s (o.text ++ rest) = _ := scan_turn hne hf
    obtain ⟨⟨answer, s'⟩, hh⟩ : ∃ answered, handle s o.range o.value = answered := ⟨_, rfl⟩
    rw [hh] at hturn
    cases answer with
    | error e => rw [hturn, scan_recorded_error hne hf (congrArg Prod.fst hh), hh]
    | ok replacement =>
      rw [hturn, scan_recorded_ok hne hf (congrArg Prod.fst hh), hh]
      dsimp only
      rw [ih]

/-! ## Scans along a walk -/

/-- A match that a handler has answered. -/
structure Turn (μ : Type) extends Occurrence μ where
  replacement : Text

namespace Turn

/-- The call of the handler. -/
def call (t : Turn μ) : Call μ ε := ⟨t.range, t.value, .ok t.replacement⟩

/-- What stands in the result for the text of the occurrence. -/
def result (t : Turn μ) : Text := t.gap ++ t.replacement

end Turn

variable {turns : List (Turn μ)}

/-- A handler that answers every match of a walk is called with each of them, and the searches are
those of the walk. -/
theorem Walk.scan_ok (h : Walk find p line (turns.map Turn.toOccurrence) last made)
    (ha : handle.answers s (turns.map fun t => t.matched) = turns.map fun t => .ok t.replacement)
    (ps : List (Search μ)) (cs : List (Call μ ε)) :
    let recorded := scan find.recorded handle.recorded (p, ps) (s, cs) line
    recorded.result = .ok (turns.flatMap Turn.result ++ last) ∧
      recorded.finder.2 = ps ++ made ∧ recorded.handler.2 = cs ++ turns.map Turn.call := by
  induction turns generalizing p s line made ps cs with
  | nil =>
    cases h with
    | used => simp [scan_nil]
    | stop hne h => simp [scan_recorded_stop hne h]
  | cons t turns ih =>
    cases h with
    | @turn _ _ rest _ _ made hne hf h =>
      obtain ⟨hanswer, ha⟩ := List.cons.inj ha
      rw [scan_recorded_ok hne hf hanswer]
      obtain ⟨hresult, hmade, hcalls⟩ := ih h ha _ _
      dsimp only
      rw [hresult, hmade, hcalls]
      simp [Except.map, Turn.call, Turn.result]

/-- A handler that fails is called with the matches of a walk up to the first on which it fails, and
so many searches are made. -/
theorem Walk.scan_error {j : Nat} (h : Walk find p line occurrences last made)
    (hj : (handle.answers s (occurrences.map Occurrence.matched))[j]? = some (.error e))
    (hok : ∀ a ∈ (handle.answers s (occurrences.map Occurrence.matched)).take j, a.isOk = true)
    (ps : List (Search μ)) (cs : List (Call μ ε)) :
    let recorded := scan find.recorded handle.recorded (p, ps) (s, cs) line
    recorded.result = .error e ∧ recorded.finder.2 = ps ++ made.take (j + 1) ∧
      ∃ called, recorded.handler.2 = cs ++ called ∧
        called.map Call.matched = (occurrences.map Occurrence.matched).take (j + 1) := by
  induction h generalizing s j ps cs with
  | used => simp [Handler.answers] at hj
  | stop => simp [Handler.answers] at hj
  | @turn p o rest last occurrences made hne hf _ ih =>
    rw [List.map_cons, Handler.answers_cons] at hj hok
    cases j with
    | zero =>
      have ha : (handle s o.range o.value).1 = .error e := by simpa using hj
      rw [scan_recorded_error hne hf ha]
      exact ⟨rfl, rfl, [⟨o.range, o.value, .error e⟩], rfl, rfl⟩
    | succ j =>
      rw [List.take_succ_cons, List.forall_mem_cons] at hok
      obtain ⟨replacement, ha⟩ := exists_eq_ok_of_isOk hok.1
      obtain ⟨hresult, hmade, called, hcalled, hmatched⟩ := ih hj hok.2 _ _
      rw [scan_recorded_ok hne hf ha]
      dsimp only
      rw [hresult, hmade, hcalled]
      refine ⟨rfl, by simp, ⟨o.range, o.value, .ok replacement⟩ :: called, by simp, ?_⟩
      simp [hmatched, Call.matched, Occurrence.matched]

end CommandWords
