import CommandWords.Proofs.Scan.Walk
import Mathlib.Logic.Relation

/-!
# The loop of a scan

A scan stands at a `ScanPoint` whenever it is about to search again: finder and handler have their
states, and a part of the text is left. A turn of the loop (`TurnsTo`) meets a match that the
handler answers, and `Reaches` are any number of turns.

* `TurnsTo.scan_eq`: a scan goes on from the point that a turn leads to.
* `exists_last_point`: the turns lead to a point where the scan ends, because nothing more is found
  or because the handler fails.
-/

namespace CommandWords

variable {π σ μ ε : Type}

/-- A point of a scan between two matches. -/
structure ScanPoint (π σ : Type) where
  finder : π
  handler : σ
  /-- The text that is left. -/
  rest : Text

/-- One turn of a scan, with a match that the handler answers. -/
inductive TurnsTo (find : Finder π μ) (handle : Handler σ μ ε) :
    ScanPoint π σ → Occurrence μ → ScanPoint π σ → Prop
  | turn {p : π} {s s' : σ} {o : Occurrence μ} {rest replacement : Text} (hne : o.text ≠ [])
    (hf : (find p (o.text ++ rest)).1 = some o.found)
    (ha : handle s o.range o.value = (.ok replacement, s')) :
    TurnsTo find handle ⟨p, s, o.text ++ rest⟩ o ⟨(find p (o.text ++ rest)).2, s', rest⟩

/-- A scan comes from one point to another by any number of turns. -/
def Reaches (find : Finder π μ) (handle : Handler σ μ ε) :
    ScanPoint π σ → ScanPoint π σ → Prop :=
  Relation.ReflTransGen fun a b => ∃ o, TurnsTo find handle a o b

/-- The scan of what is left at a point. -/
def ScanPoint.scan (find : Finder π μ) (handle : Handler σ μ ε) (a : ScanPoint π σ) :
    Scanned π σ ε :=
  CommandWords.scan find handle a.finder a.handler a.rest

variable {find : Finder π μ} {handle : Handler σ μ ε} {a b : ScanPoint π σ} {o : Occurrence μ}

/-- Nothing is found at a point that takes part of what is left. -/
def ScanPoint.IsEnd (find : Finder π μ) (a : ScanPoint π σ) : Prop :=
  a.rest = [] ∨ ∀ found ∈ (find a.finder a.rest).1,
    found.stop = 0 ∨ a.rest.cut? found.start found.stop = none

theorem ScanPoint.IsEnd.scan_eq (h : a.IsEnd find) :
    (a.scan find handle).result = .ok a.rest ∧ (a.scan find handle).handler = a.handler := by
  unfold ScanPoint.scan
  by_cases hne : a.rest = []
  · rw [hne, scan_nil]
    exact ⟨rfl, rfl⟩
  · rw [scan_stop hne (h.resolve_left hne)]
    exact ⟨rfl, rfl⟩

/-- A scan goes on from the point that a turn leads to. -/
theorem TurnsTo.scan_eq (h : TurnsTo find handle a o b) :
    ∃ done, a.scan find handle =
      { b.scan find handle with result := (b.scan find handle).result.map (done ++ ·) } := by
  cases h with
  | @turn p s s' o rest replacement hne hf ha =>
    refine ⟨o.gap ++ replacement, ?_⟩
    rw [ScanPoint.scan, scan_turn hne hf, ha]
    rfl

theorem Reaches.scan_eq (h : Reaches find handle a b) :
    ∃ done, a.scan find handle =
      { b.scan find handle with result := (b.scan find handle).result.map (done ++ ·) } := by
  induction h with
  | refl =>
    refine ⟨[], ?_⟩
    cases hresult : (a.scan find handle).result <;> simp [Except.map, ← hresult]
  | tail _ hturn ih =>
    obtain ⟨o, hturn⟩ := hturn
    obtain ⟨done, hdone⟩ := ih
    obtain ⟨more, hmore⟩ := hturn.scan_eq
    refine ⟨done ++ more, ?_⟩
    rw [hdone, hmore]
    cases (ScanPoint.scan find handle _).result <;> simp [Except.map]

/-- The turns of a scan lead to its end, or to a match on which the handler fails. -/
theorem exists_last_point (find : Finder π μ) (handle : Handler σ μ ε) (p : π) (s : σ)
    (line : Text) :
    ∃ b, Reaches find handle ⟨p, s, line⟩ b ∧
      (b.IsEnd find ∨ ∃ e, (scan find handle p s line).result = .error e) := by
  by_cases hne : line = []
  · exact ⟨_, .refl, .inl (.inl hne)⟩
  rcases stop_or_occurrence (find p line).1 line with h | ⟨o, rest, hl, ho, hf⟩
  · exact ⟨_, .refl, .inl (.inr h)⟩
  obtain ⟨⟨answer, s'⟩, ha⟩ : ∃ answered, handle s o.range o.value = answered := ⟨_, rfl⟩
  rw [hl] at hf ⊢
  cases answer with
  | error e =>
    refine ⟨_, .refl, .inr ⟨e, ?_⟩⟩
    rw [scan_turn ho hf, ha]
  | ok replacement =>
    have hturn := TurnsTo.turn ho hf ha
    obtain ⟨b, hb, hend⟩ := exists_last_point find handle (find p (o.text ++ rest)).2 s' rest
    refine ⟨b, .head ⟨o, hturn⟩ hb, hend.imp_right ?_⟩
    rintro ⟨e, he⟩
    refine ⟨e, ?_⟩
    rw [scan_turn ho hf, ha]
    simp [he, Except.map]
termination_by line.length
decreasing_by
  have := List.length_pos_iff.2 ho
  simp only [hl, List.length_append]
  omega

end CommandWords
