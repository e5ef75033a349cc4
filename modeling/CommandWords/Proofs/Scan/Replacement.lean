import CommandWords.Proofs.Scan.Decomposition
import CommandWords.Scan.Literal
import Mathlib.Data.List.Infix

/-!
# Replacing a text

A scan for the first occurrence of a literal replaces its occurrences as a reader does who goes
through a text from left to right. `PartsBetween` says what stands between the occurrences: each of
them is the first one behind the one before it (`IsFirst`), so that they do not overlap, and there
is only one way to cut a text so (`PartsBetween.unique`).

* `findsFirst_findLiteral`: the search for a literal finds first occurrences.
* `Walk.partsBetween`: such a search leads through a text from occurrence to occurrence.
* `scan_replaces`: the result of the scan is the parts with the replacement between them.
-/

namespace CommandWords

/-- The first occurrence of `literal` in a text stands between `before` and `after`. -/
def IsFirst (literal before after : Text) : Prop :=
  ∀ a b, before ++ literal ++ after = a ++ literal ++ b → before.length ≤ a.length

/-- The parts of a text between the occurrences of `literal`, from left to right. Each occurrence is
the first one in what is left of the text behind the occurrence before it. -/
inductive PartsBetween (literal : Text) : Text → List Text → Prop
  | rest {text : Text} (h : ¬ literal <:+: text) : PartsBetween literal text [text]
  | occurrence {before after : Text} {parts : List Text} (first : IsFirst literal before after)
    (h : PartsBetween literal after parts) :
    PartsBetween literal (before ++ literal ++ after) (before :: parts)

variable {literal replacement before after text : Text} {parts : List Text}

/-- Two first occurrences in one text are the same. -/
theorem IsFirst.unique {before' after' : Text} (h : IsFirst literal before after)
    (h' : IsFirst literal before' after')
    (he : before ++ literal ++ after = before' ++ literal ++ after') :
    before = before' ∧ after = after' := by
  have hlength : before.length = before'.length := Nat.le_antisymm (h _ _ he) (h' _ _ he.symm)
  rw [List.append_assoc, List.append_assoc] at he
  obtain ⟨rfl, hrest⟩ := List.append_inj he hlength
  exact ⟨rfl, List.append_cancel_left hrest⟩

theorem PartsBetween.unique {parts' : List Text} (h : PartsBetween literal text parts)
    (h' : PartsBetween literal text parts') : parts' = parts := by
  induction h generalizing parts' with
  | rest h =>
    cases h' with
    | rest => rfl
    | occurrence => exact absurd ⟨_, _, rfl⟩ h
  | @occurrence before after parts first _ ih =>
    generalize he : before ++ literal ++ after = text at h'
    cases h' with
    | rest h => exact absurd ⟨before, after, he⟩ h
    | occurrence first' h' =>
      obtain ⟨rfl, rfl⟩ := first.unique first' he
      rw [ih h']

/-! ## Finding first occurrences -/

variable {π σ μ ε : Type}

/-- A finder that reports the first occurrence of `literal` in the text it is given. -/
def Finder.FindsFirst (find : Finder π μ) (literal : Text) : Prop :=
  ∀ p text, match (find p text).1 with
    | none => ¬ literal <:+: text
    | some found => ∃ before after, text = before ++ literal ++ after ∧
        IsFirst literal before after ∧ found.start = before.byteSize ∧
          found.stop = (before ++ literal).byteSize

/-- A handler that answers the literal with one and the same text. -/
def Handler.Gives (handle : Handler σ μ ε) (literal replacement : Text) : Prop :=
  ∀ s value, (handle s literal value).1 = .ok replacement

/-- The handler that answers every match with the same text. -/
def Handler.constant (replacement : Text) : Handler Unit μ ε := fun _ _ _ => (.ok replacement, ())

/-- An occurrence in a text that does not start with one lies behind the first character. -/
theorem exists_cons_of_not_prefix {c : Char} {cs a b : Text} (h : ¬ literal <+: c :: cs)
    (he : c :: cs = a ++ literal ++ b) : ∃ a', a = c :: a' ∧ cs = a' ++ literal ++ b := by
  cases a with
  | nil => exact absurd ⟨b, he.symm⟩ h
  | cons d a =>
    obtain ⟨rfl, hcs⟩ := List.cons.inj he
    exact ⟨a, rfl, hcs⟩

theorem not_infix_of_literalPosition?_eq_none (h : literalPosition? literal text = none) :
    ¬ literal <:+: text := by
  induction text with
  | nil =>
    rw [literalPosition?] at h
    split at h
    · cases h
    · rename_i hne
      simpa [List.infix_nil] using hne
  | cons c cs ih =>
    rw [literalPosition?] at h
    split at h
    · cases h
    · rename_i hprefix
      rw [List.isPrefixOf_iff_prefix] at hprefix
      rintro ⟨a, b, he⟩
      obtain ⟨a', -, hcs⟩ := exists_cons_of_not_prefix hprefix he.symm
      exact ih (Option.map_eq_none_iff.1 h) ⟨a', b, hcs.symm⟩

theorem exists_isFirst_of_literalPosition? {start : Nat}
    (h : literalPosition? literal text = some start) :
    ∃ before after, text = before ++ literal ++ after ∧ IsFirst literal before after ∧
      start = before.byteSize := by
  induction text generalizing start with
  | nil =>
    rw [literalPosition?] at h
    split at h
    · rename_i hnil
      obtain rfl : literal = [] := List.isEmpty_iff.1 hnil
      exact ⟨[], [], rfl, fun _ _ _ => Nat.zero_le _, (Option.some.inj h).symm⟩
    · cases h
  | cons c cs ih =>
    rw [literalPosition?] at h
    split at h
    · rename_i hprefix
      obtain ⟨after, hafter⟩ := List.isPrefixOf_iff_prefix.1 hprefix
      exact ⟨[], after, hafter.symm, fun _ _ _ => Nat.zero_le _, (Option.some.inj h).symm⟩
    · rename_i hprefix
      rw [List.isPrefixOf_iff_prefix] at hprefix
      obtain ⟨start', hstart', rfl⟩ := Option.map_eq_some_iff.1 h
      obtain ⟨before, after, rfl, hfirst, rfl⟩ := ih hstart'
      refine ⟨c :: before, after, rfl, fun a b he => ?_, rfl⟩
      obtain ⟨a', rfl, hcs⟩ := exists_cons_of_not_prefix hprefix he
      exact Nat.succ_le_succ (hfirst a' b hcs)

theorem findsFirst_findLiteral (literal : Text) :
    (Finder.ofFunction (findLiteral literal)).FindsFirst literal := by
  intro _ text
  cases hposition : literalPosition? literal text with
  | none =>
    have hnone : findLiteral literal text = none := by rw [findLiteral, hposition]; rfl
    simp only [Finder.ofFunction, hnone]
    exact not_infix_of_literalPosition?_eq_none hposition
  | some start =>
    obtain ⟨before, after, htext, hfirst, rfl⟩ := exists_isFirst_of_literalPosition? hposition
    have hsome : findLiteral literal text =
        some ⟨before.byteSize, before.byteSize + literal.byteSize, before.byteSize⟩ := by
      rw [findLiteral, hposition]; rfl
    simp only [Finder.ofFunction, hsome]
    exact ⟨before, after, htext, hfirst, rfl, (Text.byteSize_append _ _).symm⟩

/-! ## From occurrence to occurrence -/

variable {find : Finder π μ} {handle : Handler σ μ ε} {p : π} {s : σ} {line last : Text}
  {occurrences : List (Occurrence μ)} {made : List (Search μ)}

theorem Finder.FindsFirst.not_infix (hf : find.FindsFirst literal) (h : (find p text).1 = none) :
    ¬ literal <:+: text := by
  have := hf p text
  rwa [h] at this

theorem Finder.FindsFirst.exists_isFirst (hf : find.FindsFirst literal) {found : Found μ}
    (h : (find p text).1 = some found) : ∃ before after, text = before ++ literal ++ after ∧
      IsFirst literal before after ∧ found.start = before.byteSize ∧
        found.stop = (before ++ literal).byteSize := by
  have := hf p text
  rwa [h] at this

/-- The occurrence that a search for the first one meets. -/
theorem Finder.FindsFirst.occurrence (hf : find.FindsFirst literal) {o : Occurrence μ} {rest : Text}
    (h : (find p (o.text ++ rest)).1 = some o.found) :
    o.range = literal ∧ IsFirst literal o.gap rest := by
  obtain ⟨before, after, htext, hfirst, hstart, hstop⟩ := hf.exists_isFirst h
  have hcut : (o.text ++ rest).cut? o.found.start o.found.stop = some (before, literal, after) :=
    Text.cut?_eq_some_iff.2 ⟨htext, hstart.symm, by rw [hstop, Text.byteSize_append]⟩
  have hcut' : (o.text ++ rest).cut? o.found.start o.found.stop = some (o.gap, o.range, rest) :=
    Text.cut?_eq_some_iff.2 ⟨rfl, rfl, rfl⟩
  obtain ⟨rfl, rfl, rfl⟩ : before = o.gap ∧ literal = o.range ∧ after = rest := by
    simpa only [hcut', Option.some.injEq, Prod.mk.injEq, eq_comm] using hcut
  exact ⟨rfl, hfirst⟩

/-- A search for first occurrences leads through a text from each occurrence to the next. -/
theorem Walk.partsBetween (hf : find.FindsFirst literal) (hne : literal ≠ [])
    (h : Walk find p line occurrences last made) :
    PartsBetween literal line (occurrences.map Occurrence.gap ++ [last]) ∧
      ∀ o ∈ occurrences, o.range = literal := by
  induction h with
  | used => exact ⟨.rest (by simpa [List.infix_nil] using hne), by simp⟩
  | @stop p line _ hstop =>
    refine ⟨.rest ?_, by simp⟩
    cases hfound : (find p line).1 with
    | none => exact hf.not_infix hfound
    | some found =>
      obtain ⟨before, after, rfl, -, hstart, hstop'⟩ := hf.exists_isFirst hfound
      have hcut : (before ++ literal ++ after).cut? found.start found.stop =
          some (before, literal, after) :=
        Text.cut?_eq_some_iff.2 ⟨rfl, hstart.symm, by rw [hstop', Text.byteSize_append]⟩
      have hsize := Text.length_le_byteSize literal
      have := List.length_pos_iff.2 hne
      rcases hstop found hfound with hzero | hnone
      · rw [hstop', Text.byteSize_append] at hzero
        omega
      · rw [hcut] at hnone
        cases hnone
  | @turn p o rest last occurrences _ _ hfound _ ih =>
    obtain ⟨hrange, hfirst⟩ := hf.occurrence hfound
    refine ⟨?_, List.forall_mem_cons.2 ⟨hrange, ih.2⟩⟩
    rw [Occurrence.text, hrange]
    exact .occurrence hfirst ih.1

/-- The empty literal occurs at the beginning, where no match advances. -/
theorem Walk.eq_nil_of_findsFirst_nil (hf : find.FindsFirst [])
    (h : Walk find p line occurrences last made) : occurrences = [] ∧ last = line := by
  cases h with
  | used | stop => exact ⟨rfl, rfl⟩
  | @turn _ o rest _ _ _ hne hfound =>
    obtain ⟨hrange, hfirst⟩ := hf.occurrence hfound
    have hgap : o.gap = [] := by simpa using hfirst [] (o.gap ++ rest) (by simp)
    simp [Occurrence.text, hrange, hgap] at hne

/-! ## Putting the replacement between the parts -/

theorem intercalate_concat (replacement last : Text) (parts : List Text) :
    replacement.intercalate (parts ++ [last]) = parts.flatMap (· ++ replacement) ++ last := by
  induction parts with
  | nil => simp
  | cons part parts ih =>
    obtain ⟨next, rest, hrest⟩ := List.exists_cons_of_ne_nil (l := parts ++ [last]) (by simp)
    rw [List.cons_append, hrest, List.intercalate_cons_cons, ← hrest, ih, List.flatMap_cons]
    simp

theorem Handler.Gives.answers_eq (hh : handle.Gives literal replacement)
    (h : ∀ o ∈ occurrences, o.range = literal) (s : σ) :
    handle.answers s (occurrences.map Occurrence.matched) =
      occurrences.map fun _ => .ok replacement := by
  induction occurrences generalizing s with
  | nil => rfl
  | cons o occurrences ih =>
    rw [List.forall_mem_cons] at h
    rw [List.map_cons, Handler.answers_cons, ih h.2, h.1, hh, List.map_cons]

/-- A scan that meets occurrences of a literal only puts the replacement in the place of each. -/
theorem Walk.scan_gives (h : Walk find p line occurrences last made)
    (hr : ∀ o ∈ occurrences, o.range = literal) (hh : handle.Gives literal replacement) (s : σ) :
    (scan find handle p s line).result =
        .ok (replacement.intercalate (occurrences.map Occurrence.gap ++ [last])) ∧
      (scanCalls find handle p s line).map (fun call => (call.range, call.answer)) =
        List.replicate occurrences.length (literal, .ok replacement) := by
  let turns : List (Turn μ) := occurrences.map fun o => ⟨o, replacement⟩
  have hturns : turns.map Turn.toOccurrence = occurrences := by simp [turns, Function.comp_def]
  have ha : handle.answers s (turns.map fun t => t.matched) =
      turns.map fun t => .ok t.replacement := by
    have := hh.answers_eq hr s
    simpa [turns, Function.comp_def] using this
  obtain ⟨hresult, -, hcalls⟩ := Walk.scan_ok (hturns ▸ h) ha [] []
  rw [scan_result_eq h, scanCalls, hresult, hcalls, intercalate_concat]
  refine ⟨by simp [turns, List.flatMap_map, Turn.result], ?_⟩
  rw [List.nil_append, List.map_map, List.map_map]
  exact List.map_eq_replicate_iff.2 fun o ho => by simp [Turn.call, hr o ho]

/-- A scan for the first occurrence of a literal gives the parts of the text between the occurrences
with the replacement between them, and calls the handler once for each occurrence. The empty literal
leaves the text as it is. -/
theorem scan_replaces (hf : find.FindsFirst literal) (hh : handle.Gives literal replacement) (p : π)
    (s : σ) (line : Text) :
    (literal ≠ [] → ∃ parts, (∀ parts', PartsBetween literal line parts' ↔ parts' = parts) ∧
      (scan find handle p s line).result = .ok (replacement.intercalate parts) ∧
      (scanCalls find handle p s line).map (fun call => (call.range, call.answer)) =
        List.replicate (parts.length - 1) (literal, .ok replacement)) ∧
    (literal = [] → (scan find handle p s line).result = .ok line ∧
      scanCalls find handle p s line = []) := by
  obtain ⟨occurrences, last, made, h⟩ := exists_walk find p line
  constructor
  · intro hne
    obtain ⟨hparts, hr⟩ := h.partsBetween hf hne
    obtain ⟨hresult, hcalls⟩ := h.scan_gives hr hh s
    refine ⟨_, fun parts' => ⟨hparts.unique, ?_⟩, hresult, by simpa using hcalls⟩
    rintro rfl
    exact hparts
  · rintro rfl
    obtain ⟨rfl, rfl⟩ := h.eq_nil_of_findsFirst_nil hf
    obtain ⟨hresult, hcalls⟩ := h.scan_gives (by simp) hh s
    exact ⟨by simpa using hresult, by simpa using hcalls⟩

/-- A literal that overlaps itself and is part of its replacement, also at the end of the text. -/
theorem scan_replaces_overlapping :
    (Finder.ofFunction (findLiteral "aa".toList)).FindsFirst "aa".toList ∧
      (Handler.constant "<aa>".toList : Handler Unit Nat Unit).Gives "aa".toList "<aa>".toList ∧
      "aa".toList ≠ [] ∧
      (scan (.ofFunction (findLiteral "aa".toList))
        (Handler.constant "<aa>".toList : Handler Unit Nat Unit) () () "aaabaa".toList).result =
          .ok "<aa>ab<aa>".toList := by
  have hf := findsFirst_findLiteral "aa".toList
  have hh : (Handler.constant "<aa>".toList : Handler Unit Nat Unit).Gives "aa".toList
      "<aa>".toList := fun _ _ => rfl
  have hne : "aa".toList ≠ [] := by decide
  have hfirst : IsFirst "aa".toList "ab".toList [] := by
    rintro (_ | ⟨c, _ | ⟨d, a⟩⟩) b he
    · simp at he
    · simp at he
    · exact Nat.le_add_left 2 a.length
  have hrest : PartsBetween "aa".toList "abaa".toList ["ab".toList, []] :=
    .occurrence hfirst (.rest (by decide))
  have hhead : IsFirst "aa".toList [] "abaa".toList := fun _ _ _ => Nat.zero_le _
  have hcut : PartsBetween "aa".toList "aaabaa".toList [[], "ab".toList, []] :=
    .occurrence hhead hrest
  obtain ⟨parts, hparts, hresult, -⟩ := (scan_replaces hf hh () () "aaabaa".toList).1 hne
  rw [← (hparts _).1 hcut] at hresult
  exact ⟨hf, hh, hne, hresult⟩

end CommandWords
