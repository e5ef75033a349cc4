import CommandWords.Proofs.Line.Spans
import CommandWords.Proofs.Line.Spelling

/-!
# How backslashes pair between double quotes

The search for the closing quote passes over two characters at a backslash, whatever the second one
is. The decoding passes over two only where the backslash disappears, and goes on with the second
character where it stays. Both read a content as the same sequence of units (`QuotedUnit`), which
the content determines (`QuotedUnit.flatMap_text_inj`).

* `isContent_iff_exists_units`: the contents are the texts of sequences of units.
* `closingByte?_eq_some_iff`: the search stops at the byte behind such a sequence.
* `closing_decoding_agree`: what is found there is decoded unit by unit, and a text comes back from
  between double quotes if each of its characters that is special there has a backslash.
-/

namespace CommandWords

namespace QuotedUnit

/-- The text of a unit tells it from the unit that any other text starts with. -/
theorem eq_of_text_append {unit unit' : QuotedUnit} {s t : Text}
    (h : unit.text ++ s = unit'.text ++ t) : unit = unit' ∧ s = t := by
  cases unit with
  | plain c hq hb =>
    cases unit' with
    | plain d _ _ =>
      obtain ⟨rfl, rfl⟩ := List.cons.inj h
      exact ⟨rfl, rfl⟩
    | escaped d => exact absurd (List.cons.inj h).1 hb
  | escaped c =>
    cases unit' with
    | plain d _ hb => exact absurd (List.cons.inj h).1.symm hb
    | escaped d =>
      obtain ⟨rfl, rfl⟩ := List.cons.inj (List.cons.inj h).2
      exact ⟨rfl, rfl⟩

theorem text_ne_nil (unit : QuotedUnit) : unit.text ≠ [] := by cases unit <;> simp [text]

/-- A text is the text of one sequence of units at most. -/
theorem flatMap_text_inj {units units' : List QuotedUnit}
    (h : units.flatMap text = units'.flatMap text) : units = units' := by
  induction units generalizing units' with
  | nil =>
    cases units' with
    | nil => rfl
    | cons unit' units' => simp [text_ne_nil] at h
  | cons unit units ih =>
    cases units' with
    | nil => simp [text_ne_nil] at h
    | cons unit' units' =>
      rw [List.flatMap_cons, List.flatMap_cons] at h
      obtain ⟨rfl, hrest⟩ := eq_of_text_append h
      rw [ih hrest]

end QuotedUnit

namespace DoubleQuoted

variable {s content rest : Text}

theorem isContent_iff_exists_units :
    IsContent content ↔ ∃ units : List QuotedUnit, content = units.flatMap QuotedUnit.text := by
  constructor
  · intro h
    induction h with
    | nil => exact ⟨[], rfl⟩
    | @plain c cs hq hb _ ih =>
      obtain ⟨units, rfl⟩ := ih
      exact ⟨.plain c hq hb :: units, rfl⟩
    | @escaped d cs _ ih =>
      obtain ⟨units, rfl⟩ := ih
      exact ⟨.escaped d :: units, rfl⟩
  · rintro ⟨units, rfl⟩
    exact QuotedUnit.isContent_flatMap_text units

theorem close?_eq_some_iff :
    close? s = some (content, rest) ↔ s = content ++ '"' :: rest ∧ IsContent content := by
  constructor
  · intro h
    exact ⟨eq_append_of_close? h, isContent_of_close? h⟩
  · rintro ⟨rfl, h⟩
    exact close?_append h rest

/-- The byte at which the closing quote stands, in the text behind the opening one. -/
def closingByte? (s : Text) : Option Nat := (close? s).map fun (content, _) => content.byteSize

/-- The search stops where units end and a double quote stands. -/
theorem closingByte?_eq_some_iff {n : Nat} :
    closingByte? s = some n ↔ ∃ (units : List QuotedUnit) (rest : Text),
      s.splitBytes? n = some (units.flatMap QuotedUnit.text, '"' :: rest) := by
  simp only [closingByte?, Option.map_eq_some_iff, Prod.exists, close?_eq_some_iff,
    Text.splitBytes?_eq_some_iff, isContent_iff_exists_units]
  constructor
  · rintro ⟨_, rest, ⟨hs, units, rfl⟩, hn⟩
    exact ⟨units, rest, hs, hn⟩
  · rintro ⟨units, rest, hs, hn⟩
    exact ⟨_, rest, ⟨hs, units, rfl⟩, hn⟩

/-- A text with a backslash before each of its characters that would be special between double
quotes. A newline needs none. -/
def protect (t : Text) : Text :=
  t.flatMap fun c => if c ∈ ['$', '\x60', '"', '\\'] then ['\\', c] else [c]

theorem exists_units_protect (t : Text) : ∃ units : List QuotedUnit,
    units.flatMap QuotedUnit.text = protect t ∧ units.flatMap QuotedUnit.value = t := by
  induction t with
  | nil => exact ⟨[], rfl, rfl⟩
  | cons c t ih =>
    obtain ⟨units, htext, hvalue⟩ := ih
    rw [protect, List.flatMap_cons, ← protect, ← htext]
    by_cases hc : c ∈ ['$', '\x60', '"', '\\']
    · have hspecial : c ∈ ['$', '\x60', '"', '\\', '\n'] := List.mem_append_left ['\n'] hc
      refine ⟨.escaped c :: units, ?_, ?_⟩
      · rw [if_pos hc, List.flatMap_cons, QuotedUnit.text]
      · rw [List.flatMap_cons, QuotedUnit.value, if_pos hspecial, hvalue, List.singleton_append]
    · have hq : c ≠ '"' := by rintro rfl; exact hc (by decide)
      have hb : c ≠ '\\' := by rintro rfl; exact hc (by decide)
      refine ⟨.plain c hq hb :: units, ?_, ?_⟩
      · rw [if_neg hc, List.flatMap_cons, QuotedUnit.text]
      · rw [List.flatMap_cons, QuotedUnit.value, hvalue, List.singleton_append]

/-- A line that is one double-quoted text splits to one word. -/
theorem split_doubleQuoted (h : IsContent content) :
    split ('"' :: (content ++ ['"'])) = .ok [decode content] := by
  let w : WordSpan := ⟨[], [], .doubleQuoted content, [], true⟩
  have hw : w.Before [] := ⟨by simp [w], trivial, h, rfl, .lineEnd, .inl rfl⟩
  have hspan : w.span = '"' :: (content ++ ['"']) := by
    simp [w, WordSpan.span, WordSpan.steps, Step.raw, Quote.char]
  have hword : w.word = decode content := by
    simp [w, WordSpan.word, WordSpan.steps, Step.text, Step.value]
  rw [← hspan, split, splitReport_span hw, hword]

/-- The search for the closing quote and the decoding agree on how backslashes pair: what stands
before the quote is units, in one way only, and is decoded unit by unit. So a text comes back from
between double quotes if its special characters are protected. -/
theorem closing_decoding_agree (s : Text) :
    (∀ n, closingByte? s = some n ↔ ∃ (units : List QuotedUnit) (rest : Text),
      s.splitBytes? n = some (units.flatMap QuotedUnit.text, '"' :: rest)) ∧
    (∀ units : List QuotedUnit,
      (∀ units' : List QuotedUnit,
        units'.flatMap QuotedUnit.text = units.flatMap QuotedUnit.text ↔ units' = units) ∧
      decode (units.flatMap QuotedUnit.text) = units.flatMap QuotedUnit.value) ∧
    ∀ t, split ('"' :: (protect t ++ ['"'])) = .ok [t] := by
  refine ⟨fun n => closingByte?_eq_some_iff, fun units => ⟨fun units' => ?_, ?_⟩, fun t => ?_⟩
  · exact ⟨QuotedUnit.flatMap_text_inj, fun h => h ▸ rfl⟩
  · exact QuotedUnit.decode_flatMap_text units
  · obtain ⟨units, htext, hvalue⟩ := exists_units_protect t
    rw [← htext, split_doubleQuoted (QuotedUnit.isContent_flatMap_text units),
      QuotedUnit.decode_flatMap_text, hvalue]

end DoubleQuoted

end CommandWords
