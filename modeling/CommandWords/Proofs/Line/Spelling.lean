import CommandWords.Proofs.Line.Automaton

/-!
# Every spelling of a word

A word can be spelled in many ways besides the one that `escape` chooses: as an empty pair of quotes,
or as fragments, each of which is bare, between single quotes, between double quotes or behind a
backslash (`Fragment`, `Spelling`). A line of spellings has white space between them, and may have
more before the first and behind the last (`SpelledLine`).

The automaton reads a fragment as the step of its form (`Automaton.run_fragment`), goes on with the
word from one fragment to the next, and is between two words behind a spelling and its white space
(`Automaton.result_run_spelling`). So splitting such a line gives the words that it spells
(`split_text`).
-/

namespace CommandWords

/-- A part of a double-quoted text that stands for itself, or a backslash with the character behind
it. -/
inductive QuotedUnit where
  | plain (c : Char) (not_quote : c ≠ '"') (not_backslash : c ≠ '\\')
  | escaped (c : Char)

namespace QuotedUnit

def text : QuotedUnit → Text
  | plain c _ _ => [c]
  | escaped c => ['\\', c]

/-- What a unit stands for: the backslash disappears before five characters. -/
def value : QuotedUnit → Text
  | plain c _ _ => [c]
  | escaped c => if c ∈ ['$', '\x60', '"', '\\', '\n'] then [c] else ['\\', c]

end QuotedUnit

/-- A part of a word in one way of quoting. -/
inductive Fragment where
  /-- Characters that stand for themselves. -/
  | bare (text : Text) (ne_nil : text ≠ [])
    (plain : ∀ c ∈ text, isBlank c = false ∧ c ≠ '\\' ∧ c ≠ '\x27' ∧ c ≠ '"')
  | singleQuoted (content : Text) (ne_nil : content ≠ []) (plain : '\x27' ∉ content)
  | doubleQuoted (units : List QuotedUnit) (ne_nil : units ≠ [])
  /-- A character behind a backslash. -/
  | escaped (c : Char) (not_newline : c ≠ '\n')

namespace Fragment

def text : Fragment → Text
  | bare text _ _ => text
  | singleQuoted content _ _ => '\x27' :: content ++ ['\x27']
  | doubleQuoted units _ => '"' :: units.flatMap QuotedUnit.text ++ ['"']
  | escaped c _ => ['\\', c]

/-- What a fragment stands for. -/
def value : Fragment → Text
  | bare text _ _ => text
  | singleQuoted content _ _ => content
  | doubleQuoted units _ => units.flatMap QuotedUnit.value
  | escaped c _ => [c]

/-- The step that a fragment is read as. Bare fragments next to each other are read in one step, but
the automaton reads them one by one. -/
def step : Fragment → Step
  | bare text _ _ => .word text
  | singleQuoted content _ _ => .singleQuoted content
  | doubleQuoted units _ => .doubleQuoted (units.flatMap QuotedUnit.text)
  | escaped c _ => .escaped (some c)

end Fragment

/-- A way to write a word. -/
inductive Spelling where
  /-- The empty word. -/
  | emptyQuotes (quote : Quote)
  | fragments (first : Fragment) (rest : List Fragment)

namespace Spelling

def text : Spelling → Text
  | emptyQuotes quote => [quote.char, quote.char]
  | fragments first rest => (first :: rest).flatMap Fragment.text

/-- The word that is spelled. -/
def word : Spelling → Text
  | emptyQuotes _ => []
  | fragments first rest => (first :: rest).flatMap Fragment.value

end Spelling

/-- A line of spelled words, each with the white space behind it. -/
structure SpelledLine where
  /-- The white space before the first word. -/
  leading : Text
  words : List (Spelling × Text)
  isBlank_leading : ∀ c ∈ leading, isBlank c = true
  isBlank_behind : ∀ w ∈ words, ∀ c ∈ w.2, isBlank c = true
  /-- There is white space between two words; behind the last there may be none. -/
  separated : ∀ w ∈ words.dropLast, w.2 ≠ []

def SpelledLine.text (line : SpelledLine) : Text :=
  line.leading ++ line.words.flatMap fun w => w.1.text ++ w.2

/-! ## Fragments as steps -/

theorem QuotedUnit.isContent_flatMap_text (units : List QuotedUnit) :
    DoubleQuoted.IsContent (units.flatMap text) := by
  induction units with
  | nil => exact .nil
  | cons unit units ih =>
    cases unit with
    | plain c hq hb => exact .plain hq hb ih
    | escaped c => exact .escaped ih

theorem QuotedUnit.decode_flatMap_text (units : List QuotedUnit) :
    DoubleQuoted.decode (units.flatMap text) = units.flatMap value := by
  induction units with
  | nil => rfl
  | cons unit units ih =>
    rw [List.flatMap_cons, List.flatMap_cons, ← ih]
    cases unit with
    | plain c hq hb => exact DoubleQuoted.decode_plain hb _
    | escaped c => exact DoubleQuoted.decode_escaped c _

theorem QuotedUnit.flatMap_text_ne_nil {units : List QuotedUnit} (h : units ≠ []) :
    units.flatMap text ≠ [] := by
  obtain ⟨unit, units, rfl⟩ := List.exists_cons_of_ne_nil h
  cases unit <;> simp [text]

namespace Fragment

theorem raw_step (f : Fragment) : f.step.raw = f.text := by cases f <;> rfl

theorem text_step (f : Fragment) : f.step.text = f.value := by
  cases f with
  | doubleQuoted units _ => exact QuotedUnit.decode_flatMap_text units
  | bare | singleQuoted | escaped => rfl

/-- A fragment is a step that can end a line. -/
theorem before_step (f : Fragment) : f.step.Before [] := by
  cases f with
  | bare text hne h =>
    refine ⟨hne, fun c hc => ?_, by simp⟩
    obtain ⟨hblank, hback, hsingle, hdouble⟩ := h c hc
    simp [endsWord, hblank, hback, Quote.char, hsingle, hdouble]
  | singleQuoted content _ h => exact h
  | doubleQuoted units _ => exact QuotedUnit.isContent_flatMap_text units
  | escaped c h => exact h

theorem isClosed_step (f : Fragment) : f.step.isClosed = true := by cases f <;> rfl

theorem isEmptyQuotes_step (f : Fragment) : f.step.isEmptyQuotes = false := by
  cases f with
  | singleQuoted content hne _ => simpa [step, Step.isEmptyQuotes] using hne
  | doubleQuoted units hne =>
    rw [step, Step.isEmptyQuotes, List.isEmpty_eq_false_iff]
    exact QuotedUnit.flatMap_text_ne_nil hne
  | bare | escaped => rfl

theorem step_ne_escaped_none (f : Fragment) : f.step ≠ .escaped none := by
  cases f <;> simp [step]

end Fragment

/-! ## Reading spellings -/

namespace Automaton

variable {ws : List Text} {current : Option Text} {n : Nat}

/-- A fragment goes on with the word. -/
theorem run_fragment (f : Fragment) :
    run ⟨.plain, ws, current, n⟩ f.text =
      ⟨.plain, ws, some (current.getD [] ++ f.value), n + f.text.byteSize⟩ := by
  rw [← f.raw_step, ← f.text_step]
  exact run_raw f.before_step f.isClosed_step f.isEmptyQuotes_step f.step_ne_escaped_none

theorem run_fragments (word : Text) (fs : List Fragment) :
    run ⟨.plain, ws, some word, n⟩ (fs.flatMap Fragment.text) =
      ⟨.plain, ws, some (word ++ fs.flatMap Fragment.value),
        n + Text.byteSize (fs.flatMap Fragment.text)⟩ := by
  induction fs generalizing word n with
  | nil => simp
  | cons f fs ih =>
    rw [List.flatMap_cons, List.flatMap_cons, run_append, run_fragment, ih, Option.getD_some,
      List.append_assoc, Text.byteSize_append, Nat.add_assoc]

/-- An empty pair of quotes finishes the empty word, and fragments leave theirs open. -/
theorem run_spelling (s : Spelling) :
    run ⟨.plain, ws, none, n⟩ s.text = ⟨.plain, ws ++ [s.word], none, n + s.text.byteSize⟩ ∨
      run ⟨.plain, ws, none, n⟩ s.text = ⟨.plain, ws, some s.word, n + s.text.byteSize⟩ := by
  cases s with
  | emptyQuotes quote =>
    have hsingle : (Step.singleQuoted []).isEmptyQuotes = true := rfl
    have hdouble : (Step.doubleQuoted []).isEmptyQuotes = true := rfl
    cases quote with
    | single => exact .inl (run_emptyQuotes hsingle)
    | double => exact .inl (run_emptyQuotes hdouble)
  | fragments first rest =>
    refine .inr ?_
    rw [Spelling.text, List.flatMap_cons, run_append, run_fragment, run_fragments,
      Text.byteSize_append, Nat.add_assoc]
    rfl

/-- White space behind a spelling, or the end of the line, finishes its word. -/
theorem result_run_spelling (s : Spelling) {blanks rest : Text}
    (hb : ∀ c ∈ blanks, isBlank c = true) (hs : blanks = [] → rest = []) :
    (run ⟨.plain, ws, none, n⟩ (s.text ++ blanks ++ rest)).result =
      (run ⟨.plain, ws ++ [s.word], none, n + Text.byteSize (s.text ++ blanks)⟩ rest).result := by
  rw [run_append, run_append, Text.byteSize_append, ← Nat.add_assoc]
  rcases run_spelling s with h | h
  · rw [h, run_blanks hb]
  · rw [h]
    cases blanks with
    | nil =>
      rw [hs rfl]
      rfl
    | cons c cs =>
      have hread : read ⟨.plain, ws, some s.word, n + s.text.byteSize⟩ c =
          ⟨.plain, ws ++ [s.word], none, n + s.text.byteSize + c.utf8Size⟩ := by
        simp [read, hb c List.mem_cons_self, finishWord]
      rw [run_cons, hread, run_blanks fun d hd => hb d (List.mem_cons_of_mem c hd),
        Text.byteSize_cons, Nat.add_assoc (n + s.text.byteSize)]

/-- Between two words the automaton finds the words that are spelled in the rest of the line. -/
theorem result_run_spellings {words : List (Spelling × Text)}
    (hb : ∀ w ∈ words, ∀ c ∈ w.2, isBlank c = true) (hs : ∀ w ∈ words.dropLast, w.2 ≠ []) :
    (run ⟨.plain, ws, none, n⟩ (words.flatMap fun w => w.1.text ++ w.2)).result =
      .ok (ws ++ words.map fun w => w.1.word) := by
  induction words generalizing ws n with
  | nil => simp [result, finishWord]
  | cons w words ih =>
    have hlast : w.2 = [] → (words.flatMap fun w => w.1.text ++ w.2) = [] := by
      cases words with
      | nil => exact fun _ => rfl
      | cons next words => exact fun hnil => absurd hnil (hs w (by simp))
    have hs' : ∀ v ∈ words.dropLast, v.2 ≠ [] := by
      cases words with
      | nil => simp
      | cons next words => exact fun v hv => hs v (by simpa using .inr hv)
    rw [List.flatMap_cons, result_run_spelling w.1 (hb w List.mem_cons_self) hlast,
      ih (fun v hv => hb v (List.mem_cons_of_mem w hv)) hs']
    simp

end Automaton

/-- Splitting a line gives the words that it spells, however they are spelled. -/
theorem split_text (line : SpelledLine) :
    split line.text = .ok (line.words.map fun w => w.1.word) := by
  rw [← Automaton.result_run_start, SpelledLine.text, Automaton.run_append, Automaton.start,
    Automaton.run_blanks line.isBlank_leading,
    Automaton.result_run_spellings line.isBlank_behind line.separated, List.nil_append]

/-- A word in all four ways of quoting, and an empty one at the end of the line. -/
theorem split_text_mixed :
    split "\ta\\ 'b\"'\"\\$\\c\"  ''".toList = .ok ["a b\"$\\c".toList, []] :=
  split_text
    { leading := ['\t']
      words := [
        (.fragments (.bare ['a'] (by simp) (by simp [isBlank])) [.escaped ' ' (by simp),
          .singleQuoted ['b', '"'] (by simp) (by simp),
          .doubleQuoted [.escaped '$', .escaped 'c'] (by simp)], [' ', ' ']),
        (.emptyQuotes .single, [])]
      isBlank_leading := by simp [isBlank]
      isBlank_behind := by simp [isBlank]
      separated := by simp }

end CommandWords
