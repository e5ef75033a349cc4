import CommandWords.Proofs.Line.Spans
import Mathlib.Algebra.Group.Nat.Even
import Mathlib.Data.List.DropRight

/-!
# Unmatched quotes

When the automaton stands between quotes, the byte it keeps is that of a quote which it met outside
quotes, and between double quotes a backslash comes before the next character exactly if an odd
number of backslashes has just been read (`Automaton.opened_start`).

`locates_of_split` says from this and from the parts of the line what an unmatched quote tells: where
it stands, that the line before it splits, which words are finished, and when closing it at the end
of the line repairs the line (`Locates`).
-/

namespace CommandWords

/-- The number of backslashes that a text ends in. -/
def trailingBackslashes (s : Text) : Nat := (s.rtakeWhile (· == '\\')).length

theorem trailingBackslashes_concat (s : Text) (c : Char) :
    trailingBackslashes (s ++ [c]) = if c = '\\' then trailingBackslashes s + 1 else 0 := by
  rw [trailingBackslashes, List.rtakeWhile_concat]
  by_cases h : c = '\\' <;> simp [h, trailingBackslashes]

namespace Automaton

/-- A quote of a line at which the automaton was outside quotes. -/
structure OpenedAt (line : Text) (quote : Quote) (opened : Nat) (before behind : Text) : Prop where
  line_eq : line = before ++ quote.char :: behind
  byteSize_eq : before.byteSize = opened
  plain : (run start before).mode = .plain

theorem OpenedAt.concat {line before behind : Text} {quote : Quote} {opened : Nat}
    (h : OpenedAt line quote opened before behind) (c : Char) :
    OpenedAt (line ++ [c]) quote opened before (behind ++ [c]) :=
  ⟨by rw [h.line_eq, List.append_assoc, List.cons_append], h.byteSize_eq, h.plain⟩

/-- What the automaton knows of the quote it is in after a line. -/
def Opened (line : Text) : Mode → Prop
  | .plain => True
  | .afterBackslash => True
  | .inSingle opened => ∃ before behind, OpenedAt line .single opened before behind
  | .inDouble opened => ∃ before behind, OpenedAt line .double opened before behind ∧
      Even (trailingBackslashes behind)
  | .inDoubleAfterBackslash opened =>
    ∃ before behind, OpenedAt line .double opened before behind ∧
      ¬ Even (trailingBackslashes behind)

theorem openedAt_concat {line : Text} {quote : Quote} {c : Char}
    (h : (run start line).mode = .plain) (hc : c = quote.char) :
    OpenedAt (line ++ [c]) quote (run start line).offset line [] :=
  ⟨by rw [hc], by rw [offset_run]; exact (Nat.zero_add _).symm, h⟩

/-- One character keeps what the automaton knows of the open quote. -/
theorem opened_read {line : Text} (c : Char) (h : Opened line (run start line).mode) :
    Opened (line ++ [c]) ((run start line).read c).mode := by
  rw [mode_read]
  cases hm : (run start line).mode with
  | plain =>
    dsimp only
    split_ifs with hblank hback hsingle hdouble
    · trivial
    · trivial
    · exact ⟨line, [], openedAt_concat hm hsingle⟩
    · exact ⟨line, [], openedAt_concat hm hdouble, ⟨0, rfl⟩⟩
    · trivial
  | afterBackslash => trivial
  | inSingle opened =>
    rw [hm] at h
    obtain ⟨before, behind, ho⟩ := h
    dsimp only
    split_ifs with hsingle
    · trivial
    · exact ⟨before, behind ++ [c], ho.concat c⟩
  | inDouble opened =>
    rw [hm] at h
    obtain ⟨before, behind, ho, he⟩ := h
    dsimp only
    split_ifs with hdouble hback
    · trivial
    · refine ⟨before, behind ++ [c], ho.concat c, ?_⟩
      rw [trailingBackslashes_concat, if_pos hback, Nat.even_add_one, not_not]
      exact he
    · refine ⟨before, behind ++ [c], ho.concat c, ?_⟩
      rw [trailingBackslashes_concat, if_neg hback]
      exact ⟨0, rfl⟩
  | inDoubleAfterBackslash opened =>
    rw [hm] at h
    obtain ⟨before, behind, ho, he⟩ := h
    refine ⟨before, behind ++ [c], ho.concat c, ?_⟩
    rw [trailingBackslashes_concat]
    split_ifs with hback
    · exact Nat.even_add_one.2 he
    · exact ⟨0, rfl⟩

theorem opened_start (line : Text) : Opened line (run start line).mode := by
  induction line using List.reverseRecOn with
  | nil => trivial
  | append_singleton line c ih =>
    rw [run_append]
    exact opened_read c ih

variable {a : Automaton} {line : Text} {e : UnmatchedQuote}

theorem exists_result_eq_ok (h : a.mode = .plain) : ∃ words, a.result = .ok words :=
  ⟨a.finishWord.words, by rw [result, h]⟩

/-- The three modes between quotes are those that end in an error. -/
theorem mode_of_result_eq_error (h : a.result = .error e) :
    a.mode = .inSingle e.offset ∧ e.quote = .single ∨
      (a.mode = .inDouble e.offset ∨ a.mode = .inDoubleAfterBackslash e.offset) ∧
        e.quote = .double := by
  obtain ⟨mode, words, current, offset⟩ := a
  cases mode with
  | plain | afterBackslash => cases h
  | inSingle opened =>
    obtain rfl : ⟨.single, opened⟩ = e := Except.error.inj h
    exact .inl ⟨rfl, rfl⟩
  | inDouble opened =>
    obtain rfl : ⟨.double, opened⟩ = e := Except.error.inj h
    exact .inr ⟨.inl rfl, rfl⟩
  | inDoubleAfterBackslash opened =>
    obtain rfl : ⟨.double, opened⟩ = e := Except.error.inj h
    exact .inr ⟨.inr rfl, rfl⟩

theorem split_concat (line : Text) (c : Char) :
    split (line ++ [c]) = ((run start line).read c).result := by
  rw [← result_run_start, run_append, run_cons, run_nil]

/-- The quote of an error was met outside quotes, and closing it at the end of the line leaves it,
unless a backslash comes before. -/
theorem exists_openedAt (h : split line = .error e) :
    ∃ before behind, OpenedAt line e.quote e.offset before behind ∧
      ((∃ words, split (line ++ [e.quote.char]) = .ok words) ↔
        e.quote = .single ∨ Even (trailingBackslashes behind)) := by
  have hopen := opened_start line
  rw [← result_run_start] at h
  rcases mode_of_result_eq_error h with ⟨hm, hq⟩ | ⟨hm | hm, hq⟩
  · rw [hm] at hopen
    obtain ⟨before, behind, ho⟩ := hopen
    rw [hq, split_concat]
    have hplain : ((run start line).read Quote.single.char).mode = .plain := by
      rw [mode_read, hm]
      rfl
    exact ⟨before, behind, ho, iff_of_true (exists_result_eq_ok hplain) (.inl rfl)⟩
  · rw [hm] at hopen
    obtain ⟨before, behind, ho, he⟩ := hopen
    rw [hq, split_concat]
    have hplain : ((run start line).read Quote.double.char).mode = .plain := by
      rw [mode_read, hm]
      rfl
    exact ⟨before, behind, ho, iff_of_true (exists_result_eq_ok hplain) (.inr he)⟩
  · rw [hm] at hopen
    obtain ⟨before, behind, ho, he⟩ := hopen
    rw [hq, split_concat]
    have hdouble : ((run start line).read Quote.double.char).mode = .inDouble e.offset := by
      rw [mode_read, hm]
    refine ⟨before, behind, ho, iff_of_false ?_ ?_⟩
    · rintro ⟨words, hw⟩
      rw [result, hdouble] at hw
      cases hw
    · rintro (hs | hs)
      · cases hs
      · exact he hs

theorem OpenedAt.exists_split_eq_ok {quote : Quote} {opened : Nat} {before behind : Text}
    (h : OpenedAt line quote opened before behind) : ∃ words, split before = .ok words := by
  rw [← result_run_start]
  exact exists_result_eq_ok h.plain

end Automaton

/-- What an unmatched quote tells of a line. Before it stands `before` and behind it `behind`; the
part of the line behind the finished words is `rest`. -/
structure Locates (line : Text) (e : UnmatchedQuote) (before behind rest : Text) : Prop where
  quote_char : e.quote.char = '\x27' ∨ e.quote.char = '"'
  /-- The quote stands at its byte. -/
  split_offset : line.splitBytes? e.offset = some (before, e.quote.char :: behind)
  /-- Up to the quote the line splits. -/
  split_before : ∃ words, split before = .ok words
  /-- The spans are the beginning of the line. -/
  split_spans : line.splitBytes? (Text.byteSize (splitReport line).spans.flatten) =
    some ((splitReport line).spans.flatten, rest)
  spans_le : Text.byteSize (splitReport line).spans.flatten ≤ e.offset
  /-- Each of them is a word of its own. -/
  split_span : ∀ span ∈ (splitReport line).spans, ∃ word, split span = .ok [word]
  /-- What follows them fails at once, at the same quote. -/
  spans_rest : (splitReport rest).spans = []
  split_rest : split rest =
    .error ⟨e.quote, e.offset - Text.byteSize (splitReport line).spans.flatten⟩
  /-- One more quote at the end of the line closes this one, unless a backslash protects it. -/
  split_concat : (∃ words, split (line ++ [e.quote.char]) = .ok words) ↔
    e.quote = .single ∨ Even (trailingBackslashes behind)

/-- The words of a line with an unmatched quote, and the part of the line behind them, which fails at
once. -/
theorem exists_rest_of_split {line : Text} {e : UnmatchedQuote} (h : split line = .error e) :
    ∃ rest, line = (splitReport line).spans.flatten ++ rest ∧
      (∀ span ∈ (splitReport line).spans, ∃ word, split span = .ok [word]) ∧
        (splitReport rest).spans = [] ∧ ∃ n, split rest = .error ⟨e.quote, n⟩ ∧
          e.offset = Text.byteSize (splitReport line).spans.flatten + n := by
  obtain ⟨words, stop, hread⟩ := exists_readsAs line
  cases stop with
  | blank text =>
    rw [split, splitReport_of_blank hread] at h
    cases h
  | unclosed blanks front quote behind =>
    obtain ⟨hwords, hspans⟩ := splitReport_of_unclosed hread
    obtain ⟨hrest, hnone⟩ := splitReport_of_unclosed (.stop _ hread.valid)
    obtain rfl := Except.error.inj (hwords.symm.trans h)
    rw [hspans, ← List.flatMap_def]
    refine ⟨_, hread.line_eq, ?_, hnone, _, hrest, ?_⟩
    · intro span hs
      obtain ⟨w, hw, rfl⟩ := List.mem_map.1 hs
      exact ⟨w.word, by rw [split, hread.splitReport_span w hw]⟩
    · simp

/-- Every unmatched quote tells this. -/
theorem locates_of_split {line : Text} {e : UnmatchedQuote} (h : split line = .error e) :
    ∃ before behind rest, Locates line e before behind rest := by
  obtain ⟨before, behind, hopen, hconcat⟩ := Automaton.exists_openedAt h
  obtain ⟨rest, hline, hspan, hnone, n, hrest, hoffset⟩ := exists_rest_of_split h
  have hn : e.offset - Text.byteSize (splitReport line).spans.flatten = n := by omega
  exact ⟨before, behind, rest,
    { quote_char := by cases e.quote <;> simp [Quote.char]
      split_offset := Text.splitBytes?_eq_some_iff.2 ⟨hopen.line_eq, hopen.byteSize_eq⟩
      split_before := hopen.exists_split_eq_ok
      split_spans := Text.splitBytes?_eq_some_iff.2 ⟨hline, rfl⟩
      spans_le := by omega
      split_span := hspan
      spans_rest := hnone
      split_rest := by rw [hn, hrest]
      split_concat := hconcat }⟩

/-- White space and a word before the quote, a finished piece of the word that it interrupts, and a
backslash behind it. -/
theorem locates_dangling :
    split " a b'c'\"d\\\\\\".toList = .error ⟨.double, 7⟩ ∧
      ∃ before behind rest, Locates " a b'c'\"d\\\\\\".toList ⟨.double, 7⟩ before behind rest := by
  have hsplit : split " a b'c'\"d\\\\\\".toList = .error ⟨.double, 7⟩ := by
    rw [← Automaton.result_run_start]
    rfl
  exact ⟨hsplit, locates_of_split hsplit⟩

end CommandWords
