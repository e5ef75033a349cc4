import CommandWords.Proofs.Line.Spans

/-!
# What splitting keeps of a line

The words of a line hold what the line holds without its syntax. `Keeps` says of a text that it is
made from another one by leaving out characters, and only such as can be syntax: white space,
backslashes and quotes. A step keeps the text that it is read from (`Step.keeps`), and so does a word
(`WordSpan.Before.keeps`) and a whole line (`keeps_of_split`).
-/

namespace CommandWords

/-- A text that holds what another one holds, in the same order, up to white space, backslashes and
quotes, some of which are left out. -/
structure Keeps (kept text : Text) : Prop where
  sublist : kept.Sublist text
  filter_eq : kept.filter (!endsWord ·) = text.filter (!endsWord ·)

variable {kept kept' text text' rest line : Text} {c : Char}

namespace Keeps

theorem refl (text : Text) : Keeps text text := ⟨.refl _, rfl⟩

theorem append (h : Keeps kept text) (h' : Keeps kept' text') :
    Keeps (kept ++ kept') (text ++ text') where
  sublist := h.sublist.append h'.sublist
  filter_eq := by rw [List.filter_append, List.filter_append, h.filter_eq, h'.filter_eq]

theorem cons (c : Char) (h : Keeps kept text) : Keeps (c :: kept) (c :: text) :=
  (refl [c]).append h

/-- White space, backslashes and quotes may be left out. -/
theorem of_endsWord (h : ∀ c ∈ text, endsWord c = true) : Keeps [] text where
  sublist := List.nil_sublist text
  filter_eq := by
    rw [List.filter_nil, eq_comm, List.filter_eq_nil_iff]
    intro c hc
    simp [h c hc]

theorem of_isBlank (h : ∀ c ∈ text, isBlank c = true) : Keeps [] text :=
  of_endsWord fun c hc => by simp [endsWord, h c hc]

theorem skip (hc : endsWord c = true) (h : Keeps kept text) : Keeps kept (c :: text) := by
  have hone : Keeps [] [c] := of_endsWord (by simpa using hc)
  exact hone.append h

theorem flatMap {α : Type} {f g : α → Text} {xs : List α} (h : ∀ x ∈ xs, Keeps (f x) (g x)) :
    Keeps (xs.flatMap f) (xs.flatMap g) := by
  induction xs with
  | nil => exact refl []
  | cons x xs ih =>
    rw [List.forall_mem_cons] at h
    exact h.1.append (ih h.2)

/-- The quotes around a content may be left out. -/
theorem quoted (quote : Quote) (h : Keeps kept text) :
    Keeps kept (quote.char :: text ++ [quote.char]) := by
  have hq : endsWord quote.char = true := by cases quote <;> decide
  have hclose : Keeps [] [quote.char] := of_endsWord (by simpa using hq)
  simpa using (h.append hclose).skip hq

end Keeps

/-- Of a double-quoted content only backslashes are left out. -/
theorem DoubleQuoted.keeps_decode (content : Text) : Keeps (decode content) content := by
  fun_induction decode content with
  | case1 => exact .refl []
  | case2 c => exact .refl [c]
  | case3 c d cs h ih =>
    obtain ⟨rfl, -⟩ := h
    exact (ih.cons d).skip rfl
  | case4 c d cs _ ih => exact ih.cons c

/-- A step adds to its word what it is read from. -/
theorem Step.keeps (step : Step) : Keeps step.text step.raw := by
  cases step with
  | word text => exact .refl text
  | singleQuoted content => exact (Keeps.refl content).quoted .single
  | doubleQuoted content => exact (DoubleQuoted.keeps_decode content).quoted .double
  | escaped c =>
    cases c with
    | none => exact .refl ['\\']
    | some c => exact (Keeps.refl [c]).skip rfl
  | unclosed quote => exact .of_endsWord (by cases quote <;> simp [raw, endsWord])

/-- A word keeps what its span holds. -/
theorem WordSpan.Before.keeps {w : WordSpan} (h : w.Before rest) : Keeps w.word w.span := by
  have hsteps : Keeps w.word (w.steps.flatMap Step.raw) := .flatMap fun step _ => step.keeps
  have hseparator : Keeps [] w.separator := .of_isBlank fun c hc => by
    rcases h.separates.separator_eq with hnil | ⟨d, hd, hblank⟩
    · simp [hnil] at hc
    · obtain rfl : c = d := by simpa [hd] using hc
      exact hblank
  simpa [WordSpan.span] using ((Keeps.of_isBlank h.blanks).append hsteps).append hseparator

/-- The words of a line keep what the line holds. -/
theorem keeps_of_split {words : List Text} (h : split line = .ok words) :
    Keeps words.flatten line := by
  obtain ⟨ws, text, hread, rfl⟩ := exists_readsAs_of_split h
  have hwords : Keeps (ws.flatMap WordSpan.word) (ws.flatMap WordSpan.span) :=
    .flatMap fun w hw => by
      obtain ⟨rest, hbefore⟩ := hread.exists_before w hw
      exact hbefore.keeps
  rw [← List.flatMap_def, hread.line_eq]
  simpa [LineEnd.text] using hwords.append (.of_isBlank hread.valid)

/-- Splitting adds nothing to a line, changes no order and drops only syntax: the words put together
are what is left of the line when some of its characters are left out, and all of those are white
space, backslashes or quotes. -/
theorem flatten_sublist_of_split {words : List Text} (h : split line = .ok words) :
    words.flatten.Sublist line ∧
      words.flatten.filter (!endsWord ·) = line.filter (!endsWord ·) :=
  ⟨(keeps_of_split h).sublist, (keeps_of_split h).filter_eq⟩

/-- Backslashes that stay and that disappear, an empty pair of quotes and a quoted newline. -/
theorem flatten_sublist_mixed :
    split "a\\ \"\\$\\x\"'' \\\n'\n'".toList = .ok ["a $\\x".toList, "\\".toList, "\n".toList] ∧
      ("a $\\x\\\n".toList.Sublist "a\\ \"\\$\\x\"'' \\\n'\n'".toList ∧
        "a $\\x\\\n".toList.filter (!endsWord ·) =
          "a\\ \"\\$\\x\"'' \\\n'\n'".toList.filter (!endsWord ·)) := by
  have hsplit : split "a\\ \"\\$\\x\"'' \\\n'\n'".toList =
      .ok ["a $\\x".toList, "\\".toList, "\n".toList] := by
    rw [← Automaton.result_run_start]
    rfl
  exact ⟨hsplit, flatten_sublist_of_split hsplit⟩

end CommandWords
