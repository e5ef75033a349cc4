import CommandWords.Proofs.Line.Reading

/-!
# Splitting by an automaton

The automaton reads a line one character at a time. It knows whether it stands outside quotes,
between single or between double quotes, and whether a backslash comes before the next character;
it keeps the finished words, the word being read, if there is one, and the byte of the line it has
come to. Between quotes it also keeps the byte the quote stands at.

* `Automaton.result_run_readsAs`: what the automaton makes of a line that has been read.
* `Automaton.result_run`: running on between two words is splitting the rest of the line.
* `split_eq_foldl_read`: splitting a line is running the automaton over it.
-/

namespace CommandWords

/-- Where the automaton stands. A quote mode keeps the byte that the open quote stands at. -/
inductive Mode where
  | plain
  | afterBackslash
  | inSingle (opened : Nat)
  | inDouble (opened : Nat)
  | inDoubleAfterBackslash (opened : Nat)
deriving DecidableEq, Repr

/-- The mode behind a quote that opens at a byte. -/
def Mode.inQuotes : Quote → Nat → Mode
  | .single => .inSingle
  | .double => .inDouble

/-- The state of the automaton. -/
structure Automaton where
  mode : Mode
  /-- The finished words. -/
  words : List Text
  /-- The word being read. -/
  current : Option Text
  /-- The byte of the line behind the last character. -/
  offset : Nat
deriving DecidableEq, Repr

namespace Automaton

/-- Nothing has been read. -/
def start : Automaton := ⟨.plain, [], none, 0⟩

/-- Adds text to the word being read, which may begin with it. -/
def append (a : Automaton) (text : Text) : Automaton :=
  { a with current := some (a.current.getD [] ++ text) }

/-- Finishes the word being read, if there is one. -/
def finishWord (a : Automaton) : Automaton :=
  match a.current with
  | some word => { a with words := a.words ++ [word], current := none }
  | none => a

/-- Leaves a pair of quotes. If nothing stood between them, the word being read is finished; it is
empty if there was none. -/
def closeQuotes (a : Automaton) (isEmpty : Bool) : Automaton :=
  if isEmpty then (a.append []).finishWord else a

/-- Reads one character. -/
def read (a : Automaton) (c : Char) : Automaton :=
  let next (mode : Mode) : Automaton := { a with mode, offset := a.offset + c.utf8Size }
  match a.mode with
  | .plain =>
    if isBlank c then (next .plain).finishWord
    else if c = '\\' then next .afterBackslash
    else if c = Quote.single.char then next (.inSingle a.offset)
    else if c = Quote.double.char then next (.inDouble a.offset)
    else (next .plain).append [c]
  | .afterBackslash =>
    if c = '\n' then ((next .plain).append ['\\']).finishWord else (next .plain).append [c]
  | .inSingle opened =>
    if c = Quote.single.char then (next .plain).closeQuotes (a.offset == opened + 1)
    else (next (.inSingle opened)).append [c]
  | .inDouble opened =>
    if c = Quote.double.char then (next .plain).closeQuotes (a.offset == opened + 1)
    else if c = '\\' then next (.inDoubleAfterBackslash opened)
    else (next (.inDouble opened)).append [c]
  | .inDoubleAfterBackslash opened =>
    (next (.inDouble opened)).append
      (if c ∈ ['$', '\x60', '"', '\\', '\n'] then [c] else ['\\', c])

/-- Reads a text. -/
def run (a : Automaton) (s : Text) : Automaton := s.foldl read a

/-- What has been read if the line ends here. -/
def result (a : Automaton) : Except UnmatchedQuote (List Text) :=
  match a.mode with
  | .plain => .ok a.finishWord.words
  | .afterBackslash => .ok (a.append ['\\']).finishWord.words
  | .inSingle opened => .error ⟨.single, opened⟩
  | .inDouble opened => .error ⟨.double, opened⟩
  | .inDoubleAfterBackslash opened => .error ⟨.double, opened⟩

@[simp] theorem run_nil (a : Automaton) : a.run [] = a := rfl

@[simp] theorem run_cons (a : Automaton) (c : Char) (cs : Text) :
    a.run (c :: cs) = (a.read c).run cs := rfl

@[simp] theorem run_append (a : Automaton) (s t : Text) : a.run (s ++ t) = (a.run s).run t :=
  List.foldl_append

/-! ## Mode and offset -/

@[simp] theorem mode_append (a : Automaton) (text : Text) : (a.append text).mode = a.mode := rfl

@[simp] theorem mode_finishWord (a : Automaton) : a.finishWord.mode = a.mode := by
  unfold finishWord
  split <;> rfl

@[simp] theorem mode_closeQuotes (a : Automaton) (isEmpty : Bool) :
    (a.closeQuotes isEmpty).mode = a.mode := by
  unfold closeQuotes
  split <;> simp

@[simp] theorem offset_append (a : Automaton) (text : Text) :
    (a.append text).offset = a.offset := rfl

@[simp] theorem offset_finishWord (a : Automaton) : a.finishWord.offset = a.offset := by
  unfold finishWord
  split <;> rfl

@[simp] theorem offset_closeQuotes (a : Automaton) (isEmpty : Bool) :
    (a.closeQuotes isEmpty).offset = a.offset := by
  unfold closeQuotes
  split <;> simp

theorem offset_read (a : Automaton) (c : Char) : (a.read c).offset = a.offset + c.utf8Size := by
  obtain ⟨mode, words, current, offset⟩ := a
  cases mode with
  | plain | inSingle | inDouble => dsimp only [read]; split_ifs <;> simp
  | afterBackslash => dsimp only [read]; split <;> simp
  | inDoubleAfterBackslash => simp [read]

theorem offset_run (a : Automaton) (s : Text) : (a.run s).offset = a.offset + s.byteSize := by
  induction s generalizing a with
  | nil => rfl
  | cons c cs ih => rw [run_cons, ih, offset_read, Text.byteSize_cons, Nat.add_assoc]

theorem mode_read (a : Automaton) (c : Char) :
    (a.read c).mode = match a.mode with
      | .plain =>
        if isBlank c then .plain
        else if c = '\\' then .afterBackslash
        else if c = Quote.single.char then .inSingle a.offset
        else if c = Quote.double.char then .inDouble a.offset
        else .plain
      | .afterBackslash => .plain
      | .inSingle opened => if c = Quote.single.char then .plain else .inSingle opened
      | .inDouble opened =>
        if c = Quote.double.char then .plain
        else if c = '\\' then .inDoubleAfterBackslash opened
        else .inDouble opened
      | .inDoubleAfterBackslash opened => .inDouble opened := by
  obtain ⟨mode, words, current, offset⟩ := a
  cases mode with
  | plain | inSingle | inDouble => dsimp only [read]; split_ifs <;> simp
  | afterBackslash => dsimp only [read]; split <;> simp
  | inDoubleAfterBackslash => simp [read]

/-! ## Reading the steps -/

/-- The word being read with more text added; no text does not begin a word. -/
def extend (current : Option Text) (text : Text) : Option Text :=
  if text = [] then current else some (current.getD [] ++ text)

theorem extend_of_ne_nil {text : Text} (h : text ≠ []) (current : Option Text) :
    extend current text = some (current.getD [] ++ text) := if_neg h

theorem extend_some (word text : Text) : extend (some word) text = some (word ++ text) := by
  unfold extend
  split
  · rename_i h; rw [h, List.append_nil]
  · rfl

@[simp] theorem getD_extend_none (text : Text) : (extend none text).getD [] = text := by
  unfold extend
  split
  · rename_i h; exact h.symm
  · rfl

theorem extend_append {s : Text} (h : s ≠ []) (current : Option Text) (t : Text) :
    extend current (s ++ t) = extend (some (current.getD [] ++ s)) t := by
  rw [extend_some, extend_of_ne_nil (by simp [h]), List.append_assoc]

variable {ws : List Text} {current : Option Text} {n opened : Nat} {text content tail : Text}

theorem run_blanks (h : ∀ c ∈ text, isBlank c = true) :
    run ⟨.plain, ws, none, n⟩ text = ⟨.plain, ws, none, n + text.byteSize⟩ := by
  induction text generalizing n with
  | nil => rfl
  | cons c cs ih =>
    have hread : read ⟨.plain, ws, none, n⟩ c = ⟨.plain, ws, none, n + c.utf8Size⟩ := by
      simp [read, h c List.mem_cons_self, finishWord]
    rw [run_cons, hread, ih fun d hd => h d (List.mem_cons_of_mem c hd), Text.byteSize_cons,
      Nat.add_assoc]

theorem run_word (h : ∀ c ∈ text, endsWord c = false) :
    run ⟨.plain, ws, current, n⟩ text =
      ⟨.plain, ws, extend current text, n + text.byteSize⟩ := by
  induction text generalizing n current with
  | nil => rfl
  | cons c cs ih =>
    have hc := h c List.mem_cons_self
    simp only [endsWord, Bool.or_eq_false_iff, beq_eq_false_iff_ne] at hc
    have hread : read ⟨.plain, ws, current, n⟩ c =
        ⟨.plain, ws, some (current.getD [] ++ [c]), n + c.utf8Size⟩ := by
      simp [read, hc, append]
    rw [run_cons, hread, ih fun d hd => h d (List.mem_cons_of_mem c hd), Text.byteSize_cons,
      Nat.add_assoc, ← extend_append (List.cons_ne_nil c [])]
    rfl

theorem run_inSingle (h : Quote.single.char ∉ content) :
    run ⟨.inSingle opened, ws, current, n⟩ content =
      ⟨.inSingle opened, ws, extend current content, n + content.byteSize⟩ := by
  induction content generalizing n current with
  | nil => rfl
  | cons c cs ih =>
    rw [List.mem_cons, not_or] at h
    have hread : read ⟨.inSingle opened, ws, current, n⟩ c =
        ⟨.inSingle opened, ws, some (current.getD [] ++ [c]), n + c.utf8Size⟩ := by
      simp [read, Ne.symm h.1, append]
    rw [run_cons, hread, ih h.2, Text.byteSize_cons, Nat.add_assoc,
      ← extend_append (List.cons_ne_nil c [])]
    rfl

theorem run_inDouble (h : DoubleQuoted.IsContent content) :
    run ⟨.inDouble opened, ws, current, n⟩ content =
      ⟨.inDouble opened, ws, extend current (DoubleQuoted.decode content),
        n + content.byteSize⟩ := by
  induction h generalizing n current with
  | nil => rfl
  | @plain c cs hq hb _ ih =>
    have hread : read ⟨.inDouble opened, ws, current, n⟩ c =
        ⟨.inDouble opened, ws, some (current.getD [] ++ [c]), n + c.utf8Size⟩ := by
      simp [read, show c ≠ Quote.double.char from hq, hb, append]
    rw [run_cons, hread, ih, Text.byteSize_cons, Nat.add_assoc, DoubleQuoted.decode_plain hb,
      ← extend_append (List.cons_ne_nil c [])]
    rfl
  | @escaped d cs _ ih =>
    let unit : Text := if d ∈ ['$', '\x60', '"', '\\', '\n'] then [d] else ['\\', d]
    have hunit : unit ≠ [] := by unfold unit; split <;> simp
    have hread : (read ⟨.inDouble opened, ws, current, n⟩ '\\').read d =
        ⟨.inDouble opened, ws, some (current.getD [] ++ unit),
          n + ('\\'.utf8Size + d.utf8Size)⟩ := by
      simp [read, Quote.char, append, unit, Nat.add_assoc]
    rw [run_cons, run_cons, hread, ih, Text.byteSize_cons, Text.byteSize_cons,
      DoubleQuoted.decode_escaped, extend_append hunit]
    simp only [Nat.add_assoc]

/-- A pair of quotes is empty exactly if it closes one byte behind the byte it opens at. -/
theorem behind_quote_beq (n : Nat) (content : Text) :
    (n + 1 + content.byteSize == n + 1) = content.isEmpty := by
  cases content with
  | nil => simp
  | cons c cs =>
    have := c.utf8Size_pos
    rw [Text.byteSize_cons, List.isEmpty_cons, beq_eq_false_iff_ne]
    omega

theorem read_open (quote : Quote) :
    read ⟨.plain, ws, current, n⟩ quote.char = ⟨.inQuotes quote n, ws, current, n + 1⟩ := by
  cases quote <;> rfl

theorem read_close (quote : Quote) (content : Text) :
    read ⟨.inQuotes quote n, ws, current, n + 1 + content.byteSize⟩ quote.char =
      closeQuotes
        ⟨.plain, ws, current, n + Text.byteSize (quote.char :: (content ++ [quote.char]))⟩
        content.isEmpty := by
  have hquote : quote.char.utf8Size = 1 := by cases quote <;> rfl
  have hsize : n + 1 + content.byteSize + quote.char.utf8Size =
      n + Text.byteSize (quote.char :: (content ++ [quote.char])) := by
    simp [hquote, Nat.add_assoc]
  rw [← hsize, ← behind_quote_beq n content]
  cases quote <;> rfl

/-- A quoted text that is read as `text` between its quotes. -/
theorem run_quoted (quote : Quote)
    (h : run ⟨.inQuotes quote n, ws, current, n + 1⟩ content =
      ⟨.inQuotes quote n, ws, extend current text, n + 1 + content.byteSize⟩) :
    run ⟨.plain, ws, current, n⟩ (quote.char :: (content ++ [quote.char])) =
      closeQuotes
        ⟨.plain, ws, extend current text,
          n + Text.byteSize (quote.char :: (content ++ [quote.char]))⟩ content.isEmpty := by
  rw [run_cons, read_open, run_append, h, run_cons, run_nil, read_close]

theorem run_singleQuoted (h : Quote.single.char ∉ content) :
    run ⟨.plain, ws, current, n⟩ (Step.singleQuoted content).raw =
      closeQuotes ⟨.plain, ws, extend current content, n + (Step.singleQuoted content).raw.byteSize⟩
        content.isEmpty :=
  run_quoted .single (run_inSingle h)

theorem run_doubleQuoted (h : DoubleQuoted.IsContent content) :
    run ⟨.plain, ws, current, n⟩ (Step.doubleQuoted content).raw =
      closeQuotes ⟨.plain, ws, extend current (DoubleQuoted.decode content),
        n + (Step.doubleQuoted content).raw.byteSize⟩ content.isEmpty :=
  run_quoted .double (run_inDouble h)

variable {step : Step} {front : List Step}

/-- A step that is neither a lone backslash nor an empty pair of quotes goes on with the word. -/
theorem run_raw (h : step.Before tail) (hc : step.isClosed = true)
    (he : step.isEmptyQuotes = false) (hn : step ≠ .escaped none) :
    run ⟨.plain, ws, current, n⟩ step.raw =
      ⟨.plain, ws, some (current.getD [] ++ step.text), n + step.raw.byteSize⟩ := by
  cases step with
  | word text => rw [Step.raw, run_word h.2.1, extend_of_ne_nil h.1]; rfl
  | singleQuoted content =>
    have hempty : content ≠ [] := by simpa [Step.isEmptyQuotes] using he
    rw [run_singleQuoted h, closeQuotes, if_neg (by simpa using hempty), extend_of_ne_nil hempty]
    rfl
  | doubleQuoted content =>
    have hempty : content ≠ [] := by simpa [Step.isEmptyQuotes] using he
    rw [run_doubleQuoted h, closeQuotes, if_neg (by simpa using hempty),
      extend_of_ne_nil (DoubleQuoted.decode_ne_nil hempty)]
    rfl
  | escaped c =>
    cases c with
    | none => exact absurd rfl hn
    | some c =>
      have hread : read ⟨.plain, ws, current, n⟩ '\\' = ⟨.afterBackslash, ws, current, n + 1⟩ := rfl
      rw [Step.raw, run_cons, hread, run_cons, run_nil]
      simp [read, show c ≠ '\n' from h, append, Step.text, Step.value, Nat.add_assoc]
      rfl
  | unclosed quote => simp [Step.isClosed] at hc

theorem run_emptyQuotes (h : step.isEmptyQuotes = true) :
    run ⟨.plain, ws, current, n⟩ step.raw =
      ⟨.plain, ws ++ [current.getD [] ++ step.text], none, n + step.raw.byteSize⟩ := by
  cases step with
  | singleQuoted content =>
    obtain rfl : content = [] := by simpa [Step.isEmptyQuotes] using h
    rw [run_singleQuoted (by simp)]
    rfl
  | doubleQuoted content =>
    obtain rfl : content = [] := by simpa [Step.isEmptyQuotes] using h
    rw [run_doubleQuoted .nil]
    rfl
  | word | escaped | unclosed => cases h

theorem run_front (h : Step.Joined front tail) (ht : Separates [] false tail) :
    run ⟨.plain, ws, current, n⟩ (front.flatMap Step.raw) =
      ⟨.plain, ws, extend current (front.flatMap Step.text),
        n + Text.byteSize (front.flatMap Step.raw)⟩ := by
  induction front generalizing n current with
  | nil => rfl
  | cons step steps ih =>
    obtain ⟨hstep, hc, he, hj⟩ := h
    have hn : step ≠ .escaped none := by
      rintro rfl
      generalize hfollow : steps.flatMap Step.raw ++ tail = follow at hstep
      cases hfollow ▸ hj.separates ht with
      | nothing hsolid => simp [hstep _ rfl, isBlank] at hsolid
    rw [List.flatMap_cons, List.flatMap_cons, run_append, run_raw hstep hc he hn, ih hj,
      ← extend_append (hstep.text_ne_nil hc he), Text.byteSize_append, Nat.add_assoc]

variable {separator rest line : Text} {separated : Bool} {w : WordSpan} {words : List WordSpan}
  {stop : LineEnd}

/-! ## Reading words and lines -/

/-- The last step of a word finishes it, at the latest with its separator or at the end of the
line. -/
theorem result_run_last (h : step.Before (separator ++ rest)) (hc : step.isClosed = true)
    (hs : Separates separator separated rest)
    (he : separated = true ∨ step.isEmptyQuotes = true) :
    (run ⟨.plain, ws, current, n⟩ (step.raw ++ separator ++ rest)).result =
      (run ⟨.plain, ws ++ [current.getD [] ++ step.text], none,
        n + Text.byteSize (step.raw ++ separator)⟩ rest).result := by
  rw [run_append, run_append, Text.byteSize_append]
  cases hq : step.isEmptyQuotes with
  | true =>
    rw [run_emptyQuotes hq]
    cases hs with
    | blank hblank => rw [run_blanks (by simpa using hblank), Nat.add_assoc]
    | lineEnd => rfl
    | nothing => rfl
  | false =>
    by_cases hn : step = .escaped none
    · subst hn
      cases hs with
      | @blank c rest =>
        obtain rfl : c = '\n' := h c rfl
        simp [Step.raw, Step.text, Step.value, read, append, finishWord, isBlank, Nat.add_assoc]
      | lineEnd => rfl
      | nothing => simp [hq] at he
    · rw [run_raw h hc hq hn]
      cases hs with
      | @blank c rest hblank => simp [read, hblank, finishWord, Nat.add_assoc]
      | lineEnd => rfl
      | nothing => simp [hq] at he

theorem result_run_word (hw : w.Before rest) :
    (run ⟨.plain, ws, none, n⟩ (w.span ++ rest)).result =
      (run ⟨.plain, ws ++ [w.word], none, n + w.span.byteSize⟩ rest).result := by
  have hspan : w.span ++ rest =
      w.blanks ++ (w.front.flatMap Step.raw ++ (w.last.raw ++ w.separator ++ rest)) := by
    simp [WordSpan.span, WordSpan.steps]
  have hword : w.front.flatMap Step.text ++ w.last.text = w.word := by
    simp [WordSpan.word, WordSpan.steps]
  have hsize : n + w.blanks.byteSize + Text.byteSize (w.front.flatMap Step.raw) +
      Text.byteSize (w.last.raw ++ w.separator) = n + w.span.byteSize := by
    simp [WordSpan.span, WordSpan.steps, Nat.add_assoc]
  rw [hspan, run_append _ w.blanks, run_blanks hw.blanks, run_append _ (w.front.flatMap Step.raw),
    run_front hw.front (hw.last.separates _),
    result_run_last hw.last hw.closed hw.separates hw.ends, getD_extend_none, hword, hsize]

/-- An unmatched quote is reported with the byte it stands at. -/
theorem result_run_unclosed {quote : Quote} {behind : Text}
    (hq : (Step.unclosed quote).Before behind) :
    (run ⟨.plain, ws, current, n⟩ (quote.char :: behind)).result = .error ⟨quote, n⟩ := by
  rw [run_cons, read_open]
  cases quote with
  | single =>
    rw [Mode.inQuotes, run_inSingle hq]
    rfl
  | double =>
    obtain ⟨content, hc, rfl | rfl⟩ := DoubleQuoted.close?_eq_none_iff.1 hq
    · rw [Mode.inQuotes, run_inDouble hc]
      rfl
    · rw [Mode.inQuotes, run_append, run_inDouble hc]
      rfl

/-- The automaton between two words finds the words of the line that follows, or its unmatched
quote. -/
theorem result_run_readsAs (h : ReadsAs line words stop) :
    (run ⟨.plain, ws, none, n⟩ line).result =
      match stop with
      | .blank _ => .ok (ws ++ words.map WordSpan.word)
      | .unclosed blanks front quote _ => .error ⟨quote,
          n + Text.byteSize (words.flatMap WordSpan.span ++ (blanks ++ front.flatMap Step.raw))⟩ := by
  induction h generalizing ws n with
  | stop stop h =>
    cases stop with
    | blank text =>
      show (run ⟨.plain, ws, none, n⟩ text).result = .ok (ws ++ [])
      rw [run_blanks h, List.append_nil]
      rfl
    | unclosed blanks front quote behind =>
      obtain ⟨hb, hf, hq⟩ := h
      have hsep : Separates [] false (quote.char :: behind) := .nothing (by cases quote <;> decide)
      show (run ⟨.plain, ws, none, n⟩
        (blanks ++ front.flatMap Step.raw ++ quote.char :: behind)).result = _
      rw [run_append, run_append, run_blanks hb, run_front hf hsep, result_run_unclosed hq]
      simp [Nat.add_assoc]
  | @word w rest words stop hw h ih =>
    rw [result_run_word hw, ih]
    cases stop <;> simp [Nat.add_assoc]

/-- A result of splitting a part of a line that stands behind the words `ws` and behind `n`
bytes. -/
def behind (ws : List Text) (n : Nat) :
    Except UnmatchedQuote (List Text) → Except UnmatchedQuote (List Text)
  | .ok words => .ok (ws ++ words)
  | .error e => .error ⟨e.quote, n + e.offset⟩

theorem behind_start (r : Except UnmatchedQuote (List Text)) : behind [] 0 r = r := by
  cases r with
  | ok words => rfl
  | error e => simp [behind]

/-- Between two words the automaton goes on as splitting does from the beginning of a line. -/
theorem result_run (ws : List Text) (n : Nat) (line : Text) :
    (run ⟨.plain, ws, none, n⟩ line).result = behind ws n (split line) := by
  obtain ⟨words, stop, h⟩ := exists_readsAs line
  rw [result_run_readsAs h, split]
  cases stop with
  | blank text => rw [splitReport_of_blank h]; rfl
  | unclosed blanks front quote behind => rw [(splitReport_of_unclosed h).1]; rfl

theorem result_run_start (line : Text) : (run start line).result = split line :=
  (result_run [] 0 line).trans (behind_start _)

end Automaton

/-- Splitting a line is reading it character by character. -/
theorem split_eq_foldl_read (line : Text) :
    split line = (line.foldl Automaton.read Automaton.start).result := by
  rw [← Automaton.result_run_start]
  rfl

end CommandWords
