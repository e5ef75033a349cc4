import CommandWords.Proofs.Toml.Strings

/-!
# Reading flat TOML documents

A document of the grammar is read as the keys and values it gives (`read_eq_some`). Values, keys and
statements are read before what may follow them on a line: `readValue_append`, `readKey?_append` and
`readStatement_append`. The statements of a text depend only on what `skipLines` leaves of it
(`readStatements_congr`), so that blank lines drop out; `readStatements_lines` reads all lines, and
`foldlM_add` carries the statements out.
-/

namespace CommandWords.Toml

variable {s text rest behind key keyText : Text} {c : Char} {value : Value}
variable {entries : Entries}

/-! ## Around a statement -/

/-- What follows a statement and a remark: the end of the text or of the line, and the text behind
it. -/
inductive LineEnd : Text → Text → Prop
  | stop : LineEnd [] []
  | newline {newline s : Text} (h : IsNewline newline) : LineEnd (newline ++ s) s

/-- The characters that may follow a value. -/
def valueEnds : List Char := [' ', '\t', '#', '\n', '\r']

theorem LineEnd.head?_mem (h : LineEnd rest behind) : ∀ c ∈ rest.head?, c = '\n' ∨ c = '\r' := by
  cases h with
  | stop => simp
  | newline h => cases h <;> simp

/-- What begins with spaces begins with one of them, or there are none. -/
theorem head?_spaces {spaces : Text} (hs : IsSpaces spaces) (t : Text) :
    ∀ c ∈ (spaces ++ t).head?, (c = ' ' ∨ c = '\t') ∨ c ∈ t.head? := by
  intro c hc
  cases spaces with
  | nil => exact .inr hc
  | cons d spaces =>
    obtain rfl : d = c := by simpa using hc
    exact .inl (hs d List.mem_cons_self)

theorem head?_remark {remark : Text} (hr : IsRemark remark) (h : LineEnd rest behind) :
    ∀ c ∈ (remark ++ rest).head?, c ∈ valueEnds := by
  intro c hc
  cases hr with
  | spaces hs =>
    rcases head?_spaces hs _ c hc with (rfl | rfl) | hc
    · decide
    · decide
    · rcases h.head?_mem c hc with rfl | rfl <;> decide
  | comment hs =>
    rw [List.append_assoc] at hc
    rcases head?_spaces hs _ c hc with (rfl | rfl) | hc
    · decide
    · decide
    · obtain rfl : '#' = c := by simpa using hc
      decide

/-- A remark is skipped up to the end of its line. -/
theorem skipComment_skipSpace {remark : Text} (hr : IsRemark remark) (h : LineEnd rest behind) :
    skipComment (skipSpace (remark ++ rest)) = rest := by
  have hhead := h.head?_mem
  have hskip : skipSpace rest = rest := skipSpace_of_head fun c hc => by
    rcases hhead c hc with rfl | rfl <;> decide
  cases hr with
  | spaces hs =>
    rw [skipSpace_append hs, hskip, skipComment]
    rintro t rfl
    simpa using hhead '#' rfl
  | comment hs hc =>
    rw [List.append_assoc, skipSpace_append hs, List.cons_append,
      skipSpace_of_head (by simp [isSpace]), skipComment]
    refine Text.dropWhile_append_of_head (fun c hm => isTextChar_iff.2 (hc c hm)) fun c hm => ?_
    rcases hhead c hm with rfl | rfl <;> decide

theorem endOfLine?_append {remark : Text} (hr : IsRemark remark) (h : LineEnd rest behind) :
    endOfLine? (remark ++ rest) = some behind := by
  unfold endOfLine?
  rw [skipComment_skipSpace hr h]
  cases h with
  | stop => rfl
  | newline h => cases h <;> rfl

theorem skipLines_of_newline? (h : newline? (skipComment (skipSpace s)) = some rest) :
    skipLines s = skipLines rest := by
  rw [skipLines.eq_def]
  split
  · rename_i hsome
    rw [Option.some.inj (h.symm.trans hsome)]
  · rename_i hnone
    cases h.symm.trans hnone

theorem skipLines_of_newline?_none (h : newline? (skipComment (skipSpace s)) = none) :
    skipLines s = skipComment (skipSpace s) := by
  rw [skipLines.eq_def]
  split
  · rename_i hsome
    cases h.symm.trans hsome
  · rfl

theorem skipLines_nil : skipLines [] = [] := skipLines_of_newline?_none rfl

/-- A line without a statement is skipped. -/
theorem skipLines_append {remark : Text} (hr : IsRemark remark) (h : LineEnd rest behind) :
    skipLines (remark ++ rest) = skipLines behind := by
  have hskip := skipComment_skipSpace hr h
  cases h with
  | stop => rw [skipLines_of_newline?_none (by rw [hskip]; rfl), hskip, skipLines_nil]
  | newline h => rw [skipLines_of_newline? (by rw [hskip, newline?_append h])]

/-! ## Keys and values -/

/-- The characters that a key or a value may begin with. -/
def IsHead (c : Char) : Prop := isBareChar c = true ∨ c = '"' ∨ c = '\x27'

instance : DecidablePred IsHead := fun c =>
  inferInstanceAs (Decidable (isBareChar c = true ∨ c = '"' ∨ c = '\x27'))

theorem IsHead.ne {d : Char} (h : IsHead c) (hd : ¬ IsHead d) : c ≠ d := by
  rintro rfl
  exact hd h

theorem IsHead.isSpace_eq (h : IsHead c) : isSpace c = false := by
  have hspace : c ≠ ' ' := h.ne (by decide)
  have htab : c ≠ '\t' := h.ne (by decide)
  simp [isSpace, hspace, htab]

theorem IsHead.skipLines_append {indent : Text} (hc : IsHead c) (hi : IsSpaces indent) (s : Text) :
    skipLines (indent ++ c :: s) = c :: s := by
  have hcomment : skipComment (skipSpace (indent ++ c :: s)) = c :: s := by
    rw [skipSpace_append hi, skipSpace_of_head (by simp [hc.isSpace_eq]), skipComment]
    exact fun t heq => hc.ne (by decide) (List.cons.inj heq).1
  have hnewline : newline? (c :: s) = none := newline?_eq_none fun newline t hn heq => by
    cases hn with
    | lf => exact hc.ne (by decide) (List.cons.inj heq).1
    | crlf => exact hc.ne (by decide) (List.cons.inj heq).1
  rw [skipLines_of_newline?_none (by rw [hcomment, hnewline]), hcomment]

theorem KeyWritten.exists_cons (h : KeyWritten keyText key) :
    ∃ c s, keyText = c :: s ∧ IsHead c := by
  cases h with
  | bare hne h =>
    obtain ⟨c, s, rfl⟩ := List.exists_cons_of_ne_nil hne
    exact ⟨c, s, rfl, .inl (by simpa [isBareChar, or_assoc] using h c List.mem_cons_self)⟩
  | basic => exact ⟨_, _, rfl, .inr (.inl rfl)⟩
  | literal => exact ⟨_, _, rfl, .inr (.inr rfl)⟩

theorem StringWritten.exists_cons {chars : Text} (h : StringWritten text chars) :
    ∃ c s, text = c :: s ∧ (c = '"' ∨ c = '\x27') := by
  cases h with
  | basic => exact ⟨_, _, rfl, .inl rfl⟩
  | literal => exact ⟨_, _, rfl, .inr rfl⟩
  | multiBasic => exact ⟨_, _, rfl, .inl rfl⟩
  | multiLiteral => exact ⟨_, _, rfl, .inr rfl⟩

theorem ScalarWritten.exists_cons (h : ScalarWritten text value) :
    ∃ c s, text = c :: s ∧ IsHead c := by
  cases h with
  | string h =>
    obtain ⟨c, s, rfl, hc⟩ := h.exists_cons
    exact ⟨c, s, rfl, .inr hc⟩
  | true => exact ⟨_, _, rfl, .inl rfl⟩
  | false => exact ⟨_, _, rfl, .inl rfl⟩

theorem scalarText_append {word : Text} (hw : word.all isScalarChar = true)
    (hdate : readDate? word = none) (hrest : ∀ c ∈ rest.head?, isScalarChar c = false) :
    scalarText (word ++ rest) = (word, rest) := by
  unfold scalarText
  rw [Text.takeWhile_append_of_head (List.all_eq_true.1 hw) hrest,
    Text.dropWhile_append_of_head (List.all_eq_true.1 hw) hrest]
  dsimp only
  rw [hdate]

theorem readValue_word (hc : c ∉ ['"', '\x27', '[', '\x7b'])
    (hword : scalarText (c :: s ++ rest) = (c :: s, rest)) (depth : Nat) :
    readValue depth (c :: s ++ rest) = (scalar? (c :: s)).map (·, rest) := by
  simp only [List.mem_cons, List.not_mem_nil, or_false, not_or] at hc
  rw [List.cons_append] at hword ⊢
  rw [readValue.eq_def]
  dsimp only
  rw [if_neg (by simp [hc]), if_neg hc.2.2.1, if_neg hc.2.2.2, hword]

/-- A value is read before anything that may follow it on its line. -/
theorem readValue_append (h : ScalarWritten text value) (hrest : ∀ c ∈ rest.head?, c ∈ valueEnds)
    (depth : Nat) : readValue depth (text ++ rest) = some (value, rest) := by
  have hnot : ∀ d, d ∉ valueEnds → rest.head? ≠ some d := fun d hd hc => hd (hrest d hc)
  have hscalar : ∀ c ∈ rest.head?, isScalarChar c = false := fun c hc => by
    have hends : valueEnds.all (!isScalarChar ·) = true := by decide
    simpa using List.all_eq_true.1 hends c (hrest c hc)
  cases h with
  | string h =>
    have hread := readString?_append h (hnot _ (by decide)) (hnot _ (by decide))
    obtain ⟨c, s, rfl, hc⟩ := h.exists_cons
    rw [List.cons_append] at hread ⊢
    rw [readValue.eq_def]
    dsimp only
    rw [if_pos hc, hread, Option.map_some]
  | true =>
    exact readValue_word (c := 't') (s := "rue".toList) (by decide)
      (scalarText_append (by decide) (by decide) hscalar) depth
  | false =>
    exact readValue_word (c := 'f') (s := "alse".toList) (by decide)
      (scalarText_append (by decide) (by decide) hscalar) depth

theorem readSimpleKey?_append (h : KeyWritten keyText key)
    (hrest : ∀ c ∈ rest.head?, isBareChar c = false) :
    readSimpleKey? (keyText ++ rest) = some (key, rest) := by
  cases h with
  | bare hne h =>
    have hbare : ∀ c ∈ key, isBareChar c = true := fun c hc => by
      simpa [isBareChar, or_assoc] using h c hc
    obtain ⟨c, s, rfl⟩ := List.exists_cons_of_ne_nil hne
    have hhead : ∀ d, isBareChar d = false → ∀ t, c :: s ++ rest ≠ d :: t := by
      rintro d hd t heq
      obtain ⟨rfl, -⟩ := List.cons.inj heq
      exact absurd (hbare c List.mem_cons_self) (by simp [hd])
    rw [readSimpleKey?, Text.takeWhile_append_of_head hbare hrest,
      Text.dropWhile_append_of_head hbare hrest]
    · rfl
    · exact hhead '"' (by decide)
    · exact hhead '\x27' (by decide)
  | @basic body _ h =>
    have hs : '"' :: (body ++ ['"']) ++ rest = '"' :: (body ++ '"' :: rest) := by simp
    rw [hs]
    exact readBasic?_append h rest
  | literal h =>
    have hs : '\x27' :: (key ++ ['\x27']) ++ rest = '\x27' :: (key ++ '\x27' :: rest) := by simp
    rw [hs]
    exact readLiteral?_append h rest

/-- A simple key is read as a dotted key of one part. -/
theorem readKey?_append {before : Text} (h : KeyWritten keyText key) (hb : IsSpaces before)
    (rest : Text) : readKey? (keyText ++ (before ++ '=' :: rest)) = some ([key], '=' :: rest) := by
  have hbefore : ∀ c ∈ (before ++ '=' :: rest).head?, isBareChar c = false := by
    intro c hc
    rcases head?_spaces hb _ c hc with (rfl | rfl) | hc
    · decide
    · decide
    · obtain rfl : '=' = c := by simpa using hc
      decide
  have hspace : skipSpace (keyText ++ (before ++ '=' :: rest)) =
      keyText ++ (before ++ '=' :: rest) := by
    obtain ⟨c, s, rfl, hc⟩ := h.exists_cons
    exact skipSpace_of_head fun d hd => by
      obtain rfl : c = d := by simpa using hd
      exact hc.isSpace_eq
  have hparts : readKeyParts? (keyText ++ (before ++ '=' :: rest)) = some ([key], '=' :: rest) := by
    rw [readKeyParts?.eq_def, hspace, readSimpleKey?_append h hbefore]
    dsimp only
    rw [skipSpace_append hb, skipSpace_of_head (by simp [isSpace])]
    rfl
  rw [readKey?, hparts]
  rfl

/-! ## Statements -/

theorem readKeyValue_append {before after valueText : Text} (hk : KeyWritten keyText key)
    (hb : IsSpaces before) (ha : IsSpaces after) (hv : ScalarWritten valueText value)
    (hrest : ∀ c ∈ rest.head?, c ∈ valueEnds) (depth : Nat) :
    readKeyValue skipSpace (readValue depth)
        (keyText ++ (before ++ '=' :: (after ++ (valueText ++ rest)))) =
      some (([key], value), rest) := by
  have hequals : ∀ t : Text, skipSpace ('=' :: t) = '=' :: t := fun t =>
    skipSpace_of_head (by simp [isSpace])
  have hvalue : skipSpace (after ++ (valueText ++ rest)) = valueText ++ rest := by
    obtain ⟨c, s, rfl, hc⟩ := hv.exists_cons
    rw [skipSpace_append ha]
    exact skipSpace_of_head (by simp [hc.isSpace_eq])
  unfold readKeyValue
  rw [readKey?_append hk hb]
  simp only [Option.bind_eq_bind, Option.bind_some, hequals]
  rw [hvalue, readValue_append hv hrest]
  rfl

/-- The statement that gives a simple key a value. -/
def assign (entry : Text × Value) : Statement := .pair ([entry.1], entry.2)

/-- The head of a line with an assignment, after its indent. -/
theorem readStatement_append {before after valueText : Text} (hk : KeyWritten keyText key)
    (hb : IsSpaces before) (ha : IsSpaces after) (hv : ScalarWritten valueText value)
    (hrest : ∀ c ∈ rest.head?, c ∈ valueEnds) :
    readStatement (keyText ++ (before ++ '=' :: (after ++ (valueText ++ rest)))) =
      some (assign (key, value), rest) := by
  have hpair := readKeyValue_append hk hb ha hv hrest depthLimit
  have hbracket : ∀ t, keyText ++ (before ++ '=' :: (after ++ (valueText ++ rest))) ≠ '[' :: t := by
    obtain ⟨c, s, rfl, hc⟩ := hk.exists_cons
    intro t heq
    exact hc.ne (by decide) (List.cons.inj heq).1
  rw [readStatement, hpair]
  · rfl
  · exact fun t => hbracket _
  · exact hbracket

theorem readStatements_nil (h : skipLines s = []) : readStatements s = some [] := by
  rw [readStatements.eq_def, h]

theorem readStatements_cons {statement : Statement} {line : Text} (hskip : skipLines s = c :: line)
    (hread : readStatement (c :: line) = some (statement, rest))
    (hend : endOfLine? rest = some behind) (hlength : behind.length < s.length) :
    readStatements s = (readStatements behind).map (statement :: ·) := by
  rw [readStatements.eq_def, hskip]
  dsimp only
  rw [hread]
  dsimp only
  rw [hend]
  exact if_pos hlength

/-- Blank lines before a text do not change its statements. -/
theorem readStatements_congr {statements : List Statement} (h : skipLines s = skipLines text)
    (hlength : text.length ≤ s.length) (hread : readStatements text = some statements) :
    readStatements s = some statements := by
  rw [← hread]
  rw [readStatements.eq_def] at hread
  split at hread
  · rename_i hnil
    rw [readStatements_nil hnil, readStatements_nil (h.trans hnil)]
  · rename_i c line hskip
    split at hread
    · cases hread
    · rename_i statement rest hstatement
      split at hread
      · cases hread
      · rename_i behind hend
        split at hread
        · rename_i hlt
          rw [readStatements_cons hskip hstatement hend hlt,
            readStatements_cons (h.trans hskip) hstatement hend (by omega)]
        · cases hread

/-- A line is read, and then the lines behind it. -/
theorem readStatements_line {line : Text} {entry : Option (Text × Value)}
    {statements : List Statement} (hline : LineWritten line entry) (h : LineEnd rest behind)
    (ih : readStatements behind = some statements) :
    readStatements (line ++ rest) = some (entry.toList.map assign ++ statements) := by
  have hbehind : behind.length ≤ rest.length := by
    cases h <;> simp
  cases hline with
  | blank hr =>
    exact readStatements_congr (skipLines_append hr h) (by rw [List.length_append]; omega) ih
  | @assignment indent keyText before after valueText remark key value hi hk hb ha hv hr =>
    have hread := readStatement_append hk hb ha hv (head?_remark hr h)
    obtain ⟨c, s, rfl, hc⟩ := hk.exists_cons
    rw [List.cons_append] at hread
    have hskip : skipLines (indent ++ (c :: s ++ (before ++ '=' ::
        (after ++ (valueText ++ remark)))) ++ rest) =
          c :: (s ++ (before ++ '=' :: (after ++ (valueText ++ (remark ++ rest))))) := by
      simpa using hc.skipLines_append hi
        (s ++ (before ++ '=' :: (after ++ (valueText ++ (remark ++ rest)))))
    rw [readStatements_cons hskip hread (endOfLine?_append hr h), ih]
    · rfl
    · simp only [List.length_append, List.length_cons]
      omega

/-- All lines of a text are read, in their order. -/
theorem readStatements_lines (h : LinesWritten text entries) :
    readStatements text = some (entries.map assign) := by
  have hempty : readStatements [] = some [] := readStatements_nil skipLines_nil
  induction h with
  | @last line entry h =>
    have hread := readStatements_line h .stop hempty
    rwa [List.append_nil, List.append_nil] at hread
  | cons h hn hs ih =>
    rw [List.map_append]
    exact readStatements_line h (.newline hn) ih

/-! ## Documents -/

theorem LineWritten.head?_mem {line : Text} {entry : Option (Text × Value)}
    (h : LineWritten line entry) : ∀ c ∈ line.head?, c ∈ valueEnds ∨ IsHead c := by
  cases h with
  | blank hr =>
    have hmem := head?_remark hr .stop
    rw [List.append_nil] at hmem
    exact fun c hc => .inl (hmem c hc)
  | @assignment indent keyText _ _ _ _ _ _ hi hk =>
    intro c hc
    rcases head?_spaces hi _ c hc with (rfl | rfl) | hc
    · exact .inl (by decide)
    · exact .inl (by decide)
    · obtain ⟨d, s, rfl, hd⟩ := hk.exists_cons
      obtain rfl : d = c := by simpa using hc
      exact .inr hd

/-- No line begins with a byte order mark. -/
theorem trimMark_lines (h : LinesWritten text entries) : trimMark text = text := by
  have hmark : Char.ofNat 0xFEFF ∉ valueEnds ∧ ¬ IsHead (Char.ofNat 0xFEFF) := by decide
  have hline : ∀ c ∈ text.head?, c ∈ valueEnds ∨ IsHead c := by
    cases h with
    | last h => exact h.head?_mem
    | @cons line newline t _ _ h hn =>
      have hend : LineEnd (newline ++ t) t := .newline hn
      intro c hc
      rw [List.head?_append, Option.mem_def, Option.or_eq_some_iff] at hc
      rcases hc with hc | ⟨-, hc⟩
      · exact h.head?_mem c hc
      · rcases hend.head?_mem c hc with rfl | rfl <;> exact .inl (by decide)
  cases text with
  | nil => rfl
  | cons c s =>
    refine if_neg ?_
    rintro rfl
    exact (hline _ rfl).elim hmark.1 hmark.2

theorem Entries.set_of_notMem (h : key ∉ entries.map Prod.fst) (value : Value) :
    Entries.set entries key value = entries ++ [(key, value)] := by
  induction entries with
  | nil => rfl
  | cons entry rest ih =>
    simp only [List.map_cons, List.mem_cons, not_or] at h
    rw [Entries.set, if_neg (Ne.symm h.1), ih h.2, List.cons_append]

/-- What is found under a key is its value, if no key is there twice. -/
theorem Entries.get?_eq_some_iff (h : (entries.map Prod.fst).Nodup) :
    Entries.get? entries key = some value ↔ (key, value) ∈ entries := by
  unfold Entries.get?
  induction entries with
  | nil => simp
  | cons entry rest ih =>
    obtain ⟨k, v⟩ := entry
    rw [List.map_cons, List.nodup_cons] at h
    rw [List.lookup_cons, List.mem_cons, Prod.mk.injEq]
    by_cases hk : key = k
    · subst hk
      have hnot : (key, value) ∉ rest := fun hm =>
        h.1 (List.mem_map.2 ⟨_, hm, rfl⟩)
      simp [hnot, eq_comm]
    · simp [beq_false_of_ne hk, hk, ih h.2]

/-- Giving a new key a value puts it behind all other keys. -/
theorem Draft.add_assign (h : key ∉ entries.map Prod.fst) (value : Value) :
    Draft.add ⟨[], entries⟩ (assign (key, value)) = some ⟨[], entries ++ [(key, value)]⟩ := by
  have hnone : Entries.get? entries key = none :=
    List.lookup_eq_none_iff.2 fun entry hentry => by
      have hne : key ≠ entry.1 := fun heq => h (heq ▸ List.mem_map_of_mem hentry)
      simpa using hne
  have hset := Entries.set_of_notMem h value
  simp [Draft.add, assign, changeAt, insertPair, insert, hnone, hset]

theorem foldlM_add {added : Entries} (h : ((entries ++ added).map Prod.fst).Nodup) :
    (added.map assign).foldlM Draft.add ⟨[], entries⟩ = some ⟨[], entries ++ added⟩ := by
  induction added generalizing entries with
  | nil => simp
  | cons entry added ih =>
    obtain ⟨key, value⟩ := entry
    have hkey : key ∉ entries.map Prod.fst := by
      rw [List.map_append, List.map_cons, List.nodup_append] at h
      exact fun hmem => h.2.2 key hmem key List.mem_cons_self rfl
    have hnext : ((entries ++ [(key, value)] ++ added).map Prod.fst).Nodup := by simpa using h
    rw [List.map_cons, List.foldlM_cons, Draft.add_assign hkey, Option.bind_eq_bind,
      Option.bind_some, ih hnext, List.append_assoc, List.singleton_append]

/-- A document is read as the keys and values that it gives. -/
theorem read_eq_some (h : DocumentWritten text entries) : read text = some entries := by
  obtain ⟨body, htrim, hlines⟩ : ∃ body, trimMark text = body ∧ LinesWritten body entries := by
    rcases h.lines with hlines | ⟨body, rfl, hlines⟩
    · exact ⟨text, trimMark_lines hlines, hlines⟩
    · exact ⟨body, rfl, hlines⟩
  have hadd : (entries.map assign).foldlM Draft.add ⟨[], []⟩ = some ⟨[], entries⟩ :=
    foldlM_add (by simpa using h.nodup)
  unfold read
  rw [htrim, readStatements_lines hlines]
  simp only [Option.bind_eq_bind, Option.bind_some, hadd]
  rfl

end CommandWords.Toml
