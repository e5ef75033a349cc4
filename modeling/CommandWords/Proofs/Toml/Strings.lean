import CommandWords.Proofs.Runs
import CommandWords.Proofs.Toml.Grammar

/-!
# Reading TOML strings

A string of the grammar is read as the characters it stands for, whatever follows it that is no
quote: `readEscape?_append` for what stands behind a backslash, `readBasic?_append` and
`readLiteral?_append` for strings on one line. What the two readers of strings on several lines have
in common is collected in `ReadsMulti`, from which `ReadsMulti.read_append` reads the characters up
to the closing quotes; `readString?_append` is the statement about all four forms.
-/

namespace CommandWords.Toml

variable {s t text chars rest : Text} {c quote : Char}

theorem isTextChar_iff : isTextChar c = true ↔ IsTextChar c := by
  have hdel : c.toNat = 0x7f ↔ c = '\x7f' :=
    ⟨fun h => by rw [← Char.ofNat_toNat c, h], fun h => h ▸ rfl⟩
  simp [isTextChar, IsTextChar, hdel]

theorem isSpace_iff : isSpace c = true ↔ c = ' ' ∨ c = '\t' := by
  simp [isSpace]

theorem skipSpace_append {spaces : Text} (hs : IsSpaces spaces) (s : Text) :
    skipSpace (spaces ++ s) = skipSpace s :=
  List.dropWhile_append_of_pos fun c hc => isSpace_iff.2 (hs c hc)

theorem skipSpace_of_head (h : ∀ c ∈ s.head?, isSpace c = false) : skipSpace s = s := by
  cases s with
  | nil => rfl
  | cons c s => exact List.dropWhile_cons_of_neg (by simp [h c rfl])

theorem newline?_append {newline : Text} (h : IsNewline newline) (s : Text) :
    newline? (newline ++ s) = some s := by
  cases h <;> rfl

theorem newline?_eq_none (h : ∀ newline t, IsNewline newline → s ≠ newline ++ t) :
    newline? s = none := by
  unfold newline?
  split
  · exact absurd rfl (h _ _ .lf)
  · exact absurd rfl (h _ _ .crlf)
  · rfl

/-! ## Escapes -/

theorem readHex?_append {digits : Text} (hd : ∀ d ∈ digits, (hexValue? d).isSome) (acc : Nat)
    (rest : Text) :
    readHex? digits.length acc (digits ++ rest) =
      some (digits.foldl (fun n d => 16 * n + digitValue d) acc, rest) := by
  induction digits generalizing acc with
  | nil => rfl
  | cons d digits ih =>
    obtain ⟨value, hvalue⟩ := Option.isSome_iff_exists.1 (hd d List.mem_cons_self)
    rw [List.length_cons, List.cons_append, readHex?, hvalue, Option.bind_some,
      ih fun e he => hd e (List.mem_cons_of_mem d he), List.foldl_cons, digitValue, hvalue,
      Option.getD_some, Nat.mul_comm]

theorem char?_toNat (c : Char) : char? c.toNat = some c := by
  have hvalid : c.toNat.isValidChar := c.valid
  rw [char?, if_pos hvalid, Char.ofNat_toNat]

theorem readCode?_append {digits : Text} (hd : ∀ d ∈ digits, (hexValue? d).isSome)
    (hc : baseValue 16 digits = c.toNat) (rest : Text) :
    readCode? digits.length (digits ++ rest) = some (c, rest) := by
  unfold baseValue at hc
  rw [readCode?, readHex?_append hd, hc, Option.bind_some]
  dsimp only
  rw [char?_toNat, Option.map_some]

theorem readEscape?_append (h : EscapeWritten text c) (rest : Text) :
    readEscape? (text ++ rest) = some (c, rest) := by
  cases h with
  | short h =>
    simp only [shortEscapes, List.mem_cons, Prod.mk.injEq, List.not_mem_nil, or_false] at h
    rcases h with ⟨rfl, rfl⟩ | ⟨rfl, rfl⟩ | ⟨rfl, rfl⟩ | ⟨rfl, rfl⟩ | ⟨rfl, rfl⟩ | ⟨rfl, rfl⟩ |
      ⟨rfl, rfl⟩ | ⟨rfl, rfl⟩ <;> rfl
  | number h hd hc =>
    have hread := readCode?_append hd hc rest
    simp only [numberEscapes, List.mem_cons, Prod.mk.injEq, List.not_mem_nil, or_false] at h
    rcases h with ⟨rfl, hlength⟩ | ⟨rfl, hlength⟩ | ⟨rfl, hlength⟩ <;>
    · rw [hlength] at hread
      exact hread

/-- An escape begins with a character of one of the two tables. -/
theorem EscapeWritten.exists_cons (h : EscapeWritten text c) :
    ∃ d s, text = d :: s ∧ d ∈ (shortEscapes.map Prod.fst ++ numberEscapes.map Prod.fst) := by
  cases h with
  | short h => exact ⟨_, _, rfl, List.mem_append_left _ (List.mem_map_of_mem h)⟩
  | number h => exact ⟨_, _, rfl, List.mem_append_right _ (List.mem_map_of_mem h)⟩

/-! ## Strings on one line -/

theorem readBasic?_append (h : BasicWritten text chars) (rest : Text) :
    readBasic? (text ++ '"' :: rest) = some (chars, rest) := by
  induction h with
  | nil =>
    rw [List.nil_append, readBasic?.eq_def]
    dsimp only
    rw [if_pos rfl]
  | plain hc h ih =>
    obtain ⟨hc, hq, hb⟩ := hc
    rw [List.cons_append, readBasic?.eq_def]
    dsimp only
    rw [if_neg hq, if_neg hb, if_pos (isTextChar_iff.2 hc), ih, Option.map_some]
  | @escaped c escape text chars hc h ih =>
    have hread := readEscape?_append hc (text ++ '"' :: rest)
    rw [List.cons_append, List.append_assoc, readBasic?.eq_def]
    dsimp only
    rw [if_neg (by decide), if_pos rfl]
    split
    · rename_i hd
      obtain ⟨rfl, rfl⟩ := Prod.mk.inj (Option.some.inj (hread.symm.trans hd))
      rw [ih, Option.map_some]
    · rename_i hnone
      rw [hread] at hnone
      cases hnone

theorem readLiteral?_append (h : IsLiteral chars) (rest : Text) :
    readLiteral? (chars ++ '\x27' :: rest) = some (chars, rest) := by
  induction chars with
  | nil => rfl
  | cons c chars ih =>
    obtain ⟨hc, hq⟩ := h c List.mem_cons_self
    rw [List.cons_append, readLiteral?, if_neg hq, if_pos (isTextChar_iff.2 hc),
      ih fun d hd => h d (List.mem_cons_of_mem c hd), Option.map_some]

/-! ## Strings on several lines -/

theorem closing?_replicate (n : Nat) (hs : s.head? ≠ some quote) :
    closing? quote (List.replicate n quote ++ s) =
      if min 5 n < 3 then none
      else
        some (List.replicate (min 5 n - 3) quote,
          (List.replicate n quote ++ s).drop (min 5 n)) := by
  have hrun : ∀ c ∈ List.replicate n quote, (c == quote) = true := fun c hc => by
    simp [List.eq_of_mem_replicate hc]
  have hrest : ∀ c ∈ s.head?, (c == quote) = false := fun c hc => by
    have hne : c ≠ quote := by
      rintro rfl
      exact hs hc
    simp [hne]
  unfold closing?
  rw [Text.takeWhile_append_of_head hrun hrest, List.length_replicate]

/-- Three quotes end a string, and up to two more before them belong to it. -/
theorem closing?_eq_some {n : Nat} (hn : n ≤ 2) (hs : s.head? ≠ some quote) :
    closing? quote (List.replicate n quote ++ (List.replicate 3 quote ++ s)) =
      some (List.replicate n quote, s) := by
  rw [← List.append_assoc, List.replicate_append_replicate, closing?_replicate _ hs,
    if_neg (by omega), Nat.min_eq_right (by omega), Nat.add_sub_cancel,
    List.drop_left' List.length_replicate]

/-- Less than three quotes do not end a string. -/
theorem closing?_eq_none {n : Nat} (hn : n ≤ 2) (hs : s.head? ≠ some quote) :
    closing? quote (List.replicate n quote ++ s) = none := by
  rw [closing?_replicate _ hs, if_pos (by omega)]

/-- What is read, with characters before it. -/
def prepend (chars : Text) (r : Option (Text × Text)) : Option (Text × Text) :=
  r.map fun (cs, behind) => (chars ++ cs, behind)

theorem prepend_nil (r : Option (Text × Text)) : prepend [] r = r := by
  cases r <;> rfl

theorem prepend_append (r : Option (Text × Text)) :
    prepend (chars ++ t) r = prepend chars (prepend t r) := by
  cases r <;> simp [prepend]

/-- What both readers of strings on several lines do: they stop at closing quotes, and take each
character that may stand there, other than a backslash, for itself. -/
structure TakesChars (quote : Char) (read : Text → Option (Text × Text)) : Prop where
  isQuote : quote = '"' ∨ quote = '\x27'
  closing {s : Text} {stop : Text × Text} (h : closing? quote s = some stop) : read s = some stop
  cons {c : Char} {s : Text} (hclosing : closing? quote (c :: s) = none) (hb : c ≠ '\\')
    (hc : (isTextChar c || c == '\n' || (c == '\r' && s.head? == some '\n')) = true) :
    read (c :: s) = prepend [c] (read s)

/-- What is asked of a reader of strings on several lines besides: before closing quotes, it takes
each unit for what it stands for. -/
structure ReadsMulti (quote : Char) (W : Text → Text → Text → Prop)
    (read : Text → Option (Text × Text)) : Prop extends TakesChars quote read where
  unit_append {unit value behind : Text} (h : W unit value behind) (s : Text) :
    read (unit ++ (behind ++ (List.replicate 3 quote ++ s))) =
      prepend value (read (behind ++ (List.replicate 3 quote ++ s)))
  unit_head {unit value behind : Text} (h : W unit value behind) :
    ∃ c s, unit = c :: s ∧ c ≠ quote

theorem closing?_cons_eq_none (hc : c ≠ quote) : closing? quote (c :: s) = none :=
  closing?_eq_none (n := 0) (by omega) (by simpa using hc)

section

variable {W : Text → Text → Text → Prop} {read : Text → Option (Text × Text)}

theorem TakesChars.read_plain (hread : TakesChars quote read) (hc : IsTextChar c) (hq : c ≠ quote)
    (hb : c ≠ '\\') (s : Text) : read (c :: s) = prepend [c] (read s) :=
  hread.cons (closing?_cons_eq_none hq) hb (by simp [isTextChar_iff.2 hc])

theorem TakesChars.read_newline (hread : TakesChars quote read) {newline : Text}
    (h : IsNewline newline) (s : Text) : read (newline ++ s) = prepend newline (read s) := by
  have hlf : '\n' ≠ quote := by rcases hread.isQuote with rfl | rfl <;> decide
  have hcr : '\r' ≠ quote := by rcases hread.isQuote with rfl | rfl <;> decide
  have hread_lf : read ('\n' :: s) = prepend ['\n'] (read s) :=
    hread.cons (closing?_cons_eq_none hlf) (by decide) rfl
  cases h with
  | lf => exact hread_lf
  | crlf =>
    have hread_cr : read ('\r' :: '\n' :: s) = prepend ['\r'] (read ('\n' :: s)) :=
      hread.cons (closing?_cons_eq_none hcr) (by decide) rfl
    rw [List.cons_append, List.singleton_append, hread_cr, hread_lf, ← prepend_append,
      List.singleton_append]

/-- Up to two quotes before anything else stand for themselves. -/
theorem TakesChars.read_quotes (hread : TakesChars quote read) {n : Nat} (hn : n ≤ 2)
    (hs : s.head? ≠ some quote) :
    read (List.replicate n quote ++ s) = prepend (List.replicate n quote) (read s) := by
  have hb : quote ≠ '\\' := by rcases hread.isQuote with rfl | rfl <;> decide
  have htext : isTextChar quote = true := by rcases hread.isQuote with rfl | rfl <;> rfl
  induction n with
  | zero => exact (prepend_nil (read s)).symm
  | succ n ih =>
    have hnone := closing?_eq_none hn hs
    rw [List.replicate_succ, List.cons_append] at hnone ⊢
    rw [hread.cons hnone hb (by simp [htext]), ih (by omega), ← prepend_append,
      List.singleton_append]

/-- The characters of a string are read up to its closing quotes. The induction is on the grammar,
with the quotes in front that have been passed without a unit behind them. -/
theorem ReadsMulti.read_append (hread : ReadsMulti quote W read) (hrest : rest.head? ≠ some quote)
    {room n : Nat} (h : MultiWritten quote W room text chars) (hn : n + room ≤ 2) :
    read (List.replicate n quote ++ (text ++ (List.replicate 3 quote ++ rest))) =
      some (List.replicate n quote ++ chars, rest) := by
  induction h generalizing n with
  | nil =>
    rw [List.nil_append, List.append_nil]
    exact hread.closing (closing?_eq_some (by omega) hrest)
  | quote h ih =>
    have hquote : ∀ s,
        List.replicate n quote ++ quote :: s = List.replicate (n + 1) quote ++ s := by
      simp [List.replicate_succ']
    rw [List.cons_append, hquote, hquote]
    exact ih (by omega)
  | @unit room unit value text chars hu h ih =>
    obtain ⟨c, s, rfl, hc⟩ := hread.unit_head hu
    have htext : read (text ++ (List.replicate 3 quote ++ rest)) = some (chars, rest) :=
      ih (n := 0) (by omega)
    rw [List.append_assoc, hread.read_quotes (by omega) (by simpa using hc),
      hread.unit_append hu, htext]
    rfl

end

theorem readsMulti_literal : ReadsMulti '\x27' LiteralUnit readMultiLiteral? := by
  have hcons : ∀ {c s}, closing? '\x27' (c :: s) = none →
      (isTextChar c || c == '\n' || (c == '\r' && s.head? == some '\n')) = true →
      readMultiLiteral? (c :: s) = prepend [c] (readMultiLiteral? s) := by
    intro c s hclosing hc
    rw [readMultiLiteral?, hclosing]
    exact if_pos hc
  have hread : TakesChars '\x27' readMultiLiteral? := by
    refine ⟨.inr rfl, fun {s stop} h => ?_, fun hclosing _ hc => hcons hclosing hc⟩
    cases s with
    | nil => cases h
    | cons c s => rw [readMultiLiteral?, h]
  refine ⟨hread, fun h s => ?_, fun h => ?_⟩
  · cases h with
    | plain hc hq => exact hcons (closing?_cons_eq_none hq) (by simp [isTextChar_iff.2 hc])
    | newline h => exact hread.read_newline h _
  · cases h with
    | plain hc hq => exact ⟨_, _, rfl, hq⟩
    | newline h => cases h <;> exact ⟨_, _, rfl, by decide⟩

theorem takesChars_basic : TakesChars '"' readMultiBasic? := by
  refine ⟨.inl rfl, fun {s stop} h => ?_, fun {c s} hclosing hb hc => ?_⟩
  · cases s with
    | nil => cases h
    | cons c s =>
      rw [readMultiBasic?.eq_def]
      dsimp only
      rw [h]
  · rw [readMultiBasic?.eq_def]
    dsimp only
    rw [hclosing]
    dsimp only
    rw [if_neg hb]
    exact if_pos hc

/-- A backslash ends a line, or an escape follows. -/
theorem readMultiBasic?_backslash (s : Text) :
    readMultiBasic? ('\\' :: s) =
      (lineContinuation? s).elim
        ((readEscape? s).bind fun (c, rest) => prepend [c] (readMultiBasic? rest))
        readMultiBasic? := by
  rw [readMultiBasic?.eq_def]
  dsimp only
  rw [closing?_cons_eq_none (by decide)]
  dsimp only
  rw [if_pos rfl]
  split
  · rename_i hline
    rw [hline, Option.elim_some]
  · rename_i hline
    rw [hline, Option.elim_none]
    split
    · rename_i hescape
      rw [hescape]
      rfl
    · rename_i hescape
      rw [hescape]
      rfl

theorem lineContinuation?_escape (h : EscapeWritten text c) (s : Text) :
    lineContinuation? (text ++ s) = none := by
  obtain ⟨d, t, rfl, hd⟩ := h.exists_cons
  have hall : (shortEscapes.map Prod.fst ++ numberEscapes.map Prod.fst).all
      (fun d => !isSpace d && d != '\n' && d != '\r') = true := by decide
  have hspace : (isSpace d = false ∧ d ≠ '\n') ∧ d ≠ '\r' := by
    simpa using List.all_eq_true.1 hall d hd
  have hskip : skipSpace (d :: t ++ s) = d :: (t ++ s) := skipSpace_of_head (by simp [hspace])
  rw [lineContinuation?, hskip, newline?]
  · rfl
  · simp [hspace]
  · simp [hspace]

theorem skipBlankLines_append {blanks : Text} (h : IsBlankLines blanks) (s : Text) :
    skipBlankLines (blanks ++ s) = skipBlankLines s := by
  induction h with
  | nil => rfl
  | space hc h ih => rcases hc with rfl | rfl <;> simpa [skipBlankLines, isSpace] using ih
  | newline hn h ih =>
    cases hn <;> simpa [skipBlankLines] using ih

/-- Blank lines end at a quote, or before, where they end without it. -/
theorem skipBlankLines_quote {behind : Text}
    (ends : ∀ s t, IsBlankLines s → behind = s ++ t → s = []) (s : Text) :
    skipBlankLines (behind ++ '"' :: s) = behind ++ '"' :: s := by
  have hnewline : ∀ newline t, IsNewline newline → behind ≠ newline ++ t := by
    rintro newline t hn rfl
    have := ends newline t (by simpa using IsBlankLines.newline hn .nil) rfl
    subst this
    cases hn
  cases behind with
  | nil => rfl
  | cons c behind =>
    have hspace : ¬ (c = ' ' ∨ c = '\t') := fun hc =>
      absurd (ends [c] behind (.space hc .nil) rfl) (by simp)
    have hlf : c ≠ '\n' := by
      rintro rfl
      exact hnewline _ behind .lf rfl
    rw [List.cons_append, skipBlankLines, if_neg (by simp [isSpace, not_or.1 hspace, hlf])]
    rintro rest rfl hrest
    cases behind with
    | nil => cases hrest
    | cons d behind =>
      obtain ⟨rfl, -⟩ := List.cons.inj hrest
      exact hnewline _ behind .crlf rfl

theorem lineContinuation?_append {spaces newline blanks behind : Text} (hs : IsSpaces spaces)
    (hn : IsNewline newline) (hb : IsBlankLines blanks)
    (ends : ∀ s t, IsBlankLines s → behind = s ++ t → s = []) (s : Text) :
    lineContinuation? (spaces ++ newline ++ blanks ++ (behind ++ '"' :: s)) =
      some (behind ++ '"' :: s) := by
  have hskip : ∀ t, skipSpace (newline ++ t) = newline ++ t := fun t =>
    skipSpace_of_head (by cases hn <;> simp [isSpace])
  rw [List.append_assoc, List.append_assoc, lineContinuation?, skipSpace_append hs, hskip,
    newline?_append hn, Option.map_some, skipBlankLines_append hb, skipBlankLines_quote ends]

theorem readsMulti_basic : ReadsMulti '"' BasicUnit readMultiBasic? := by
  refine ⟨takesChars_basic, fun {unit value behind} h s => ?_, fun h => ?_⟩
  · cases h with
    | plain hc => exact takesChars_basic.read_plain hc.1 hc.2.1 hc.2.2 _
    | newline h => exact takesChars_basic.read_newline h _
    | escaped hc =>
      rw [List.cons_append, readMultiBasic?_backslash, lineContinuation?_escape hc,
        readEscape?_append hc]
      rfl
    | @continued spaces newline blanks _ hs hn hb ends =>
      have hline : lineContinuation? (spaces ++ newline ++ blanks ++
          (behind ++ (List.replicate 3 '"' ++ s))) =
            some (behind ++ (List.replicate 3 '"' ++ s)) :=
        lineContinuation?_append hs hn hb ends ('"' :: '"' :: s)
      rw [List.cons_append, readMultiBasic?_backslash, hline, Option.elim_some, prepend_nil]
  · cases h with
    | plain hc => exact ⟨_, _, rfl, hc.2.1⟩
    | newline h => cases h <;> exact ⟨_, _, rfl, by decide⟩
    | escaped => exact ⟨_, _, rfl, by decide⟩
    | continued => exact ⟨_, _, rfl, by decide⟩

/-! ## Strings in all forms -/

theorem trimNewline_append {opening body : Text} (h : Opening opening body)
    (hq : quote = '"' ∨ quote = '\x27') (s : Text) :
    trimNewline (opening ++ (body ++ (List.replicate 3 quote ++ s))) =
      body ++ (List.replicate 3 quote ++ s) := by
  unfold trimNewline
  cases h with
  | newline h => rw [newline?_append h, Option.getD_some]
  | nothing h =>
    suffices newline? (body ++ (List.replicate 3 quote ++ s)) = none by
      rw [List.nil_append, this, Option.getD_none]
    refine newline?_eq_none fun newline t hn heq => ?_
    have hmem : quote ∉ newline := by
      cases hn <;> rcases hq with rfl | rfl <;> decide
    -- The line end would end within the body, or have a quote.
    rcases List.append_eq_append_iff.1 heq with ⟨a, rfl, ha⟩ | ⟨a, rfl, -⟩
    · cases a with
      | nil => exact h _ [] hn (by simp)
      | cons c a =>
        obtain ⟨rfl, -⟩ := List.cons.inj ha
        exact hmem (by simp)
    · exact h _ a hn rfl

theorem BasicWritten.head_ne (h : BasicWritten text chars) : text.head? ≠ some '"' := by
  cases h with
  | nil => simp
  | plain hc => simpa using hc.2.1
  | escaped => simp

theorem IsLiteral.head_ne (h : IsLiteral text) : text.head? ≠ some '\x27' := by
  cases text with
  | nil => simp
  | cons c text => simpa using (h c List.mem_cons_self).2

/-- A string on one line does not begin like one on several lines. -/
theorem append_quote_ne {body : Text} (hbody : body.head? ≠ some quote)
    (hrest : rest.head? ≠ some quote) (t : Text) : body ++ quote :: rest ≠ quote :: quote :: t := by
  cases body with
  | nil => cases rest <;> simp_all
  | cons c body => simp_all

theorem readString?_append (h : StringWritten text chars)
    (hbasic : rest.head? ≠ some '"') (hliteral : rest.head? ≠ some '\x27') :
    readString? (text ++ rest) = some (chars, rest) := by
  cases h with
  | @basic body _ h =>
    have hs : '"' :: (body ++ ['"']) ++ rest = '"' :: (body ++ '"' :: rest) := by simp
    rw [hs, readString?, readBasic?_append h]
    exact append_quote_ne h.head_ne hbasic
  | literal h =>
    have hs : '\x27' :: (chars ++ ['\x27']) ++ rest = '\x27' :: (chars ++ '\x27' :: rest) := by simp
    rw [hs, readString?, readLiteral?_append h]
    exact append_quote_ne h.head_ne hliteral
  | @multiBasic opening body _ ho h =>
    have hs : List.replicate 3 '"' ++ opening ++ body ++ List.replicate 3 '"' ++ rest =
        '"' :: '"' :: '"' :: (opening ++ (body ++ (List.replicate 3 '"' ++ rest))) := by simp
    rw [hs, readString?, trimNewline_append ho (.inl rfl)]
    exact readsMulti_basic.read_append hbasic (n := 0) h (by omega)
  | @multiLiteral opening body _ ho h =>
    have hs : List.replicate 3 '\x27' ++ opening ++ body ++ List.replicate 3 '\x27' ++ rest =
        '\x27' :: '\x27' :: '\x27' ::
          (opening ++ (body ++ (List.replicate 3 '\x27' ++ rest))) := by simp
    rw [hs, readString?, trimNewline_append ho (.inr rfl)]
    exact readsMulti_literal.read_append hliteral (n := 0) h (by omega)

end CommandWords.Toml
