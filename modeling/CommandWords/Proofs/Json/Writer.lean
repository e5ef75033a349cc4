import CommandWords.Json.Writer
import CommandWords.Proofs.Json.Documents

/-!
# What is written is JSON

The writer of strings gives strings of the grammar (`stringWritten_writeString`). A value without
numbers is written as a text of the grammar in both layouts, and the layouts differ in white space
outside strings only (`Lays`; `squeeze` deletes such white space).

* `lays_array`, `lays_object`: a text with any white space between the parts of an array or an
  object, from which the two layouts follow (`lays_compact`, `lays_indented`).
* `isPrintable_compact`: the compact text has no control characters.
-/

namespace CommandWords.Json

variable {c : Char} {s text rest : Text} {depth level : Nat} {value : Json}

/-! ## Strings -/

theorem hexValue?_hexDigit : ∀ n < 16, hexValue? (hexDigit n) = some n := by decide

theorem hexDigit_plain : ∀ n < 16,
    hexDigit n ≠ '"' ∧ hexDigit n ≠ '\\' ∧ 0x20 ≤ (hexDigit n).toNat := by decide

/-- How a character is written: with a short escape, by number, or bare. -/
theorem writeChar_cases (c : Char) :
    (∃ d, (d, c) ∈ shortEscapes ∧ writeChar c = ['\\', d]) ∨
      (c.toNat < 0x20 ∧ writeChar c =
        ['\\', 'u', '0', '0', hexDigit (c.toNat / 16), hexDigit (c.toNat % 16)]) ∨
      (c ≠ '"' ∧ c ≠ '\\' ∧ 0x20 ≤ c.toNat ∧ writeChar c = [c]) := by
  by_cases hshort : c ∈ ['"', '\\', '\x08', '\x0c', '\n', '\r', '\t']
  · left
    simp only [List.mem_cons, List.not_mem_nil, or_false] at hshort
    rcases hshort with rfl | rfl | rfl | rfl | rfl | rfl | rfl
    · exact ⟨'"', by decide, rfl⟩
    · exact ⟨'\\', by decide, rfl⟩
    · exact ⟨'b', by decide, rfl⟩
    · exact ⟨'f', by decide, rfl⟩
    · exact ⟨'n', by decide, rfl⟩
    · exact ⟨'r', by decide, rfl⟩
    · exact ⟨'t', by decide, rfl⟩
  · right
    simp only [List.mem_cons, List.not_mem_nil, or_false, not_or] at hshort
    obtain ⟨hq, hb, h₃, h₄, h₅, h₆, h₇⟩ := hshort
    have hlong : writeChar c = if c.toNat < 0x20 then
        ['\\', 'u', '0', '0', hexDigit (c.toNat / 16), hexDigit (c.toNat % 16)] else [c] := by
      rw [writeChar, if_neg hq, if_neg hb, if_neg h₃, if_neg h₄, if_neg h₅, if_neg h₆, if_neg h₇]
    by_cases hc : c.toNat < 0x20
    · exact .inl ⟨hc, hlong.trans (if_pos hc)⟩
    · exact .inr ⟨hq, hb, by omega, hlong.trans (if_neg hc)⟩

theorem charWritten_writeChar (c : Char) : CharWritten (writeChar c) c := by
  rcases writeChar_cases c with ⟨d, hd, hw⟩ | ⟨hc, hw⟩ | ⟨hq, hb, hc, hw⟩
  · rw [hw]
    exact .escaped (.short hd)
  · have hunits : units c = [c.toNat] := if_pos (by omega)
    have hzero : hexValue? '0' = some 0 := by decide
    have hunit := UnitWritten.digits hzero hzero (hexValue?_hexDigit (c.toNat / 16) (by omega))
      (hexValue?_hexDigit (c.toNat % 16) (by omega))
    rw [show ((0 * 16 + 0) * 16 + c.toNat / 16) * 16 + c.toNat % 16 = c.toNat by omega] at hunit
    rw [hw]
    exact .escaped (.unit hunits hunit)
  · rw [hw]
    exact .plain hq hb hc

theorem charsWritten_flatMap_writeChar (s : Text) : CharsWritten (s.flatMap writeChar) s := by
  induction s with
  | nil => exact .nil
  | cons c s ih => exact .cons (charWritten_writeChar c) ih

/-- A text is written as a string of the grammar. -/
theorem stringWritten_writeString (s : Text) : StringWritten (writeString s) s :=
  ⟨s.flatMap writeChar, by simp [writeString], charsWritten_flatMap_writeChar s⟩

/-! ## Texts without their white space -/

/-- A text without the white space outside its strings. `inString` tells whether the text starts
inside one. -/
def squeeze : (inString : Bool) → Text → Text
  | _, [] => []
  | false, c :: cs =>
    if isBlank c then squeeze false cs
    else if c = '"' then c :: squeeze true cs
    else c :: squeeze false cs
  | true, c :: cs =>
    if c = '"' then c :: squeeze false cs
    else if c = '\\' then
      match cs with
      | [] => [c]
      | d :: ds => c :: d :: squeeze true ds
    else c :: squeeze true cs

theorem squeeze_opening (rest : Text) : squeeze false ('"' :: rest) = '"' :: squeeze true rest := rfl

theorem squeeze_closing (rest : Text) : squeeze true ('"' :: rest) = '"' :: squeeze false rest := by
  rw [squeeze.eq_def]
  exact if_pos rfl

theorem squeeze_plain (hq : c ≠ '"') (hb : c ≠ '\\') (rest : Text) :
    squeeze true (c :: rest) = c :: squeeze true rest := by
  rw [squeeze.eq_def]
  exact (if_neg hq).trans (if_neg hb)

theorem squeeze_escaped (c : Char) (rest : Text) :
    squeeze true ('\\' :: c :: rest) = '\\' :: c :: squeeze true rest := rfl

theorem squeeze_writeChar (c : Char) (rest : Text) :
    squeeze true (writeChar c ++ rest) = writeChar c ++ squeeze true rest := by
  rcases writeChar_cases c with ⟨d, -, hw⟩ | ⟨hc, hw⟩ | ⟨hq, hb, -, hw⟩
  · rw [hw]
    exact squeeze_escaped d rest
  · obtain ⟨hq, hb, -⟩ := hexDigit_plain (c.toNat / 16) (by omega)
    obtain ⟨hq', hb', -⟩ := hexDigit_plain (c.toNat % 16) (by omega)
    have hzero : ∀ t, squeeze true ('0' :: t) = '0' :: squeeze true t :=
      squeeze_plain (by decide) (by decide)
    simp only [hw, List.cons_append, List.nil_append]
    rw [squeeze_escaped, hzero, hzero, squeeze_plain hq hb, squeeze_plain hq' hb']
  · rw [hw]
    exact squeeze_plain hq hb rest

/-- A text whose white space outside strings can be deleted, which leaves `bare`. -/
def Squeezes (text bare : Text) : Prop :=
  ∀ rest, squeeze false (text ++ rest) = bare ++ squeeze false rest

theorem squeezes_nil : Squeezes [] [] := fun _ => rfl

theorem Squeezes.append {text' bare bare' : Text} (h : Squeezes text bare)
    (h' : Squeezes text' bare') : Squeezes (text ++ text') (bare ++ bare') := fun rest => by
  rw [List.append_assoc, h, h', List.append_assoc]

theorem squeezes_solid (hb : isBlank c = false) (hq : c ≠ '"') : Squeezes [c] [c] := fun rest => by
  simp [squeeze, hb, hq]

theorem squeezes_word (h : (s.all fun c => !isBlank c && c != '"') = true) : Squeezes s s := by
  induction s with
  | nil => exact squeezes_nil
  | cons c s ih =>
    simp only [List.all_cons, Bool.and_eq_true, Bool.not_eq_true', bne_iff_ne] at h
    exact (squeezes_solid h.1.1 h.1.2).append (ih h.2)

theorem squeezes_spaces (h : IsSpaces s) : Squeezes s [] := by
  induction s with
  | nil => exact squeezes_nil
  | cons c s ih =>
    rw [IsSpaces, List.forall_mem_cons] at h
    intro rest
    rw [List.cons_append, squeeze, if_pos (isBlank_of_isSpace h.1)]
    exact ih h.2 rest

theorem squeezes_writeString (s : Text) : Squeezes (writeString s) (writeString s) := by
  have hchars : ∀ rest, squeeze true (s.flatMap writeChar ++ '"' :: rest) =
      s.flatMap writeChar ++ '"' :: squeeze false rest := by
    intro rest
    induction s with
    | nil => exact squeeze_closing rest
    | cons c s ih => rw [List.flatMap_cons, List.append_assoc, squeeze_writeChar, ih, List.append_assoc]
  intro rest
  simp [writeString, squeeze_opening, hchars]

/-! ## Elements with commas between -/

/-- The texts of elements with commas between. -/
def commaSeparated {α : Type} (write : α → Text) : List α → Text
  | [] => []
  | [x] => write x
  | x :: xs => write x ++ ',' :: commaSeparated write xs

section

variable {α : Type} {write write' : α → Text} {xs : List α} {spaces trail : Text}

theorem commaSeparated_cons_cons (write : α → Text) (x y : α) (xs : List α) :
    commaSeparated write (x :: y :: xs) = write x ++ ',' :: commaSeparated write (y :: xs) := rfl

theorem squeezes_commaSeparated (h : ∀ x ∈ xs, Squeezes (write x) (write' x)) :
    Squeezes (commaSeparated write xs) (commaSeparated write' xs) := by
  induction xs with
  | nil => exact squeezes_nil
  | cons x xs ih =>
    rw [List.forall_mem_cons] at h
    cases xs with
    | nil => exact h.1
    | cons y ys =>
      have hcomma : Squeezes [','] [','] := squeezes_solid (by decide) (by decide)
      exact h.1.append (hcomma.append (ih h.2))

/-- Elements of a grammar with commas between and white space around are a list of the grammar. -/
theorem listed_commaSeparated {W : Text → α → Prop} {first : Bool} {lead : Text}
    (hl : Lead first lead) (hs : IsSpaces spaces) (ht : IsSpaces trail) (hne : xs ≠ [])
    (h : ∀ x ∈ xs, W (write x) x) :
    Listed W first (lead ++ commaSeparated (fun x => spaces ++ write x) xs ++ trail) xs := by
  induction xs generalizing first lead with
  | nil => exact absurd rfl hne
  | cons x xs ih =>
    rw [List.forall_mem_cons] at h
    cases xs with
    | nil => simpa [commaSeparated] using Listed.cons (hl.append hs) h.1 (.nil ht)
    | cons y ys =>
      have hcomma : Lead false [','] := .comma isSpaces_nil isSpaces_nil
      have hrest := ih hcomma (List.cons_ne_nil y ys) h.2
      simpa [commaSeparated_cons_cons] using Listed.cons (hl.append hs) h.1 hrest

theorem mem_commaSeparated (h : c ∈ commaSeparated write xs) :
    c = ',' ∨ ∃ x ∈ xs, c ∈ write x := by
  induction xs with
  | nil => cases h
  | cons x xs ih =>
    cases xs with
    | nil => exact .inr ⟨x, List.mem_cons_self, h⟩
    | cons y ys =>
      rw [commaSeparated_cons_cons, List.mem_append, List.mem_cons] at h
      rcases h with h | rfl | h
      · exact .inr ⟨x, List.mem_cons_self, h⟩
      · exact .inl rfl
      · exact (ih h).imp_right fun ⟨z, hz, hc⟩ => ⟨z, List.mem_cons_of_mem x hz, hc⟩

end

/-! ## The two layouts -/

theorem compactItems_eq (items : List Json) : compactItems items = commaSeparated compact items := by
  induction items with
  | nil => rfl
  | cons item items ih =>
    cases items with
    | nil => rfl
    | cons next items => rw [compactItems, ih, commaSeparated_cons_cons]; simp

/-- A member of an object, with `space` before its value. -/
def writeMember (space : Text) (write : Json → Text) (member : Text × Json) : Text :=
  writeString member.1 ++ ':' :: (space ++ write member.2)

theorem compactMembers_eq (members : List (Text × Json)) :
    compactMembers members = commaSeparated (writeMember [] compact) members := by
  induction members with
  | nil => rfl
  | cons member members ih =>
    cases members with
    | nil => rfl
    | cons next members =>
      rw [compactMembers, ih, commaSeparated_cons_cons, writeMember]
      · simp
      · exact List.cons_ne_nil next members

theorem indentedItems_eq (level : Nat) (items : List Json) :
    indentedItems level items =
      commaSeparated (fun item => newLine level ++ indented level item) items := by
  induction items with
  | nil => rfl
  | cons item items ih =>
    cases items with
    | nil => rfl
    | cons next items => rw [indentedItems, ih, commaSeparated_cons_cons]; simp

theorem indentedMembers_eq (level : Nat) (members : List (Text × Json)) :
    indentedMembers level members =
      commaSeparated (fun member => newLine level ++ writeMember [' '] (indented level) member)
        members := by
  induction members with
  | nil => rfl
  | cons member members ih =>
    cases members with
    | nil => simp [indentedMembers, commaSeparated, writeMember]
    | cons next members =>
      rw [indentedMembers, ih, commaSeparated_cons_cons, writeMember]
      · simp
      · exact List.cons_ne_nil next members

/-! ## Values without numbers -/

/-- A value without numbers, with at most `depth` arrays and objects open at once. -/
def IsNumberFree (depth : Nat) (value : Json) : Prop :=
  match value, depth with
  | .number _, _ => False
  | .array _, 0 => False
  | .array items, depth + 1 => ∀ item ∈ items, IsNumberFree depth item
  | .object _, 0 => False
  | .object members, depth + 1 => ∀ member ∈ members, IsNumberFree depth member.2
  | _, _ => True

/-- A text of a value that differs from the compact one only in white space outside strings. -/
structure Lays (depth : Nat) (text : Text) (value : Json) : Prop where
  written : Written depth text value
  squeezes : Squeezes text value.compact

variable {spaces trail space : Text} {write : Json → Text} {items : List Json}
  {members : List (Text × Json)}

theorem lays_array (hs : IsSpaces spaces) (ht : IsSpaces trail)
    (h : ∀ item ∈ items, Lays depth (write item) item) :
    Lays (depth + 1)
      ('[' :: (commaSeparated (fun item => spaces ++ write item) items ++ trail ++ [']']))
      (.array items) where
  written := by
    rw [Written]
    refine ⟨_, rfl, ?_⟩
    by_cases hne : items = []
    · subst hne
      exact .nil ht
    · exact listed_commaSeparated (.first isSpaces_nil) hs ht hne fun item hi => (h item hi).written
  squeezes := by
    have hopen : Squeezes ['['] ['['] := squeezes_solid (by decide) (by decide)
    have hclose : Squeezes [']'] [']'] := squeezes_solid (by decide) (by decide)
    have hitems : Squeezes (commaSeparated (fun item => spaces ++ write item) items)
        (compactItems items) := by
      rw [compactItems_eq]
      exact squeezes_commaSeparated fun item hi => (squeezes_spaces hs).append (h item hi).squeezes
    simpa [compact] using hopen.append ((hitems.append (squeezes_spaces ht)).append hclose)

theorem lays_object (hs : IsSpaces spaces) (ht : IsSpaces trail) (hc : IsSpaces space)
    (h : ∀ member ∈ members, Lays depth (write member.2) member.2) :
    Lays (depth + 1)
      ('\x7b' :: (commaSeparated (fun member => spaces ++ writeMember space write member) members ++
        trail ++ ['\x7d']))
      (.object members) where
  written := by
    rw [Written]
    refine ⟨_, rfl, ?_⟩
    by_cases hne : members = []
    · subst hne
      exact .nil ht
    · refine listed_commaSeparated (.first isSpaces_nil) hs ht hne fun member hm => ?_
      exact ⟨writeString member.1, [], space, write member.2, by simp [writeMember],
        stringWritten_writeString member.1, isSpaces_nil, hc, (h member hm).written⟩
  squeezes := by
    have hopen : Squeezes ['\x7b'] ['\x7b'] := squeezes_solid (by decide) (by decide)
    have hclose : Squeezes ['\x7d'] ['\x7d'] := squeezes_solid (by decide) (by decide)
    have hcolon : Squeezes [':'] [':'] := squeezes_solid (by decide) (by decide)
    have hmembers : Squeezes
        (commaSeparated (fun member => spaces ++ writeMember space write member) members)
        (compactMembers members) := by
      rw [compactMembers_eq]
      refine squeezes_commaSeparated fun member hm => (squeezes_spaces hs).append ?_
      exact (squeezes_writeString member.1).append
        (hcolon.append ((squeezes_spaces hc).append (h member hm).squeezes))
    simpa [compact] using hopen.append ((hmembers.append (squeezes_spaces ht)).append hclose)

theorem lays_scalar (h : IsNumberFree depth value) (hv : isScalar value = true) :
    Lays depth value.compact value := by
  cases value with
  | null => exact ⟨by rw [Written]; rfl, squeezes_word (by decide)⟩
  | bool value =>
    cases value with
    | true => exact ⟨by rw [Written]; rfl, squeezes_word (by decide)⟩
    | false => exact ⟨by rw [Written]; rfl, squeezes_word (by decide)⟩
  | number value => rw [IsNumberFree] at h; cases h
  | string value =>
    exact ⟨by rw [Written]; exact stringWritten_writeString value, squeezes_writeString value⟩
  | array | object => cases hv

/-- The compact text of a value is a text of the grammar. -/
theorem lays_compact (h : IsNumberFree depth value) : Lays depth value.compact value := by
  induction depth generalizing value with
  | zero =>
    cases value with
    | array | object => rw [IsNumberFree] at h; cases h
    | _ => exact lays_scalar h rfl
  | succ depth ih =>
    cases value with
    | array items =>
      rw [IsNumberFree] at h
      have := lays_array isSpaces_nil isSpaces_nil fun item hi => ih (h item hi)
      simpa [compact, compactItems_eq] using this
    | object members =>
      rw [IsNumberFree] at h
      have := lays_object isSpaces_nil isSpaces_nil isSpaces_nil fun member hm => ih (h member hm)
      simpa [compact, compactMembers_eq] using this
    | _ => exact lays_scalar h rfl

theorem isSpaces_newLine (level : Nat) : IsSpaces (newLine level) := by
  intro c hc
  rw [newLine, List.mem_cons, List.mem_replicate] at hc
  rcases hc with rfl | ⟨-, rfl⟩ <;> decide

/-- The indented text of a value is a text of the grammar, and differs from the compact one in white
space only. -/
theorem lays_indented (level : Nat) (h : IsNumberFree depth value) :
    Lays depth (value.indented level) value := by
  induction depth generalizing value level with
  | zero =>
    cases value with
    | array | object => rw [IsNumberFree] at h; cases h
    | _ => exact lays_scalar h rfl
  | succ depth ih =>
    have hspaces : IsSpaces [' '] := by simp [IsSpaces, isSpace]
    cases value with
    | array items =>
      cases items with
      | nil => exact lays_compact h
      | cons item items =>
        rw [IsNumberFree] at h
        have := lays_array (isSpaces_newLine (level + 1)) (isSpaces_newLine level) fun item hi =>
          ih (level + 1) (h item hi)
        simpa [indented, indentedItems_eq] using this
    | object members =>
      cases members with
      | nil => exact lays_compact h
      | cons member members =>
        rw [IsNumberFree] at h
        have := lays_object (isSpaces_newLine (level + 1)) (isSpaces_newLine level) hspaces
          fun member hm => ih (level + 1) (h member hm)
        simpa [indented, indentedMembers_eq] using this
    | _ => exact lays_scalar h rfl

/-! ## Control characters -/

/-- A text without the control characters below U+0020. -/
def IsPrintable (s : Text) : Prop := ∀ c ∈ s, 0x20 ≤ c.toNat

theorem isPrintable_append {t : Text} :
    IsPrintable (s ++ t) ↔ IsPrintable s ∧ IsPrintable t := List.forall_mem_append

theorem isPrintable_cons : IsPrintable (c :: s) ↔ 0x20 ≤ c.toNat ∧ IsPrintable s :=
  List.forall_mem_cons

theorem isPrintable_of_all (h : (s.all fun c => decide (0x20 ≤ c.toNat)) = true) :
    IsPrintable s := by
  simpa [IsPrintable] using h

theorem isPrintable_singleton (h : 0x20 ≤ c.toNat) : IsPrintable [c] :=
  isPrintable_cons.2 ⟨h, isPrintable_of_all rfl⟩

theorem isPrintable_writeChar (c : Char) : IsPrintable (writeChar c) := by
  have hescape : (shortEscapes.all fun p => decide (0x20 ≤ p.1.toNat)) = true := by decide
  have hfixed : IsPrintable ['\\', 'u', '0', '0'] := isPrintable_of_all (by decide)
  rcases writeChar_cases c with ⟨d, hd, hw⟩ | ⟨hc, hw⟩ | ⟨-, -, hc, hw⟩
  · rw [hw]
    have hletter : 0x20 ≤ d.toNat := of_decide_eq_true (List.all_eq_true.1 hescape _ hd)
    exact isPrintable_cons.2 ⟨by decide, isPrintable_singleton hletter⟩
  · obtain ⟨-, -, hhigh⟩ := hexDigit_plain (c.toNat / 16) (by omega)
    obtain ⟨-, -, hlow⟩ := hexDigit_plain (c.toNat % 16) (by omega)
    rw [hw]
    have hdigits := isPrintable_cons.2 ⟨hhigh, isPrintable_singleton hlow⟩
    exact isPrintable_append.2 ⟨hfixed, hdigits⟩
  · rw [hw]
    exact isPrintable_singleton hc

theorem isPrintable_writeString (s : Text) : IsPrintable (writeString s) := by
  refine isPrintable_append.2 ⟨isPrintable_cons.2 ⟨by decide, fun c hc => ?_⟩,
    isPrintable_singleton (by decide)⟩
  obtain ⟨d, -, hc⟩ := List.mem_flatMap.1 hc
  exact isPrintable_writeChar d c hc

/-- Between brackets and commas a text is printable if its elements are. -/
theorem isPrintable_commaSeparated {α : Type} {write : α → Text} {xs : List α} {first last : Char}
    (hf : 0x20 ≤ first.toNat) (hl : 0x20 ≤ last.toNat) (h : ∀ x ∈ xs, IsPrintable (write x)) :
    IsPrintable (first :: (commaSeparated write xs ++ [last])) := by
  refine isPrintable_cons.2 ⟨hf, isPrintable_append.2 ⟨fun c hc => ?_, ?_⟩⟩
  · rcases mem_commaSeparated hc with rfl | ⟨x, hx, hc⟩
    · decide
    · exact h x hx c hc
  · exact isPrintable_singleton hl

theorem isPrintable_scalar (h : IsNumberFree depth value) (hv : isScalar value = true) :
    IsPrintable value.compact := by
  cases value with
  | null => exact isPrintable_of_all (by decide)
  | bool value => cases value <;> exact isPrintable_of_all (by decide)
  | number value => rw [IsNumberFree] at h; cases h
  | string value => exact isPrintable_writeString value
  | array | object => cases hv

/-- The compact text of a value has no control characters. -/
theorem isPrintable_compact (h : IsNumberFree depth value) : IsPrintable value.compact := by
  induction depth generalizing value with
  | zero =>
    cases value with
    | array | object => rw [IsNumberFree] at h; cases h
    | _ => exact isPrintable_scalar h rfl
  | succ depth ih =>
    cases value with
    | array items =>
      rw [IsNumberFree] at h
      rw [compact, compactItems_eq]
      exact isPrintable_commaSeparated (by decide) (by decide) fun item hi => ih (h item hi)
    | object members =>
      rw [IsNumberFree] at h
      rw [compact, compactMembers_eq]
      refine isPrintable_commaSeparated (by decide) (by decide) fun member hm => ?_
      exact isPrintable_append.2 ⟨isPrintable_writeString member.1,
        isPrintable_cons.2 ⟨by decide, ih (h member hm)⟩⟩
    | _ => exact isPrintable_scalar h rfl

end CommandWords.Json
