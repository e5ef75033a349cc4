import CommandWords.Line.Step

/-!
# Where a quoted text ends

A single-quoted text ends at the next single quote. A double-quoted text ends at the next double
quote that no backslash protects: `IsContent` describes the texts that can stand between double
quotes without ending there, as a sequence of plain characters and of backslashes with the
character behind each.

* `closeSingle?_append`, `closeSingle?_eq_none_iff`: the search for a single quote.
* `close?_append`, `isContent_of_close?`, `close?_eq_none_iff`: the search for a double quote. It
  fails exactly on such a content and on such a content with one more backslash behind it.
* `decode_plain`, `decode_escaped`: what a content stands for, character by character. The characters
  before which a backslash disappears are written out (`isSpecial_iff_mem`).
-/

namespace CommandWords

theorem closeSingle?_append {content : Text} (h : Quote.single.char ∉ content) (behind : Text) :
    closeSingle? (content ++ Quote.single.char :: behind) = some (content, behind) := by
  induction content with
  | nil => simp [closeSingle?]
  | cons c cs ih =>
    rw [List.mem_cons, not_or] at h
    rw [List.cons_append, closeSingle?, if_neg (Ne.symm h.1), ih h.2]
    rfl

theorem closeSingle?_eq_none_iff {s : Text} : closeSingle? s = none ↔ Quote.single.char ∉ s := by
  induction s with
  | nil => simp [closeSingle?]
  | cons c cs ih =>
    rw [closeSingle?]
    split
    · rename_i h; simp [h]
    · rename_i h
      rw [Option.map_eq_none_iff, ih, List.mem_cons, not_or]
      exact ⟨fun hn => ⟨Ne.symm h, hn⟩, And.right⟩

theorem not_mem_of_closeSingle? {s content behind : Text}
    (h : closeSingle? s = some (content, behind)) : Quote.single.char ∉ content := by
  induction s generalizing content with
  | nil => simp [closeSingle?] at h
  | cons c cs ih =>
    rw [closeSingle?] at h
    split at h
    · obtain ⟨rfl, -⟩ : [] = content ∧ cs = behind := by simpa using h
      exact List.not_mem_nil
    · rename_i hc
      obtain ⟨⟨a, b⟩, hab, he⟩ := Option.map_eq_some_iff.1 h
      obtain ⟨rfl, rfl⟩ : c :: a = content ∧ b = behind := by simpa using he
      rw [List.mem_cons, not_or]
      exact ⟨Ne.symm hc, ih hab⟩

namespace DoubleQuoted

/-- A text that can stand between double quotes: no double quote in it stands bare, and every
backslash has a character behind it. -/
inductive IsContent : Text → Prop
  | nil : IsContent []
  | plain {c : Char} {cs : Text} (hq : c ≠ '"') (hb : c ≠ '\\') (h : IsContent cs) :
    IsContent (c :: cs)
  | escaped {d : Char} {cs : Text} (h : IsContent cs) : IsContent ('\\' :: d :: cs)

theorem IsContent.append {a b : Text} (ha : IsContent a) (hb : IsContent b) :
    IsContent (a ++ b) := by
  induction ha with
  | nil => exact hb
  | plain hq hback _ ih => exact .plain hq hback ih
  | escaped _ ih => exact .escaped ih

theorem close?_quote (cs : Text) : close? ('"' :: cs) = some ([], cs) := by
  rw [close?.eq_def]
  exact if_pos rfl

theorem close?_plain {c : Char} (hq : c ≠ '"') (hb : c ≠ '\\') (cs : Text) :
    close? (c :: cs) = (close? cs).map fun (content, behind) => (c :: content, behind) := by
  rw [close?.eq_def]
  exact (if_neg hq).trans (if_neg hb)

theorem close?_append {content : Text} (h : IsContent content) (behind : Text) :
    close? (content ++ '"' :: behind) = some (content, behind) := by
  induction h with
  | nil => exact close?_quote behind
  | plain hq hb _ ih => rw [List.cons_append, close?_plain hq hb, ih]; rfl
  | escaped _ ih => simp [close?, ih]

theorem isContent_of_close? {s content behind : Text} (h : close? s = some (content, behind)) :
    IsContent content := by
  fun_induction close? s generalizing content with
  | case1 => simp at h
  | case2 cs =>
    obtain ⟨rfl, -⟩ : [] = content ∧ cs = behind := by simpa using h
    exact .nil
  | case3 => simp at h
  | case4 d ds _ ih =>
    obtain ⟨⟨a, b⟩, hab, he⟩ := Option.map_eq_some_iff.1 h
    obtain ⟨rfl, rfl⟩ : '\\' :: d :: a = content ∧ b = behind := by simpa using he
    exact .escaped (ih hab)
  | case5 c cs hq hb ih =>
    obtain ⟨⟨a, b⟩, hab, he⟩ := Option.map_eq_some_iff.1 h
    obtain ⟨rfl, rfl⟩ : c :: a = content ∧ b = behind := by simpa using he
    exact .plain hq hb (ih hab)

theorem close?_eq_none_of_isContent {content : Text} (h : IsContent content) :
    close? content = none ∧ close? (content ++ ['\\']) = none := by
  induction h with
  | nil => simp [close?]
  | plain hq hb _ ih => simp [close?_plain hq hb, ih]
  | escaped _ ih => simp [close?, ih]

/-- No double quote closes a text exactly if it is a content, or a content and a backslash that
nothing follows. -/
theorem close?_eq_none_iff {s : Text} : close? s = none ↔
    ∃ content, IsContent content ∧ (s = content ∨ s = content ++ ['\\']) := by
  constructor
  · intro h
    fun_induction close? s with
    | case1 => exact ⟨[], .nil, .inl rfl⟩
    | case2 => simp at h
    | case3 => exact ⟨[], .nil, .inr rfl⟩
    | case4 d ds _ ih =>
      obtain ⟨content, hc, hs⟩ := ih (Option.map_eq_none_iff.1 h)
      exact ⟨'\\' :: d :: content, .escaped hc, by rcases hs with rfl | rfl <;> simp⟩
    | case5 c cs hq hb ih =>
      obtain ⟨content, hc, hs⟩ := ih (Option.map_eq_none_iff.1 h)
      exact ⟨c :: content, .plain hq hb hc, by rcases hs with rfl | rfl <;> simp⟩
  · rintro ⟨content, hc, rfl | rfl⟩
    · exact (close?_eq_none_of_isContent hc).1
    · exact (close?_eq_none_of_isContent hc).2

theorem decode_plain {c : Char} (h : c ≠ '\\') (cs : Text) : decode (c :: cs) = c :: decode cs := by
  cases cs with
  | nil => rfl
  | cons d ds => rw [decode, if_neg fun hc => h hc.1]

theorem isSpecial_iff_mem {c : Char} :
    isSpecial c = true ↔ c ∈ ['$', '\x60', '"', '\\', '\n'] := by
  simp [isSpecial, or_assoc]

theorem decode_escaped (d : Char) (cs : Text) :
    decode ('\\' :: d :: cs) =
      (if d ∈ ['$', '\x60', '"', '\\', '\n'] then [d] else ['\\', d]) ++ decode cs := by
  simp only [← isSpecial_iff_mem]
  rw [decode]
  by_cases h : isSpecial d = true
  · simp [h]
  · have hd : d ≠ '\\' := by rintro rfl; exact h rfl
    rw [if_neg fun hc => h hc.2, if_neg h, decode_plain hd]
    rfl

theorem decode_ne_nil {content : Text} (h : content ≠ []) : decode content ≠ [] := by
  fun_cases decode content <;> simp_all

end DoubleQuoted

end CommandWords
