import CommandWords.Proofs.Json.Documents
import CommandWords.Proofs.Json.ListTruncation
import CommandWords.Proofs.Json.NumberTruncation

/-!
# Values that end too early

The reader of values stops at the end of a value that is cut (`readsCut_readValue`), by induction on
the number of brackets that may be open. Only a number can be left that is a value; an array or an
object is never read without its closing bracket.

A number of which the exponent is missing can be too large, so that the fault depends on the numerals
of the value. `WrittenWith` is the grammar of values with a condition on them.
-/

namespace CommandWords.Json

variable {p text : Text} {depth : Nat} {value : Json} {P Q : Numeral → Prop} {F : Fault → Prop}

/-! ## Values with a condition on their numerals -/

/-- A number with a numeral that meets `P`. -/
def NumberWrittenWith (P : Numeral → Prop) (text : Text) (value : Number) : Prop :=
  ∃ n, NumeralWritten text n ∧ n.number? = some value ∧ P n

/-- A value with at most `depth` arrays and objects open at once, the numerals of which meet `P`. -/
def WrittenWith (P : Numeral → Prop) (depth : Nat) (text : Text) (value : Json) : Prop :=
  match value, depth with
  | .number value, _ => NumberWrittenWith P text value
  | .array _, 0 => False
  | .array items, depth + 1 =>
    ∃ body, text = '[' :: (body ++ [']']) ∧ Listed (WrittenWith P depth) true body items
  | .object _, 0 => False
  | .object members, depth + 1 =>
    ∃ body, text = '\x7b' :: (body ++ ['\x7d']) ∧
      Listed (MemberWritten (WrittenWith P depth)) true body members
  | .null, depth => Written depth text .null
  | .bool value, depth => Written depth text (.bool value)
  | .string value, depth => Written depth text (.string value)

theorem Listed.mono {α : Type} {W W' : Text → α → Prop} {first : Bool} {xs : List α}
    (h : Listed W first text xs) (hW : ∀ {text x}, W text x → W' text x) :
    Listed W' first text xs := by
  induction h with
  | nil hs => exact .nil hs
  | cons hl hw _ ih => exact .cons hl (hW hw) ih

theorem MemberWritten.mono {W W' : Text → Json → Prop} {member : Text × Json}
    (h : MemberWritten W text member) (hW : ∀ {text value}, W text value → W' text value) :
    MemberWritten W' text member := by
  obtain ⟨key, behind, before, value, htext, hkey, hbehind, hbefore, hw⟩ := h
  exact ⟨key, behind, before, value, htext, hkey, hbehind, hbefore, hW hw⟩

theorem NumberWrittenWith.mono {value : Number} (h : NumberWrittenWith P text value)
    (hPQ : ∀ n, P n → Q n) : NumberWrittenWith Q text value := by
  obtain ⟨n, hn, hvalue, hP⟩ := h
  exact ⟨n, hn, hvalue, hPQ n hP⟩

theorem WrittenWith.mono (h : WrittenWith P depth text value) (hPQ : ∀ n, P n → Q n) :
    WrittenWith Q depth text value := by
  induction depth generalizing text value with
  | zero =>
    cases value with
    | array | object => rw [WrittenWith] at h; cases h
    | number value =>
      rw [WrittenWith] at h ⊢
      exact h.mono hPQ
    | null | bool | string => simpa only [WrittenWith] using h
  | succ depth ih =>
    cases value with
    | array items =>
      rw [WrittenWith] at h ⊢
      obtain ⟨body, htext, hbody⟩ := h
      exact ⟨body, htext, hbody.mono ih⟩
    | object members =>
      rw [WrittenWith] at h ⊢
      obtain ⟨body, htext, hbody⟩ := h
      exact ⟨body, htext, hbody.mono fun hm => hm.mono ih⟩
    | number value =>
      rw [WrittenWith] at h ⊢
      exact h.mono hPQ
    | null | bool | string => simpa only [WrittenWith] using h

/-- Without a condition on the numerals the grammar is that of values. -/
theorem writtenWith_true : WrittenWith (fun _ => True) = Written := by
  funext depth
  induction depth with
  | zero =>
    funext text value
    cases value <;> simp [WrittenWith, Written, NumberWrittenWith, NumberWritten]
  | succ depth ih =>
    funext text value
    cases value <;> simp [WrittenWith, Written, NumberWrittenWith, NumberWritten, ih]

theorem WrittenWith.written (h : WrittenWith P depth text value) : Written depth text value := by
  rw [← writtenWith_true]
  exact h.mono fun _ _ => trivial

/-! ## Values without brackets -/

/-- A word that is cut, read behind its first character. -/
theorem stops_map_readWord (hF : F .truncated) {word : Text} (hp : IsCut p word) (found : Json) :
    Stops F ((readWord word p).map (found, ·)) := by
  rw [readWord_of_isCut hp]
  exact .inl ⟨_, rfl, hF⟩

theorem stops_readNumber (hF : F .truncated)
    (hP : ∀ n, P n → 300 < n.whole.length → F .malformed) {value : Number}
    (h : NumberWrittenWith P text value) (hp : IsCut p text) : Stops F (readNumber p) := by
  obtain ⟨n, hn, hvalue, hPn⟩ := h
  rcases readNumber_cut hn (by simp [hvalue]) hp with hread | ⟨found, hread⟩ | ⟨hread, hlong⟩
  · exact .inl ⟨_, hread, hF⟩
  · exact .inr ⟨found, hread⟩
  · exact .inl ⟨_, hread, hP n hPn hlong⟩

theorem stops_readScalar (hF : F .truncated)
    (hP : ∀ n, P n → 300 < n.whole.length → F .malformed) (h : WrittenWith P depth text value)
    (hv : isScalar value = true) (hp : IsCut p text) : Stops F (readScalar p) := by
  cases p with
  | nil => exact .inl ⟨_, rfl, hF⟩
  | cons c p =>
  cases value with
  | null =>
    rw [WrittenWith, Written] at h
    subst h
    obtain ⟨rfl, hcut⟩ := isCut_cons_cons_iff.1 hp
    exact stops_map_readWord hF hcut _
  | bool value =>
    cases value with
    | true =>
      rw [WrittenWith, Written] at h
      subst h
      obtain ⟨rfl, hcut⟩ := isCut_cons_cons_iff.1 hp
      exact stops_map_readWord hF hcut _
    | false =>
      rw [WrittenWith, Written] at h
      subst h
      obtain ⟨rfl, hcut⟩ := isCut_cons_cons_iff.1 hp
      exact stops_map_readWord hF hcut _
  | number value =>
    rw [WrittenWith] at h
    obtain ⟨d, ds, htext, hd⟩ : ∃ d ds, text = d :: ds ∧ (d = '-' ∨ d.isDigit = true) := by
      obtain ⟨n, hn, hvalue, -⟩ := h
      exact NumberWritten.exists_cons ⟨n, hn, hvalue⟩
    obtain rfl : d = c := by simpa [htext] using hp.mem_head? rfl
    rw [readScalar_number hd]
    exact (stops_readNumber hF hP h hp).map _
  | string value =>
    rw [WrittenWith, Written] at h
    obtain ⟨body, rfl, hbody⟩ := h
    obtain ⟨rfl, hcut⟩ := isCut_cons_cons_iff.1 hp
    refine .inl ⟨.truncated, ?_, hF⟩
    show (readChars p).map _ = _
    rw [readChars_of_isCut hbody hcut]
    rfl
  | array | object => cases hv

/-! ## Values -/

/-- A reader of values stops at the end of a cut value if the readers with fewer brackets do. -/
theorem readsCut_readValue_of_lt (hF : F .truncated)
    (hP : ∀ n, P n → 300 < n.whole.length → F .malformed)
    (ih : ∀ d, depth = d + 1 → ReadsCut F (readValue d) (WrittenWith P d)) :
    ReadsCut F (readValue depth) (WrittenWith P depth) where
  complete hs hw hr := (reads_readValue depth).complete hs hw.written hr
  head hw := (reads_readValue depth).head hw.written
  stops {spaces text value p} hs hw hp := by
    rcases prefix_or_of_isCut_append hp with hstart | ⟨c, cs, rfl, hcut⟩
    · exact .inl ⟨_, readValue_nil (skipSpace_of_isPrefix hs hstart), hF⟩
    obtain ⟨d, ds, htext, hblank, -, hscalar⟩ := hw.written.exists_cons
    obtain rfl : d = c := by simpa [htext] using hcut.mem_head? rfl
    have hskip : skipSpace (spaces ++ d :: cs) = d :: cs := by
      rw [skipSpace_append hs, skipSpace_cons (isSpace_of_isBlank_eq_false hblank)]
    by_cases hv : isScalar value = true
    · obtain ⟨harray, hobject⟩ := hscalar hv
      rw [readValue_eq_readScalar hskip harray hobject]
      exact stops_readScalar hF hP hw hv hcut
    · left
      cases value with
      | array items =>
        cases depth with
        | zero => rw [WrittenWith] at hw; cases hw
        | succ depth =>
          rw [WrittenWith] at hw
          obtain ⟨body, rfl, hbody⟩ := hw
          obtain ⟨rfl, rfl⟩ := List.cons.inj htext
          have hinside := (isCut_cons_cons_iff.1 hcut).2
          obtain ⟨e, hitems, he⟩ := readItems_of_isCut hF (ih depth rfl) hbody hinside
          refine ⟨e, ?_, he⟩
          rw [readValue_array hskip, hitems]
          rfl
      | object members =>
        cases depth with
        | zero => rw [WrittenWith] at hw; cases hw
        | succ depth =>
          rw [WrittenWith] at hw
          obtain ⟨body, rfl, hbody⟩ := hw
          obtain ⟨rfl, rfl⟩ := List.cons.inj htext
          have hinside := (isCut_cons_cons_iff.1 hcut).2
          obtain ⟨e, hmembers, he⟩ := readMembers_of_isCut hF (ih depth rfl) hbody hinside
          refine ⟨e, ?_, he⟩
          rw [readValue_object hskip, hmembers]
          rfl
      | null | bool | number | string => exact absurd rfl hv

/-- The reader of values stops at the end of a value that is cut. -/
theorem readsCut_readValue (hF : F .truncated)
    (hP : ∀ n, P n → 300 < n.whole.length → F .malformed) (depth : Nat) :
    ReadsCut F (readValue depth) (WrittenWith P depth) := by
  induction depth with
  | zero => exact readsCut_readValue_of_lt hF hP fun _ h => nomatch h
  | succ d ih => exact readsCut_readValue_of_lt hF hP fun k h => Nat.succ.inj h ▸ ih

end CommandWords.Json
