import CommandWords.Proofs.Json.Numbers
import CommandWords.Text.Blank
import Mathlib.Data.List.TakeWhile

/-!
# Reading white space and scalars

White space is skipped as far as it goes (`exists_skipSpace`), and a value without brackets is read
up to where it ends: `written_of_readScalar`, `readScalar_append`. How a value starts tells which
reader it is for (`Written.exists_cons`).
-/

namespace CommandWords.Json

variable {s rest text spaces : Text} {c : Char} {depth : Nat} {value : Json}

/-! ## White space -/

theorem isBlank_of_isSpace (h : isSpace c = true) : isBlank c = true := by
  simp only [isSpace, Bool.or_eq_true, beq_iff_eq] at h
  rcases h with ((rfl | rfl) | rfl) | rfl <;> decide

theorem isSpace_of_isBlank_eq_false (h : isBlank c = false) : isSpace c = false := by
  rw [← Bool.not_eq_true] at h ⊢
  exact fun hs => h (isBlank_of_isSpace hs)

theorem IsSpaces.append {s t : Text} (hs : IsSpaces s) (ht : IsSpaces t) : IsSpaces (s ++ t) :=
  fun c hc => (List.mem_append.1 hc).elim (hs c) (ht c)

theorem isSpaces_nil : IsSpaces [] := fun _ hc => absurd hc List.not_mem_nil

theorem skipSpace_append (h : IsSpaces spaces) (s : Text) : skipSpace (spaces ++ s) = skipSpace s :=
  List.dropWhile_append_of_pos h

theorem skipSpace_cons (h : isSpace c = false) (s : Text) : skipSpace (c :: s) = c :: s :=
  List.dropWhile_cons_of_neg (by simp [h])

theorem exists_skipSpace (s : Text) : ∃ spaces, s = spaces ++ skipSpace s ∧ IsSpaces spaces :=
  ⟨s.takeWhile isSpace, List.takeWhile_append_dropWhile.symm,
    List.all_eq_true.1 List.all_takeWhile⟩

theorem skipSpace_eq_nil_iff : skipSpace s = [] ↔ IsSpaces s := List.dropWhile_eq_nil_iff

theorem EndsNumber.spaces_append (hr : EndsNumber rest) (h : IsSpaces spaces) :
    EndsNumber (spaces ++ rest) := by
  cases spaces with
  | nil => exact hr
  | cons d ds =>
    intro c hc
    obtain rfl : d = c := by simpa using hc
    have hd := h d List.mem_cons_self
    simp only [isSpace, Bool.or_eq_true, beq_iff_eq] at hd
    rcases hd with ((rfl | rfl) | rfl) | rfl <;> decide

/-! ## Scalars -/

/-- Whether a value is written without brackets. -/
def isScalar : Json → Bool
  | .array _ => false
  | .object _ => false
  | _ => true

theorem readWord_eq_ok_iff {word : Text} : readWord word s = .ok rest ↔ s = word ++ rest := by
  fun_induction readWord word s <;> simp_all [eq_comm]

theorem map_readWord_eq_ok_iff {word : Text} {read : Json} :
    (readWord word s).map (read, ·) = .ok (value, rest) ↔ read = value ∧ s = word ++ rest := by
  simp only [map_eq_ok_iff, readWord_eq_ok_iff, Prod.mk.injEq]
  constructor
  · rintro ⟨_, hs, hread, rfl⟩
    exact ⟨hread, hs⟩
  · rintro ⟨hread, hs⟩
    exact ⟨rest, hs, hread, rfl⟩

theorem written_of_readScalar (h : readScalar s = .ok (value, rest)) :
    ∃ text, s = text ++ rest ∧ Written depth text value := by
  cases s with
  | nil => cases h
  | cons c s =>
    rw [readScalar] at h
    split_ifs at h with hn ht hf hq hd
    · obtain ⟨rfl, rfl⟩ := map_readWord_eq_ok_iff.1 h
      exact ⟨"null".toList, by rw [hn]; rfl, by rw [Written]⟩
    · obtain ⟨rfl, rfl⟩ := map_readWord_eq_ok_iff.1 h
      exact ⟨"true".toList, by rw [ht]; rfl, by rw [Written]⟩
    · obtain ⟨rfl, rfl⟩ := map_readWord_eq_ok_iff.1 h
      exact ⟨"false".toList, by rw [hf]; rfl, by rw [Written]⟩
    · obtain ⟨⟨chars, rest⟩, hread, hv⟩ := map_eq_ok_iff.1 h
      obtain ⟨rfl, rfl⟩ := Prod.mk.inj hv
      obtain ⟨body, rfl, hbody⟩ := readChars_eq_ok_iff.1 hread
      exact ⟨'"' :: (body ++ ['"']), by simp [hq], by rw [Written]; exact ⟨body, rfl, hbody⟩⟩
    · obtain ⟨⟨number, rest⟩, hread, hv⟩ := map_eq_ok_iff.1 h
      obtain ⟨rfl, rfl⟩ := Prod.mk.inj hv
      obtain ⟨text, hs, hnumber⟩ := numberWritten_of_readNumber hread
      exact ⟨text, hs, by rwa [Written]⟩

theorem isScalar_of_readScalar (h : readScalar s = .ok (value, rest)) : isScalar value = true := by
  obtain ⟨text, -, htext⟩ : ∃ text, s = text ++ rest ∧ Written 0 text value :=
    written_of_readScalar h
  cases value with
  | array | object => rw [Written] at htext; cases htext
  | _ => rfl

theorem readScalar_number (hc : c = '-' ∨ c.isDigit = true) (s : Text) :
    readScalar (c :: s) =
      (readNumber (c :: s)).map fun (value, behind) => (.number value, behind) := by
  rw [readScalar, if_neg, if_neg, if_neg, if_neg, if_pos hc]
  all_goals
    rintro rfl
    revert hc
    decide

theorem readScalar_append (h : Written depth text value) (hv : isScalar value = true)
    (hr : EndsNumber rest) : readScalar (text ++ rest) = .ok (value, rest) := by
  cases value with
  | null =>
    rw [Written] at h
    rw [h]
    show (readWord "ull".toList ("ull".toList ++ rest)).map (Json.null, ·) = _
    exact map_readWord_eq_ok_iff.2 ⟨rfl, rfl⟩
  | bool value =>
    cases value with
    | true =>
      rw [Written] at h
      rw [h]
      show (readWord "rue".toList ("rue".toList ++ rest)).map (Json.bool true, ·) = _
      exact map_readWord_eq_ok_iff.2 ⟨rfl, rfl⟩
    | false =>
      rw [Written] at h
      rw [h]
      show (readWord "alse".toList ("alse".toList ++ rest)).map (Json.bool false, ·) = _
      exact map_readWord_eq_ok_iff.2 ⟨rfl, rfl⟩
  | number value =>
    rw [Written] at h
    have hread := readNumber_append h hr
    obtain ⟨c, cs, rfl, hc⟩ := h.exists_cons
    rw [List.cons_append, readScalar_number hc, ← List.cons_append, hread]
    rfl
  | string value =>
    rw [Written] at h
    obtain ⟨body, rfl, hbody⟩ := h
    have hread : readChars (body ++ '"' :: rest) = .ok (value, rest) :=
      readChars_eq_ok_iff.2 ⟨body, rfl, hbody⟩
    have htext : '"' :: (body ++ ['"']) ++ rest = '"' :: (body ++ '"' :: rest) := by simp
    rw [htext]
    show (readChars (body ++ '"' :: rest)).map _ = _
    rw [hread]
    rfl
  | array | object => cases hv

theorem isBlank_of_isDigit (h : c.isDigit = true) : isBlank c = false := by
  have hc := toNat_of_isDigit h
  simp only [isBlank, Bool.or_eq_false_iff, Bool.and_eq_false_iff, beq_eq_false_iff_ne,
    decide_eq_false_iff_not]
  omega

/-- How a value starts: not with white space, and with a bracket only if it is an array or an
object. -/
theorem Written.exists_cons (h : Written depth text value) :
    ∃ c cs, text = c :: cs ∧ isBlank c = false ∧ c ≠ ']' ∧
      (isScalar value = true → c ≠ '[' ∧ c ≠ '\x7b') := by
  cases value with
  | null =>
    rw [Written] at h
    exact ⟨'n', _, h, by decide⟩
  | bool value =>
    cases value with
    | true =>
      rw [Written] at h
      exact ⟨'t', _, h, by decide⟩
    | false =>
      rw [Written] at h
      exact ⟨'f', _, h, by decide⟩
  | number value =>
    rw [Written] at h
    obtain ⟨c, cs, hc, hdigit⟩ := h.exists_cons
    rcases hdigit with rfl | hdigit
    · exact ⟨'-', cs, hc, by decide, by decide, fun _ => by decide⟩
    · refine ⟨c, cs, hc, isBlank_of_isDigit hdigit, ?_, fun _ => ⟨?_, ?_⟩⟩
      all_goals
        rintro rfl
        cases hdigit
  | string value =>
    rw [Written] at h
    obtain ⟨body, hbody, -⟩ := h
    exact ⟨'"', _, hbody, by decide, by decide, fun _ => by decide⟩
  | array items =>
    cases depth with
    | zero => rw [Written] at h; cases h
    | succ depth =>
      rw [Written] at h
      obtain ⟨body, hbody, -⟩ := h
      exact ⟨'[', _, hbody, by decide, by decide, by simp [isScalar]⟩
  | object members =>
    cases depth with
    | zero => rw [Written] at h; cases h
    | succ depth =>
      rw [Written] at h
      obtain ⟨body, hbody, -⟩ := h
      exact ⟨'\x7b', _, hbody, by decide, by decide, by simp [isScalar]⟩

end CommandWords.Json
