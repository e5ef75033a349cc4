/-!
# Texts and byte offsets

A text is a list of characters. Positions in a text are counted in UTF-8 bytes, so that a
position is meaningful only at the end of a character. `splitBytes?` cuts a text at such a
position and `slice?` takes the part between two of them; both refuse a position inside a
character or past the end. `splitBytes?_eq_some_iff` says exactly when a cut is made.
-/

namespace CommandWords

/-- A text, as the list of its characters. -/
abbrev Text := List Char

namespace Text

/-- The length of a text in UTF-8 bytes. -/
def byteSize : Text → Nat
  | [] => 0
  | c :: cs => c.utf8Size + byteSize cs

@[simp] theorem byteSize_nil : byteSize [] = 0 := rfl

@[simp] theorem byteSize_cons (c : Char) (cs : Text) :
    byteSize (c :: cs) = c.utf8Size + byteSize cs := rfl

@[simp] theorem byteSize_append (a b : Text) : byteSize (a ++ b) = byteSize a + byteSize b := by
  induction a with
  | nil => simp
  | cons c cs ih => simp [ih, Nat.add_assoc]

theorem length_le_byteSize (s : Text) : s.length ≤ byteSize s := by
  induction s with
  | nil => simp
  | cons c cs ih =>
    have := c.utf8Size_pos
    simp only [List.length_cons, byteSize_cons]
    omega

/-- The first `n` bytes of a text, if they end a character. -/
def takeBytes? : Nat → Text → Option Text
  | 0, _ => some []
  | _ + 1, [] => none
  | n + 1, c :: cs =>
    if c.utf8Size ≤ n + 1 then (takeBytes? (n + 1 - c.utf8Size) cs).map (c :: ·) else none

/-- What follows the first `n` bytes of a text, if they end a character. -/
def dropBytes? : Nat → Text → Option Text
  | 0, s => some s
  | _ + 1, [] => none
  | n + 1, c :: cs => if c.utf8Size ≤ n + 1 then dropBytes? (n + 1 - c.utf8Size) cs else none

theorem takeBytes?_append (a b : Text) : takeBytes? (byteSize a) (a ++ b) = some a := by
  induction a with
  | nil => simp [takeBytes?]
  | cons c cs ih =>
    obtain ⟨k, hk⟩ := Nat.exists_eq_add_of_lt c.utf8Size_pos
    have hs : byteSize (c :: cs) = k + byteSize cs + 1 := by simp; omega
    have hr : k + byteSize cs + 1 - c.utf8Size = byteSize cs := by omega
    rw [hs, List.cons_append, takeBytes?, if_pos (by omega), hr, ih]
    rfl

theorem dropBytes?_append (a b : Text) : dropBytes? (byteSize a) (a ++ b) = some b := by
  induction a with
  | nil => simp [dropBytes?]
  | cons c cs ih =>
    obtain ⟨k, hk⟩ := Nat.exists_eq_add_of_lt c.utf8Size_pos
    have hs : byteSize (c :: cs) = k + byteSize cs + 1 := by simp; omega
    have hr : k + byteSize cs + 1 - c.utf8Size = byteSize cs := by omega
    rw [hs, List.cons_append, dropBytes?, if_pos (by omega), hr, ih]

theorem exists_of_dropBytes?_eq_some {n : Nat} {s b : Text} (h : dropBytes? n s = some b) :
    ∃ a, s = a ++ b ∧ byteSize a = n := by
  fun_induction dropBytes? n s with
  | case1 s => exact ⟨[], by simpa using h, rfl⟩
  | case2 n => simp at h
  | case3 n c cs hc ih =>
    obtain ⟨a, rfl, ha⟩ := ih h
    exact ⟨c :: a, rfl, by simp; omega⟩
  | case4 n c cs hc => simp at h

/-- A text cut after its first `n` bytes, if they end a character. -/
def splitBytes? (n : Nat) (s : Text) : Option (Text × Text) := do
  let head ← takeBytes? n s
  let tail ← dropBytes? n s
  return (head, tail)

theorem splitBytes?_append (a b : Text) : splitBytes? (byteSize a) (a ++ b) = some (a, b) := by
  simp [splitBytes?, takeBytes?_append, dropBytes?_append]

/-- A cut at byte `n` is made exactly where the text is a part of `n` bytes and the rest. -/
theorem splitBytes?_eq_some_iff {n : Nat} {s a b : Text} :
    splitBytes? n s = some (a, b) ↔ s = a ++ b ∧ byteSize a = n := by
  constructor
  · intro h
    simp only [splitBytes?, Option.bind_eq_bind, Option.bind_eq_some_iff] at h
    obtain ⟨a', ha, b', hb, h⟩ := h
    obtain ⟨p, rfl, rfl⟩ := exists_of_dropBytes?_eq_some hb
    rw [takeBytes?_append] at ha
    obtain ⟨rfl, rfl⟩ : a' = a ∧ b' = b := by simpa using h
    obtain rfl : p = a' := by simpa using ha
    exact ⟨rfl, rfl⟩
  · rintro ⟨rfl, rfl⟩
    exact splitBytes?_append a b

/-- The part of a text from byte `start` up to byte `stop`, if both end a character (or are 0)
and stand in this order. -/
def slice? (start stop : Nat) (s : Text) : Option Text :=
  if start ≤ stop then (dropBytes? start s).bind (takeBytes? (stop - start)) else none

theorem slice?_append (a b c : Text) :
    slice? (byteSize a) (byteSize a + byteSize b) (a ++ b ++ c) = some b := by
  simp [slice?, List.append_assoc, dropBytes?_append, takeBytes?_append]

/-- The three parts of a text around the range from byte `start` up to byte `stop`. -/
def cut? (start stop : Nat) (s : Text) : Option (Text × Text × Text) := do
  let (head, after) ← splitBytes? stop s
  let (before, range) ← splitBytes? start head
  return (before, range, after)

theorem cut?_eq_some_iff {start stop : Nat} {s before range after : Text} :
    cut? start stop s = some (before, range, after) ↔
      s = before ++ range ++ after ∧ byteSize before = start ∧
        byteSize before + byteSize range = stop := by
  constructor
  · intro h
    simp only [cut?, Option.bind_eq_bind, Option.bind_eq_some_iff] at h
    obtain ⟨⟨head, after'⟩, h₁, ⟨before', range'⟩, h₂, h⟩ := h
    obtain ⟨rfl, rfl⟩ := splitBytes?_eq_some_iff.1 h₁
    obtain ⟨rfl, rfl⟩ := splitBytes?_eq_some_iff.1 h₂
    obtain ⟨rfl, rfl, rfl⟩ : before' = before ∧ range' = range ∧ after' = after := by simpa using h
    simp
  · rintro ⟨rfl, rfl, rfl⟩
    have h := splitBytes?_append (before ++ range) after
    rw [byteSize_append] at h
    simp [cut?, h, splitBytes?_append, -List.append_assoc]

/-- What follows a range that does not end at the beginning is shorter than the whole. -/
theorem length_lt_of_cut? {start stop : Nat} {s before range after : Text} (hs : 0 < stop)
    (h : cut? start stop s = some (before, range, after)) : after.length < s.length := by
  obtain ⟨rfl, -, he⟩ := cut?_eq_some_iff.1 h
  rcases before with _ | ⟨c, cs⟩ <;> rcases range with _ | ⟨d, ds⟩ <;> simp at he ⊢ <;> omega

end Text

end CommandWords
