import CommandWords.Text.Basic

/-!
# The run at the head of a text

A text of which all characters satisfy a predicate, before a text that does not go on with one, is
the run that `takeWhile` takes (`takeWhile_append_of_head`) and `dropWhile` leaves out
(`dropWhile_append_of_head`).
-/

namespace CommandWords.Text

variable {p : Char → Bool} {run rest : Text}

theorem takeWhile_append_of_head (hrun : ∀ c ∈ run, p c = true)
    (hrest : ∀ c ∈ rest.head?, p c = false) : (run ++ rest).takeWhile p = run := by
  rw [List.takeWhile_append_of_pos hrun]
  cases rest with
  | nil => simp
  | cons c rest => rw [List.takeWhile_cons_of_neg (by simp [hrest c rfl]), List.append_nil]

theorem dropWhile_append_of_head (hrun : ∀ c ∈ run, p c = true)
    (hrest : ∀ c ∈ rest.head?, p c = false) : (run ++ rest).dropWhile p = rest := by
  have h : (run ++ rest).takeWhile p ++ (run ++ rest).dropWhile p = run ++ rest :=
    List.takeWhile_append_dropWhile
  rw [takeWhile_append_of_head hrun hrest] at h
  exact List.append_cancel_left h

end CommandWords.Text
