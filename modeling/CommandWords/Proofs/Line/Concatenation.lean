import CommandWords.Proofs.Line.Unmatched

/-!
# Lines put together at white space

Outside quotes a backslash comes before the next character exactly if the line ends in an odd number
of backslashes (`Automaton.parity_start`). So white space behind a line that splits finishes its last
word, unless a backslash keeps it, and a newline does so even then: either way the automaton stands
between two words (`Automaton.run_blank`).

`split_append_blank` says what comes of this: behind such a line and white space another line is
split as it is alone, and its unmatched quote is found that many bytes later.
-/

namespace CommandWords

namespace Automaton

/-- What the backslashes at the end of a line tell of the mode outside quotes. -/
def Parity (line : Text) : Mode → Prop
  | .plain => Even (trailingBackslashes line)
  | .afterBackslash => ¬ Even (trailingBackslashes line)
  | .inSingle _ | .inDouble _ | .inDoubleAfterBackslash _ => True

theorem even_trailingBackslashes_concat {line : Text} {c : Char} (hc : c ≠ '\\') :
    Even (trailingBackslashes (line ++ [c])) := by
  rw [trailingBackslashes_concat, if_neg hc]
  exact ⟨0, rfl⟩

/-- One character keeps what the backslashes tell. -/
theorem parity_read {line : Text} (c : Char) (h : Parity line (run start line).mode) :
    Parity (line ++ [c]) ((run start line).read c).mode := by
  rw [mode_read]
  cases hm : (run start line).mode with
  | plain =>
    rw [hm] at h
    dsimp only
    split_ifs with hblank hback
    · exact even_trailingBackslashes_concat (by rintro rfl; simp [isBlank] at hblank)
    · show ¬ Even (trailingBackslashes (line ++ [c]))
      rw [trailingBackslashes_concat, if_pos hback, Nat.even_add_one, not_not]
      exact h
    · trivial
    · trivial
    · exact even_trailingBackslashes_concat hback
  | afterBackslash =>
    rw [hm] at h
    show Even (trailingBackslashes (line ++ [c]))
    by_cases hback : c = '\\'
    · rw [trailingBackslashes_concat, if_pos hback]
      exact Nat.even_add_one.2 h
    · exact even_trailingBackslashes_concat hback
  | inSingle opened =>
    dsimp only
    split_ifs with hsingle
    · exact even_trailingBackslashes_concat (by rw [hsingle]; decide)
    · trivial
  | inDouble opened =>
    dsimp only
    split_ifs with hdouble
    · exact even_trailingBackslashes_concat (by rw [hdouble]; decide)
    · trivial
    · trivial
  | inDoubleAfterBackslash opened => trivial

theorem parity_start (line : Text) : Parity line (run start line).mode := by
  induction line using List.reverseRecOn with
  | nil => exact ⟨0, rfl⟩
  | append_singleton line c ih =>
    rw [run_append]
    exact parity_read c ih

/-- White space behind a line that splits leaves the automaton between two words. -/
theorem run_blank {a : Text} {w : Char} {words : List Text} (ha : split a = .ok words)
    (hw : isBlank w = true) (hback : w = '\n' ∨ Even (trailingBackslashes a)) :
    run start (a ++ [w]) = ⟨.plain, words, none, a.byteSize + w.utf8Size⟩ := by
  have hparity := parity_start a
  have hoffset : (run start a).offset = a.byteSize := (offset_run start a).trans (Nat.zero_add _)
  rw [← result_run_start] at ha
  rw [run_append, run_cons, run_nil]
  generalize run start a = before at ha hparity hoffset ⊢
  obtain ⟨mode, finished, current, offset⟩ := before
  obtain rfl : offset = a.byteSize := hoffset
  cases mode with
  | plain =>
    obtain rfl := Except.ok.inj ha
    cases current <;> simp [read, hw, finishWord]
  | afterBackslash =>
    obtain rfl : w = '\n' := hback.resolve_right hparity
    obtain rfl := Except.ok.inj ha
    simp [read, append, finishWord]
  | inSingle | inDouble | inDoubleAfterBackslash => cases ha

end Automaton

/-- Splitting distributes over white space that no backslash keeps. -/
theorem split_append_blank {a : Text} {w : Char} {words : List Text} (ha : split a = .ok words)
    (hw : isBlank w = true) (hback : w = '\n' ∨ Even (trailingBackslashes a)) (b : Text) :
    split (a ++ w :: b) =
      match split b with
      | .ok more => .ok (words ++ more)
      | .error e => .error ⟨e.quote, a.byteSize + w.utf8Size + e.offset⟩ := by
  have hline : a ++ w :: b = (a ++ [w]) ++ b := by rw [List.append_assoc]; rfl
  calc split (a ++ w :: b)
      = ((Automaton.start.run (a ++ [w])).run b).result := by
        rw [hline, ← Automaton.result_run_start, Automaton.run_append]
    _ = Automaton.behind words (a.byteSize + w.utf8Size) (split b) := by
        rw [Automaton.run_blank ha hw hback, Automaton.result_run]
    _ = _ := by cases split b <;> rfl

/-- A newline behind a backslash that nothing follows, and a quote that is never closed behind it. -/
theorem split_append_newline :
    split "a\\ b\\".toList = .ok ["a b\\".toList] ∧ isBlank '\n' = true ∧
      ('\n' = '\n' ∨ Even (trailingBackslashes "a\\ b\\".toList)) ∧
        split "\té \"c".toList = .error ⟨.double, 4⟩ ∧
          split "a\\ b\\\n\té \"c".toList = .error ⟨.double, 10⟩ := by
  have ha : split "a\\ b\\".toList = .ok ["a b\\".toList] := by
    rw [← Automaton.result_run_start]
    rfl
  have hb : split "\té \"c".toList = .error ⟨.double, 4⟩ := by
    rw [← Automaton.result_run_start]
    rfl
  have hab := split_append_blank ha (w := '\n') rfl (.inl rfl) "\té \"c".toList
  rw [hb] at hab
  exact ⟨ha, rfl, .inl rfl, hb, hab⟩

end CommandWords
