import Glob.Proofs.Faultless

/-!
How deeply the calls of the matcher are nested. A piece of fixed extent is taken off in a loop; what
is behind a wildcard or in a list is matched by a call. A call is always for fewer pieces, those in
lists counted as well, so the text has no say in how many calls are under way at a time.
-/

namespace Glob.Checked

def turns (subject : Subject) (call : List Piece → Nat → Nat → Bool → Checked Bool) :
    Nat → List Piece → Nat → Nat → Bool → Checked Bool
  | 0 => fun _ _ _ _ => .error .rounds
  | limit + 1 => turn subject call (turns subject call limit)

/-- The matcher with calls nested no deeper than `depth`, each of them a loop. -/
def nested (subject : Subject) : Nat → List Piece → Nat → Nat → Bool → Checked Bool
  | 0 => fun _ _ _ _ => .error .depth
  | depth + 1 => fun pieces =>
    turns subject (nested subject depth) (Piece.count pieces + 1) pieces

variable {subject : Subject} {call : List Piece → Nat → Nat → Bool → Checked Bool}
  {pieces : List Piece} {start stop : Nat} {leading : Bool}

theorem answersBelow_turns {depth limit : Nat} (called : AnswersBelow subject call depth)
    (few : limit ≤ depth + 1) : AnswersBelow subject (turns subject call limit) limit := by
  induction limit with
  | zero => exact answersBelow_zero
  | succ limit ih =>
      intro pieces start stop leading fewer inside within
      have below := Nat.le_of_lt_succ fewer
      have goesOn := (ih (Nat.le_of_succ_le few)).mono below
      have nests := called.mono (Nat.le_trans below (Nat.le_of_succ_le_succ few))
      exact (decides_turn within inside nests goesOn).eq_ok

theorem answersBelow_nested (subject : Subject) (depth : Nat) :
    AnswersBelow subject (nested subject depth) depth := by
  induction depth with
  | zero => exact answersBelow_zero
  | succ depth ih =>
      intro pieces start stop leading fewer
      exact answersBelow_turns ih fewer pieces start stop leading (Nat.lt_succ_self _)

theorem nested_outside {depth : Nat} (outside : ¬(start ≤ stop ∧ stop ≤ subject.text.size)) :
    nested subject (depth + 1) pieces start stop leading = .error (.window start stop) :=
  if_neg outside

/-- Calls are nested no more deeply than there are pieces, those in lists counted, whatever the text
is and however long: a depth of one more is never exhausted, and then does not matter to the
answer. -/
theorem nesting_bounded (subject : Subject) (pieces : List Piece) (start stop : Nat)
    (leading : Bool) :
    nested subject (Piece.count pieces + 1) pieces start stop leading ≠ .error .depth ∧
    nested subject (Piece.count pieces + 1) pieces start stop leading =
      if start ≤ stop ∧ stop ≤ subject.text.size then
        .ok (subject.accepts pieces start stop leading)
      else .error (.window start stop) := by
  by_cases window : start ≤ stop ∧ stop ≤ subject.text.size
  · have answer := answersBelow_nested subject (Piece.count pieces + 1) pieces start stop leading
      (Nat.lt_succ_self _) window.1 window.2
    rw [answer, if_pos window]
    exact ⟨nofun, rfl⟩
  · rw [nested_outside window, if_neg window]
    exact ⟨nofun, rfl⟩

end Glob.Checked
