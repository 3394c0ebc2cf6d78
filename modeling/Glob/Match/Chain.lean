/-! Chains of occurrences: the search behind lists that repeat. -/

namespace Glob

/-- A window of the text that an alternative may occupy. -/
structure Occurrence (α : Type) where
  alternative : α
  start : Nat
  stop : Nat

namespace Occurrence

variable {α : Type}

/-- Whether the occurrence holds and ends at a position not reached before. -/
def isNew (holds : Occurrence α → Bool) (unseen : List Nat) (occurrence : Occurrence α) : Bool :=
  unseen.contains occurrence.stop && holds occurrence

theorem mem_unseen_of_dropWhile {holds : Occurrence α → Bool} {unseen : List Nat}
    {pending rest : List (Occurrence α)} {next : Occurrence α}
    (found : pending.dropWhile (fun o => !o.isNew holds unseen) = next :: rest) :
    next.stop ∈ unseen := by
  have new := List.head?_dropWhile_not (fun o => !o.isNew holds unseen) pending
  rw [found] at new
  simp only [List.head?_cons, isNew, Bool.not_eq_false', Bool.and_eq_true,
    List.contains_iff_mem] at new
  exact new.1

/-- Whether `goal` holds at a position that occurrences reach one after the other. A position is
explored once: `unseen` are those not reached yet, `pending` the occurrences still to be tried, and
`possible` those that begin at a position. -/
def reaches (possible : Nat → List (Occurrence α)) (holds : Occurrence α → Bool)
    (goal : Nat → Bool) (pending : List (Occurrence α)) (unseen : List Nat) : Bool :=
  match _found : pending.dropWhile (fun o => !o.isNew holds unseen) with
  | [] => false
  | next :: rest =>
    goal next.stop ||
      reaches possible holds goal (possible next.stop ++ rest) (unseen.erase next.stop)
termination_by unseen.length
decreasing_by
  have member := mem_unseen_of_dropWhile _found
  have shorter := List.length_erase_of_mem member
  have := List.length_pos_of_mem member
  omega

end Occurrence

end Glob
