import Mathlib.Data.List.Perm.Subperm
import Glob.Match
import Glob.Proofs.Checked
import Glob.Proofs.Quantifier

/-!
The loop of a repetition, checked: it finds what occurrences lead to from a position on, in no more
rounds than there are positions.
-/

namespace Glob.Checked

open Relation (ReflTransGen TransGen)

/-- The positions that a repetition has reached, and those of them from which it was not yet
continued. -/
structure Frontier where
  visited : List Nat
  pending : List Nat

namespace Frontier

def extend (fresh : List Nat) (frontier : Frontier) : Frontier where
  visited := fresh ++ frontier.visited
  pending := fresh ++ frontier.pending

end Frontier

section

variable {α : Type} (holds : Occurrence α → Checked Bool) (goal : Nat → Checked Bool)

def visit (here : Nat) : List (Occurrence α) → Frontier → Checked (Option Frontier)
  | [], frontier => return some frontier
  | occurrence :: rest, frontier => do
    let next := occurrence.stop
    if ← holds occurrence then
      if next == here || frontier.visited.contains next then visit here rest frontier
      else if ← goal next then return none
      else visit here rest (frontier.extend [next])
    else visit here rest frontier

/-- Whether the goal holds where occurrences lead from a pending position. -/
def explore (possible : Nat → Checked (List (Occurrence α))) : Nat → Frontier → Checked Bool
  | 0, _ => .error .rounds
  | _ + 1, ⟨_, []⟩ => return false
  | rounds + 1, ⟨visited, here :: pending⟩ => do
    match ← visit holds goal here (← possible here) ⟨visited, pending⟩ with
    | none => return true
    | some frontier => explore possible rounds frontier

end

section

variable {α : Type} {holds : Occurrence α → Checked Bool} {goal : Nat → Checked Bool}
  {judge : Occurrence α → Bool} {reached : Nat → Bool} {here : Nat}

/-- What is fresh after the occurrences from `here` were followed without reaching the goal. -/
structure Fresh (judge : Occurrence α → Bool) (reached : Nat → Bool) (here : Nat)
    (occurrences : List (Occurrence α)) (visited fresh : List Nat) : Prop where
  distinct : (fresh ++ visited).Nodup
  refuted : ∀ i ∈ fresh, reached i = false
  follows : ∀ i ∈ fresh, ∃ occurrence ∈ occurrences, judge occurrence = true ∧
    occurrence.stop = i ∧ i ≠ here
  complete : ∀ occurrence ∈ occurrences, judge occurrence = true → occurrence.stop ≠ here →
    occurrence.stop ∈ fresh ++ visited

namespace Fresh

variable {occurrence : Occurrence α} {occurrences : List (Occurrence α)} {visited fresh : List Nat}

theorem nil (distinct : visited.Nodup) : Fresh judge reached here [] visited [] where
  distinct := distinct
  refuted := by simp
  follows := by simp
  complete := by simp

theorem skip (later : Fresh judge reached here occurrences visited fresh)
    (old : judge occurrence = true → occurrence.stop ≠ here → occurrence.stop ∈ visited) :
    Fresh judge reached here (occurrence :: occurrences) visited fresh where
  distinct := later.distinct
  refuted := later.refuted
  follows i member := by
    obtain ⟨other, present, rest⟩ := later.follows i member
    exact ⟨other, List.mem_cons_of_mem occurrence present, rest⟩
  complete := by
    intro other present held apart
    rcases List.mem_cons.mp present with rfl | present
    · exact List.mem_append_right fresh (old held apart)
    · exact later.complete other present held apart

theorem add (later : Fresh judge reached here occurrences (occurrence.stop :: visited) fresh)
    (held : judge occurrence = true) (apart : occurrence.stop ≠ here)
    (refuted : reached occurrence.stop = false) :
    Fresh judge reached here (occurrence :: occurrences) visited (fresh ++ [occurrence.stop]) where
  distinct := by simpa using later.distinct
  refuted := by
    intro i member
    rcases List.mem_append.mp member with fresh | first
    · exact later.refuted i fresh
    · rw [List.mem_singleton.mp first]
      exact refuted
  follows := by
    intro i member
    rcases List.mem_append.mp member with fresh | first
    · obtain ⟨other, present, rest⟩ := later.follows i fresh
      exact ⟨other, List.mem_cons_of_mem occurrence present, rest⟩
    · rw [List.mem_singleton.mp first]
      exact ⟨occurrence, List.mem_cons_self, held, rfl, apart⟩
  complete := by
    intro other present held apart
    rw [List.append_assoc, List.singleton_append]
    rcases List.mem_cons.mp present with rfl | present
    · simp
    · exact later.complete other present held apart

end Fresh

inductive Visited (judge : Occurrence α → Bool) (reached : Nat → Bool) (here : Nat)
    (occurrences : List (Occurrence α)) (frontier : Frontier) : Checked (Option Frontier) → Prop
  | found (occurrence : Occurrence α) (present : occurrence ∈ occurrences)
      (held : judge occurrence = true) (apart : occurrence.stop ≠ here)
      (goal : reached occurrence.stop = true) :
      Visited judge reached here occurrences frontier (.ok none)
  | extended (fresh : List Nat)
      (added : Fresh judge reached here occurrences frontier.visited fresh) :
      Visited judge reached here occurrences frontier (.ok (some (frontier.extend fresh)))

namespace Visited

variable {occurrence : Occurrence α} {occurrences : List (Occurrence α)} {frontier : Frontier}
  {result : Checked (Option Frontier)}

theorem skip (later : Visited judge reached here occurrences frontier result)
    (old : judge occurrence = true → occurrence.stop ≠ here →
      occurrence.stop ∈ frontier.visited) :
    Visited judge reached here (occurrence :: occurrences) frontier result := by
  cases later with
  | found other present held apart goal =>
      exact .found other (List.mem_cons_of_mem occurrence present) held apart goal
  | extended fresh added => exact .extended fresh (added.skip old)

theorem add (later : Visited judge reached here occurrences
      (frontier.extend [occurrence.stop]) result)
    (held : judge occurrence = true) (apart : occurrence.stop ≠ here)
    (refuted : reached occurrence.stop = false) :
    Visited judge reached here (occurrence :: occurrences) frontier result := by
  cases later with
  | found other present held apart goal =>
      exact .found other (List.mem_cons_of_mem occurrence present) held apart goal
  | extended fresh added =>
      have joined : (frontier.extend [occurrence.stop]).extend fresh =
          frontier.extend (fresh ++ [occurrence.stop]) := by
        simp [Frontier.extend]
      rw [joined]
      exact .extended _ (added.add held apart refuted)

end Visited

theorem visited_visit {occurrences : List (Occurrence α)} {frontier : Frontier}
    (judged : ∀ occurrence ∈ occurrences, holds occurrence = .ok (judge occurrence))
    (known : ∀ occurrence ∈ occurrences, goal occurrence.stop = .ok (reached occurrence.stop))
    (distinct : frontier.visited.Nodup) :
    Visited judge reached here occurrences frontier
      (visit holds goal here occurrences frontier) := by
  induction occurrences generalizing frontier with
  | nil => exact .extended [] (.nil distinct)
  | cons occurrence rest ih =>
      have later (frontier : Frontier) (distinct : frontier.visited.Nodup) :=
        ih (fun other member => judged other (List.mem_cons_of_mem occurrence member))
          (fun other member => known other (List.mem_cons_of_mem occurrence member)) distinct
      rw [visit, judged occurrence List.mem_cons_self]
      cases held : judge occurrence with
      | false =>
          refine (later frontier distinct).skip fun holds => ?_
          rw [held] at holds
          cases holds
      | true =>
          -- Occurrences that are empty or lead to where the search has been are passed over.
          by_cases seen : occurrence.stop = here ∨ occurrence.stop ∈ frontier.visited
          · have same : (occurrence.stop == here || frontier.visited.contains occurrence.stop) =
                true := by
              simpa using seen
            simp only [ok_bind, if_true, same]
            exact (later frontier distinct).skip fun _ apart => seen.resolve_left apart
          · have new : (occurrence.stop == here || frontier.visited.contains occurrence.stop) =
                false := by
              simpa using seen
            have ⟨apart, unseen⟩ := not_or.mp seen
            simp only [ok_bind, if_true, new, Bool.false_eq_true, if_false,
              known occurrence List.mem_cons_self]
            cases reaches : reached occurrence.stop with
            | true => exact .found occurrence List.mem_cons_self held apart reaches
            | false =>
                have next := later (frontier.extend [occurrence.stop])
                  (List.nodup_cons.mpr ⟨unseen, distinct⟩)
                exact next.add held apart reaches

/-- What an unfinished repetition from `start` has found out. -/
structure Frontier.Sound (follows : Nat → Nat → Prop) (reached : Nat → Bool) (start : Nat)
    (frontier : Frontier) : Prop where
  distinct : frontier.visited.Nodup
  chained : ∀ i ∈ frontier.visited, TransGen follows start i
  refuted : ∀ i ∈ frontier.visited, reached i = false
  known : ∀ i ∈ frontier.pending, i = start ∨ i ∈ frontier.visited
  /-- What is not pending any more has been continued from. -/
  closed : ∀ i, i = start ∨ i ∈ frontier.visited → i ∉ frontier.pending →
    ∀ j, follows i j → j ∈ frontier.visited

section

variable {follows : Nat → Nat → Prop} {start stop : Nat} {visited pending : List Nat}

theorem le_of_follows (forward : ∀ i j, follows i j → i < j ∧ j ≤ stop) {last : Nat}
    (chain : TransGen follows start last) : start < last ∧ last ≤ stop := by
  induction chain with
  | single step => exact forward start _ step
  | tail _ step ih =>
      have further := forward _ _ step
      omega

namespace Frontier.Sound

theorem initial : Sound follows reached start ⟨[], [start]⟩ where
  distinct := List.nodup_nil
  chained := by simp
  refuted := by simp
  known := by simp
  closed := by simp

theorem chain_of_pending (sound : Sound follows reached start ⟨visited, pending⟩) {next : Nat}
    (waiting : here ∈ pending) (step : follows here next) : TransGen follows start next := by
  rcases sound.known here waiting with rfl | before
  · exact .single step
  · exact .tail (sound.chained here before) step

theorem mem_visited (sound : Sound follows reached start ⟨visited, []⟩) {last : Nat}
    (chain : TransGen follows start last) : last ∈ visited := by
  induction chain with
  | single step => exact sound.closed start (.inl rfl) List.not_mem_nil _ step
  | tail _ step ih => exact sound.closed _ (.inr ih) List.not_mem_nil _ step

theorem length_visited_le (sound : Sound follows reached start ⟨visited, pending⟩)
    (forward : ∀ i j, follows i j → i < j ∧ j ≤ stop) : visited.length ≤ stop - start := by
  have inside : visited ⊆ List.range' (start + 1) (stop - start) := by
    intro i member
    have bounds := le_of_follows forward (sound.chained i member)
    exact List.mem_range'_1.mpr (by omega)
  have fewer := (List.subperm_of_subset sound.distinct inside).length_le
  rwa [List.length_range'] at fewer

theorem extend {occurrences : List (Occurrence α)} {fresh : List Nat}
    (sound : Sound follows reached start ⟨visited, here :: pending⟩)
    (leads : ∀ j, follows here j ↔
      ∃ occurrence ∈ occurrences, judge occurrence = true ∧ occurrence.stop = j ∧ j ≠ here)
    (added : Fresh judge reached here occurrences visited fresh) :
    Sound follows reached start (Frontier.extend fresh ⟨visited, pending⟩) where
  distinct := added.distinct
  chained := by
    intro i member
    rcases List.mem_append.mp member with new | old
    · exact sound.chain_of_pending List.mem_cons_self ((leads i).mpr (added.follows i new))
    · exact sound.chained i old
  refuted := by
    intro i member
    rcases List.mem_append.mp member with new | old
    · exact added.refuted i new
    · exact sound.refuted i old
  known := by
    intro i member
    rcases List.mem_append.mp member with new | old
    · exact .inr (List.mem_append_left visited new)
    · exact (sound.known i (List.mem_cons_of_mem here old)).imp_right (List.mem_append_right fresh)
  closed := by
    intro i present left j step
    rw [Frontier.extend, List.mem_append, not_or] at left
    by_cases same : i = here
    · subst same
      obtain ⟨occurrence, possible, held, rfl, apart⟩ := (leads j).mp step
      exact added.complete occurrence possible held apart
    · have before : i = start ∨ i ∈ visited :=
        present.imp_right fun member => (List.mem_append.mp member).resolve_left left.1
      have gone : i ∉ here :: pending := List.not_mem_cons_of_ne_of_not_mem same left.2
      exact List.mem_append_right fresh (sound.closed i before gone j step)

theorem le_of_pending (sound : Sound follows reached start ⟨visited, pending⟩)
    (forward : ∀ i j, follows i j → i < j ∧ j ≤ stop) (inside : start ≤ stop)
    (waiting : here ∈ pending) : start ≤ here ∧ here ≤ stop := by
  rcases sound.known here waiting with rfl | before
  · exact ⟨Nat.le_refl here, inside⟩
  · have bounds := le_of_follows forward (sound.chained here before)
    exact ⟨Nat.le_of_lt bounds.1, bounds.2⟩

end Frontier.Sound

def Offers (holds : Occurrence α → Checked Bool) (goal : Nat → Checked Bool)
    (possible : Nat → Checked (List (Occurrence α))) (judge : Occurrence α → Bool)
    (reached : Nat → Bool) (follows : Nat → Nat → Prop) (here : Nat) : Prop :=
  ∃ occurrences, possible here = .ok occurrences ∧
    (∀ occurrence ∈ occurrences, holds occurrence = .ok (judge occurrence) ∧
      goal occurrence.stop = .ok (reached occurrence.stop)) ∧
    ∀ j, follows here j ↔
      ∃ occurrence ∈ occurrences, judge occurrence = true ∧ occurrence.stop = j ∧ j ≠ here

variable {possible : Nat → Checked (List (Occurrence α))}

theorem Frontier.Sound.continued
    (sound : Frontier.Sound follows reached start ⟨visited, here :: pending⟩)
    (offers : Offers holds goal possible judge reached follows here) :
    ∃ occurrences, possible here = .ok occurrences ∧
      (visit holds goal here occurrences ⟨visited, pending⟩ = .ok none ∧
          (∃ last, TransGen follows start last ∧ reached last = true) ∨
        ∃ fresh, visit holds goal here occurrences ⟨visited, pending⟩ =
            .ok (some (.extend fresh ⟨visited, pending⟩)) ∧
          Frontier.Sound follows reached start (.extend fresh ⟨visited, pending⟩)) := by
  obtain ⟨occurrences, offered, known, leads⟩ := offers
  have followed : Visited judge reached here occurrences ⟨visited, pending⟩ _ :=
    visited_visit (fun occurrence member => (known occurrence member).1)
      (fun occurrence member => (known occurrence member).2) sound.distinct
  refine ⟨occurrences, offered, ?_⟩
  generalize visit holds goal here occurrences ⟨visited, pending⟩ = result at followed ⊢
  cases followed with
  | found occurrence present held apart goal =>
      have step := (leads occurrence.stop).mpr ⟨occurrence, present, held, rfl, apart⟩
      have chain := sound.chain_of_pending List.mem_cons_self step
      exact .inl ⟨rfl, occurrence.stop, chain, goal⟩
  | extended fresh added => exact .inr ⟨fresh, rfl, sound.extend leads added⟩

theorem Frontier.Sound.not_reached (sound : Frontier.Sound follows reached start ⟨visited, []⟩) :
    ¬∃ last, TransGen follows start last ∧ reached last = true := by
  rintro ⟨last, chain, goal⟩
  rw [sound.refuted last (sound.mem_visited chain)] at goal
  cases goal

theorem decides_explore {rounds : Nat} {frontier : Frontier}
    (forward : ∀ i j, follows i j → i < j ∧ j ≤ stop)
    (offers : ∀ i, start ≤ i → i ≤ stop → Offers holds goal possible judge reached follows i)
    (inside : start ≤ stop) (sound : frontier.Sound follows reached start)
    (enough : frontier.pending.length + (stop - start) < rounds + frontier.visited.length) :
    Decides (explore holds goal possible rounds frontier)
      (∃ last, TransGen follows start last ∧ reached last = true) := by
  induction rounds generalizing frontier with
  | zero =>
      have fewer := sound.length_visited_le forward
      omega
  | succ rounds ih =>
      obtain ⟨visited, pending⟩ := frontier
      cases pending with
      | nil => exact ⟨false, rfl, iff_of_false Bool.false_ne_true sound.not_reached⟩
      | cons here pending =>
          have ⟨low, bound⟩ := sound.le_of_pending forward inside List.mem_cons_self
          obtain ⟨occurrences, offered, ⟨followed, found⟩ | ⟨fresh, followed, kept⟩⟩ :=
            sound.continued (offers here low bound)
          · rw [explore, offered, ok_bind, followed]
            exact ⟨true, rfl, iff_of_true rfl found⟩
          · rw [explore, offered, ok_bind, followed]
            apply ih kept
            simp only [Frontier.extend, List.length_append, List.length_cons] at enough ⊢
            omega

end

end

end Glob.Checked
