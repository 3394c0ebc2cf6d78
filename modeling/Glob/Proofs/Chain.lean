import Mathlib.Data.List.TakeWhile
import Mathlib.Logic.Relation
import Glob.Match

/-!
The search along occurrences finds what a chain of them leads to. A position is taken out of
`unseen` once it is reached, so the proof cuts a chain at the last time it comes through it.
-/

namespace Glob

open Relation (ReflTransGen)

/-- A chain that comes through `cut` has an end that leaves it and never comes back. -/
theorem chain_avoids_or_leaves {α : Type} {step : α → α → Prop} {here last : α} (cut : α)
    (chain : ReflTransGen step here last) :
    (here ≠ cut ∧ ReflTransGen (fun i j => step i j ∧ j ≠ cut) here last) ∨
      last = cut ∨
      ∃ there, (step cut there ∧ there ≠ cut) ∧
        ReflTransGen (fun i j => step i j ∧ j ≠ cut) there last := by
  induction chain using ReflTransGen.head_induction_on with
  | refl =>
      by_cases same : last = cut
      · exact .inr (.inl same)
      · exact .inl ⟨same, .refl⟩
  | @head here there first _ ih =>
      rcases ih with ⟨apart, avoiding⟩ | ended | left
      · by_cases same : here = cut
        · subst same
          exact .inr (.inr ⟨there, ⟨first, apart⟩, avoiding⟩)
        · exact .inl ⟨same, .head ⟨first, apart⟩ avoiding⟩
      · exact .inr (.inl ended)
      · exact .inr (.inr left)

namespace Occurrence

variable {α : Type} {possible : Nat → List (Occurrence α)} {holds : Occurrence α → Bool}
  {goal : Nat → Bool} {pending rest : List (Occurrence α)} {unseen : List Nat}
  {next : Occurrence α}

def Leads (possible : Nat → List (Occurrence α)) (holds : Occurrence α → Bool)
    (allowed : List Nat) (here there : Nat) : Prop :=
  there ∈ allowed ∧ ∃ occurrence ∈ possible here, holds occurrence = true ∧
    occurrence.stop = there

theorem leads_erase_iff {here there : Nat} (cut : Nat) (distinct : unseen.Nodup) :
    Leads possible holds (unseen.erase cut) here there ↔
      Leads possible holds unseen here there ∧ there ≠ cut := by
  rw [Leads, Leads, distinct.mem_erase_iff, and_assoc, and_comm]

theorem leads_mono {allowed : List Nat} (included : ∀ i ∈ unseen, i ∈ allowed) {here there : Nat}
    (step : Leads possible holds unseen here there) : Leads possible holds allowed here there :=
  ⟨included there step.1, step.2⟩

theorem mem_pending_of_isNew (found : pending.dropWhile (fun o => !o.isNew holds unseen) =
      next :: rest) {occurrence : Occurrence α} (present : occurrence ∈ pending)
    (new : occurrence.isNew holds unseen = true) : occurrence ∈ next :: rest := by
  rw [← List.takeWhile_append_dropWhile (p := fun o => !o.isNew holds unseen) (l := pending),
    List.mem_append, found] at present
  rcases present with before | after
  · have old := List.mem_takeWhile_imp before
    rw [new] at old
    exact absurd old (by simp)
  · exact after

theorem isNew_iff {occurrence : Occurrence α} :
    occurrence.isNew holds unseen = true ↔ occurrence.stop ∈ unseen ∧ holds occurrence = true := by
  simp [isNew]

/-- The search succeeds if and only if some pending occurrence begins a chain to the goal. -/
theorem reaches_iff (distinct : unseen.Nodup) :
    reaches possible holds goal pending unseen = true ↔
      ∃ occurrence ∈ pending, occurrence.isNew holds unseen = true ∧
        ∃ last, ReflTransGen (Leads possible holds unseen) occurrence.stop last ∧
          goal last = true := by
  fun_induction reaches possible holds goal pending unseen with
  | case1 pending unseen exhausted =>
      simp only [Bool.false_eq_true, false_iff]
      intro ⟨occurrence, present, new, _⟩
      have old := List.dropWhile_eq_nil_iff.mp exhausted occurrence present
      rw [new] at old
      exact absurd old (by simp)
  | case2 pending unseen next rest found ih =>
      have member : next ∈ pending := by
        have suffix := List.dropWhile_suffix (l := pending) (fun o => !o.isNew holds unseen)
        rw [found] at suffix
        exact suffix.subset List.mem_cons_self
      have later : ∀ occurrence ∈ rest, occurrence ∈ pending := by
        intro occurrence present
        have suffix := List.dropWhile_suffix (l := pending) (fun o => !o.isNew holds unseen)
        rw [found] at suffix
        exact suffix.subset (List.mem_cons_of_mem next present)
      have new : next.isNew holds unseen = true := by
        have first := List.head?_dropWhile_not (fun o => !o.isNew holds unseen) pending
        rw [found] at first
        simpa using first
      have subset : ∀ i ∈ unseen.erase next.stop, i ∈ unseen :=
        fun i present => List.mem_of_mem_erase present
      rw [Bool.or_eq_true, ih (distinct.erase next.stop)]
      constructor
      · intro given
        rcases given with reached | ⟨occurrence, present, fresh, last, chain, reached⟩
        · exact ⟨next, member, new, next.stop, .refl, reached⟩
        · have chain := ReflTransGen.mono (fun _ _ => leads_mono subset) _ _ chain
          have fresh := isNew_iff.mp fresh
          rcases List.mem_append.mp present with following | waiting
          · have step : Leads possible holds unseen next.stop occurrence.stop :=
              ⟨subset _ fresh.1, occurrence, following, fresh.2, rfl⟩
            exact ⟨next, member, new, last, .head step chain, reached⟩
          · exact ⟨occurrence, later occurrence waiting,
              isNew_iff.mpr ⟨subset _ fresh.1, fresh.2⟩, last, chain, reached⟩
      · intro ⟨occurrence, present, fresh, last, chain, reached⟩
        -- What comes after the last visit to `next.stop` does without it, as the later search must.
        have cut := chain_avoids_or_leaves next.stop chain
        simp only [← leads_erase_iff next.stop distinct] at cut
        rcases cut with ⟨apart, avoiding⟩ | rfl | ⟨there, step, avoiding⟩
        · have waiting := mem_pending_of_isNew found present fresh
          rcases List.mem_cons.mp waiting with rfl | waiting
          · exact absurd rfl apart
          · have kept := (distinct.mem_erase_iff).mpr ⟨apart, (isNew_iff.mp fresh).1⟩
            exact .inr ⟨occurrence, List.mem_append_right _ waiting,
              isNew_iff.mpr ⟨kept, (isNew_iff.mp fresh).2⟩, last, avoiding, reached⟩
        · exact .inl reached
        · obtain ⟨kept, occurrence, following, held, rfl⟩ := step
          exact .inr ⟨occurrence, List.mem_append_left _ following,
            isNew_iff.mpr ⟨kept, held⟩, last, avoiding, reached⟩

end Occurrence

end Glob
