import Glob.Proofs.Exploration
import Glob.Proofs.Progress

/-!
Searches by tasks that run in any order, for a matcher that never breaks down. What has been asked
about and what is left to ask about stay the same taken together, so that the order of the steps
does not change what a search does.
-/

namespace Glob

namespace Search

variable {tree : FileTree} {settings : Settings} {matcher : Matcher} {base : Path}

namespace Task

variable {task next : Task} {emitted : Trace}

inductive Sound (tree : FileTree) : Task → Prop where
  | waiting {visit : Visit} (directory : tree.isDirectory visit.path.steps) :
      Sound tree (.waiting visit)
  | running {ancestors : List Location} {pending : List Entry} {children : List Task}
      (honest : ∀ entry ∈ pending, entry.isDirectory = tree.isDirectory entry.path.steps)
      (below : ∀ child ∈ children, Sound tree child) :
      Sound tree (.running ancestors pending children)
  | finished : Sound tree .finished

theorem Sound.unfailing (sound : Sound tree task) : Unfailing tree task := by
  induction sound with
  | waiting directory => exact .waiting directory
  | running honest below ih => exact .running trivial honest ih
  | finished => exact .finished

theorem Sound.not_broken (sound : Sound tree task) : ¬Broken task := by
  induction sound with
  | waiting | finished => exact nofun
  | running honest below ih => simpa using ih

theorem Unfailing.sound (unfailing : Unfailing tree task) (sound : ¬Broken task) :
    Sound tree task := by
  induction unfailing with
  | waiting directory => exact .waiting directory
  | running _ honest below ih =>
      exact .running honest fun child member => ih child member (sound <| .running member ·)
  | finished => exact .finished
  | stopped => exact absurd .stopped sound

theorem Run.future_eq (total : matcher.Total)
    (run : Run tree settings matcher task emitted next) (sound : Sound tree task) :
    Sound tree next ∧
      task.future tree settings matcher = emitted.offered + next.future tree settings matcher := by
  have unbroken : ¬Broken next := by
    rw [run.broken_iff sound.unfailing]
    rintro (broken | ⟨entry, _, breaks⟩)
    · exact sound.not_broken broken
    · exact total.not_breaksAt entry breaks
  obtain ⟨lost, same, kept⟩ := run.exists_lost sound.unfailing
  rw [kept unbroken, add_zero, total.calm_eq] at same
  have unfailing : Unfailing tree next := run.meets unfailing_kept sound.unfailing
  exact ⟨unfailing.sound unbroken, same⟩

theorem Run.offered_perm_calm (listable : tree.isDirectory base.steps)
    (run : Run tree settings matcher (.first base) emitted .finished) :
    emitted.offered.Perm (explore tree settings matcher.calm base).offered := by
  obtain ⟨lost, whole, spared⟩ := run.exists_lost (.waiting listable)
  rw [spared not_broken_finished, future, add_zero, add_zero] at whole
  exact (Multiset.coe_eq_coe.mp whole).symm

theorem Run.offered_perm (total : matcher.Total) (listable : tree.isDirectory base.steps)
    (run : Run tree settings matcher (.first base) emitted .finished) :
    emitted.offered.Perm (explore tree settings matcher base).offered := by
  have perm := run.offered_perm_calm listable
  rwa [total.calm_eq] at perm

theorem Sound.finished_or_step (sound : Sound tree task) :
    task = .finished ∨ ∃ emitted next, Step tree settings matcher task emitted next := by
  rcases isOver_or_step task with past | further
  · rcases sound.unfailing.eq_of_isOver past with ended | ⟨irregular, broken⟩
    · exact .inl ended
    · exact absurd (broken ▸ .stopped) sound.not_broken
  · exact .inr further

theorem Sound.exists_run_finished (total : matcher.Total) (sound : Sound tree task) :
    ∃ emitted, Run tree settings matcher task emitted .finished := by
  induction acc tree settings matcher task with
  | intro task _ ih =>
      have progress : task = .finished ∨
          ∃ emitted next, Step tree settings matcher task emitted next :=
        sound.finished_or_step
      rcases progress with ended | ⟨emitted, next, step⟩
      · rw [ended]
        exact ⟨{}, .refl _⟩
      · have once : Run tree settings matcher task (emitted.append {}) next :=
          .step step (.refl next)
        obtain ⟨later, rest⟩ := ih next ⟨emitted, step⟩ (once.future_eq total sound).1
        exact ⟨emitted.append later, .step step rest⟩

theorem Run.exact (total : matcher.Total) (listable : tree.isDirectory base.steps)
    (run : Run tree settings matcher (.first base) emitted .finished) :
    Exact tree settings matcher base emitted :=
  exact_of_perm total (run.offered_perm total listable) run.reported run.ending

end Task

/-- Whatever tasks run when, and in whatever order directories list what they hold, a search from a
directory asks about every admissible path once and about nothing else, reports what its matcher
wants, and comes to an end. -/
theorem visits_admissible_paths_once (listable : tree.isDirectory base.steps)
    (total : matcher.Total) :
    (explore tree settings matcher base).ending = .finished ∧
      Exact tree settings matcher base (explore tree settings matcher base) ∧
      (∀ emitted task, Task.Run tree settings matcher (.first base) emitted task →
        task = .finished ∧ Exact tree settings matcher base emitted ∨
          ∃ further next, Task.Step tree settings matcher task further next) ∧
      ¬∃ tasks : ℕ → Task, tasks 0 = .first base ∧
        ∀ i, ∃ emitted, Task.Step tree settings matcher (tasks i) emitted (tasks (i + 1)) := by
  have sound : Task.Sound tree (.first base) := .waiting listable
  refine ⟨explore_finished total listable, explore_exact total listable, ?_, ?_⟩
  · intro emitted task run
    obtain ⟨kept, whole⟩ := run.future_eq total sound
    rcases kept.finished_or_step with ended | further
    · left
      rw [ended, Task.future, add_zero] at whole
      exact ⟨ended, exact_of_perm total (Multiset.coe_eq_coe.mp whole).symm run.reported run.ending⟩
    · exact .inr further
  · exact fun endless => not_acc_iff_exists_descending_chain.mpr endless (Task.acc ..)

def linkedTree : FileTree where
  nodes := [(["d"], .directory), (["d", "up"], .link []), (["f"], .file 0)]
  distinct := by decide
  named := by decide

/-- The link is asked about, but not followed a second time. -/
theorem visits_admissible_paths_once_linked :
    linkedTree.isDirectory Path.root.steps ∧ Matcher.Total (selecting [] []) ∧
      Exact linkedTree {} (selecting [] []) .root (explore linkedTree {} (selecting [] []) .root) ∧
      (explore linkedTree {} (selecting [] []) .root).offered.map (·.offeredText) =
        ["d/", "f", "d/up/"] := by
  have listable : linkedTree.isDirectory Path.root.steps := by decide
  have total : Matcher.Total (selecting [] []) := fun _ _ => rfl
  exact ⟨listable, total, (visits_admissible_paths_once listable total).2.1, by decide +kernel⟩

end Search

end Glob
