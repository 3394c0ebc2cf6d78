import Glob.Proofs.Walk
import Glob.Search.Task

/-!
Properties of tasks that are those of their parts: the visits that wait, the entries that are left
and the locations on the way to them, and the reasons why tasks have stopped. The steps of tasks
keep such a property if listing a directory and going on into an entry do.
-/

namespace Glob

namespace Search

namespace Task

/-- What is asked of the parts that tasks are made of. -/
structure Parts where
  visit : Visit → Prop
  branch : List Location → Prop
  entry : List Location → Entry → Prop
  ending : Ending → Prop

inductive Meets (parts : Parts) : Task → Prop where
  | waiting {visit : Visit} (begun : parts.visit visit) : Meets parts (.waiting visit)
  | running {ancestors : List Location} {pending : List Entry} {children : List Task}
      (branch : parts.branch ancestors) (left : ∀ entry ∈ pending, parts.entry ancestors entry)
      (below : ∀ child ∈ children, Meets parts child) :
      Meets parts (.running ancestors pending children)
  | finished : Meets parts .finished
  | stopped {ending : Ending} {irregular : ending ≠ .finished} {orphans : List Task}
      (reason : parts.ending ending) (below : ∀ orphan ∈ orphans, Meets parts orphan) :
      Meets parts (.stopped ending irregular orphans)

/-- The parts that a step makes are as they should be if those are that it makes them of. -/
structure Parts.Kept (parts : Parts) (tree : FileTree) (settings : Settings) (matcher : Matcher) :
    Prop where
  listed : ∀ {visit location}, parts.visit visit → enter tree visit = .ok (some location) →
    parts.branch (location :: visit.ancestors) ∧
      ∀ entry ∈ list tree settings visit location, parts.entry (location :: visit.ancestors) entry
  failed : ∀ {visit error}, parts.visit visit → enter tree visit = .error error →
    parts.ending (.failed error)
  spawned : ∀ {ancestors entry}, parts.branch ancestors → parts.entry ancestors entry →
    descends matcher entry → parts.visit (entry.toVisit ancestors)
  brokenDown : parts.ending .brokenDown

variable {tree : FileTree} {settings : Settings} {matcher : Matcher} {parts : Parts}
  {ancestors : List Location} {entry : Entry} {task next : Task} {emitted : Trace}
  {children before after : List Task}

theorem forall_mem_middle {motive : Task → Prop} :
    (∀ child ∈ before ++ task :: after, motive child) ↔
      (∀ child ∈ before, motive child) ∧ motive task ∧ ∀ child ∈ after, motive child := by
  rw [List.forall_mem_append, List.forall_mem_cons]

theorem Meets.subtasks (meets : Meets parts task) : ∀ child ∈ task.subtasks, Meets parts child := by
  cases meets with
  | waiting | finished => exact fun _ member => nomatch member
  | running _ _ below => exact below
  | stopped _ below => exact below

theorem Meets.spawn (kept : parts.Kept tree settings matcher) (branch : parts.branch ancestors)
    (own : parts.entry ancestors entry) (below : ∀ child ∈ children, Meets parts child) :
    ∀ child ∈ spawn matcher ancestors entry children, Meets parts child := by
  intro child member
  unfold Task.spawn at member
  split at member
  · rename_i descends
    rcases List.mem_cons.mp member with new | old
    · rw [new]
      exact .waiting (kept.spawned branch own descends)
    · exact below child old
  · exact below child member

theorem Step.meets (kept : parts.Kept tree settings matcher)
    (step : Step tree settings matcher task emitted next) (meets : Meets parts task) :
    Meets parts next := by
  induction step with
  | list entered listed =>
      cases meets with
      | waiting begun =>
          obtain ⟨branch, entries⟩ := kept.listed begun entered
          exact .running branch (fun entry member => entries entry (listed.mem_iff.mp member)) nofun
  | cycle closed => exact .finished
  | fail failed =>
      cases meets with
      | waiting begun => exact .stopped (kept.failed begun failed) nofun
  | ask asked =>
      cases meets with
      | running branch left below =>
          obtain ⟨first, rest⟩ := List.forall_mem_cons.mp left
          exact .running branch rest (Meets.spawn kept branch first below)
  | breakDown asked => exact .stopped kept.brokenDown meets.subtasks
  | child before after step ih =>
      cases meets with
      | running branch left below =>
          obtain ⟨earlier, own, later⟩ := forall_mem_middle.mp below
          exact .running branch left (forall_mem_middle.mpr ⟨earlier, ih own, later⟩)
  | join before after =>
      cases meets with
      | running branch left below =>
          obtain ⟨earlier, _, later⟩ := forall_mem_middle.mp below
          exact .running branch left (List.forall_mem_append.mpr ⟨earlier, later⟩)
  | stop before orphans after =>
      obtain ⟨earlier, own, later⟩ := forall_mem_middle.mp meets.subtasks
      have left := List.forall_mem_append.mpr ⟨earlier, own.subtasks⟩
      cases own with
      | stopped reason _ => exact .stopped reason (List.forall_mem_append.mpr ⟨left, later⟩)
  | finish => exact .finished
  | orphan before after step ih =>
      cases meets with
      | stopped reason below =>
          obtain ⟨earlier, own, later⟩ := forall_mem_middle.mp below
          exact .stopped reason (forall_mem_middle.mpr ⟨earlier, ih own, later⟩)
  | giveUp before after task =>
      cases meets with
      | stopped reason below =>
          obtain ⟨earlier, own, later⟩ := forall_mem_middle.mp below
          have left := List.forall_mem_append.mpr ⟨earlier, own.subtasks⟩
          exact .stopped reason (List.forall_mem_append.mpr ⟨left, later⟩)

theorem Run.meets (kept : parts.Kept tree settings matcher)
    (run : Run tree settings matcher task emitted next) (meets : Meets parts task) :
    Meets parts next := by
  induction run with
  | refl task => exact meets
  | step first rest ih => exact ih (first.meets kept meets)

theorem Step.exists_branch (step : Step tree settings matcher task emitted next)
    (meets : Meets parts task) :
    ∀ entry ∈ emitted.offered,
      ∃ ancestors, parts.branch ancestors ∧ parts.entry ancestors entry := by
  induction step with
  | ask | breakDown =>
      cases meets with
      | running branch left below =>
          intro entry member
          rw [List.mem_singleton.mp member]
          exact ⟨_, branch, left _ List.mem_cons_self⟩
  | child before after step ih => exact ih (forall_mem_middle.mp meets.subtasks).2.1
  | orphan before after step ih => exact ih (forall_mem_middle.mp meets.subtasks).2.1
  | list | cycle | fail | join | stop | finish | giveUp => exact fun _ member => nomatch member

theorem Run.exists_branch (kept : parts.Kept tree settings matcher)
    (run : Run tree settings matcher task emitted next) (meets : Meets parts task) :
    ∀ entry ∈ emitted.offered,
      ∃ ancestors, parts.branch ancestors ∧ parts.entry ancestors entry := by
  induction run with
  | refl task => exact fun _ member => nomatch member
  | step first rest ih =>
      rw [Trace.append_offered, List.forall_mem_append]
      exact ⟨first.exists_branch meets, ih (first.meets kept meets)⟩

end Task

end Search

end Glob
