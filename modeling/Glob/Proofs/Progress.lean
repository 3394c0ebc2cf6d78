import Mathlib.Algebra.BigOperators.Group.Multiset.Basic
import Mathlib.Order.WellFounded
import Mathlib.Tactic.Abel
import Glob.Proofs.Parts
import Glob.Search.Session

/-!
What the steps of tasks preserve, whatever the matcher does. Next to a matcher that may break down
stands one that prunes in its place: a search asks about nothing but what the walk with that one
asks about, and it asks about all of that unless it breaks down.
-/

namespace Glob

namespace Search

variable {tree : FileTree} {settings : Settings} {matcher : Matcher} {base : Path}
  {ancestors : List Location} {entry : Entry} {entries : List Entry}

namespace Matcher

/-- The matcher that prunes where another one breaks down. -/
def calm (matcher : Matcher) : Matcher := fun path text =>
  some ((matcher path text).getD .prune)

def BreaksAt (matcher : Matcher) (entry : Entry) : Prop :=
  matcher entry.path entry.offeredText = none

theorem calm_total : matcher.calm.Total :=
  fun _ _ => rfl

theorem Total.calm_eq (total : matcher.Total) : matcher.calm = matcher := by
  funext path text
  obtain ⟨verdict, asked⟩ := Option.isSome_iff_exists.mp (total path text)
  simp [calm, asked]

theorem Total.not_breaksAt (total : matcher.Total) (entry : Entry) : ¬matcher.BreaksAt entry := by
  obtain ⟨verdict, asked⟩ := total.exists_verdict entry
  simp [BreaksAt, asked]

end Matcher

@[simp]
theorem descends_calm : descends matcher.calm entry = descends matcher entry := by
  unfold descends Matcher.calm
  cases matcher entry.path entry.offeredText <;> simp [Verdict.prune]

@[simp]
theorem isReported_calm : isReported matcher.calm entry = isReported matcher entry := by
  unfold isReported Matcher.calm
  cases matcher entry.path entry.offeredText <;> simp [Verdict.prune]

theorem enter_ne_error {visit : Visit} {error : Error}
    (directory : tree.isDirectory visit.path.steps) : enter tree visit ≠ .error error := by
  obtain ⟨location?, entered⟩ := exists_enter directory
  simp [entered]

theorem walkBelow_cons : walkBelow tree settings matcher ancestors (entry :: entries) =
    if descends matcher entry then
      walk tree settings matcher (entry.toVisit ancestors) ::
        walkBelow tree settings matcher ancestors entries
    else walkBelow tree settings matcher ancestors entries := by
  unfold walkBelow
  rw [List.filter_cons]
  split <;> rfl

namespace Task

variable {task next child : Task} {emitted : Trace} {pending : List Entry}
  {children before after : List Task}

mutual

/-- All that a task and those below it have still to ask about. -/
def future (tree : FileTree) (settings : Settings) (matcher : Matcher) : Task → Multiset Entry
  | waiting visit => (walk tree settings matcher visit).offered
  | running ancestors pending children =>
    pending + ↑((walkBelow tree settings matcher ancestors pending).flatMap (·.offered)) +
      futures tree settings matcher children
  | finished => 0
  | stopped _ _ orphans => futures tree settings matcher orphans

def futures (tree : FileTree) (settings : Settings) (matcher : Matcher) :
    List Task → Multiset Entry
  | [] => 0
  | task :: rest => task.future tree settings matcher + futures tree settings matcher rest

end

theorem futures_append : futures tree settings matcher (before ++ after) =
    futures tree settings matcher before + futures tree settings matcher after := by
  induction before with
  | nil => simp [futures]
  | cons task rest ih => simp [futures, ih, add_assoc]

theorem futures_subtasks_le (task : Task) :
    futures tree settings matcher task.subtasks ≤ task.future tree settings matcher := by
  cases task with
  | waiting | finished => exact Multiset.zero_le _
  | running ancestors pending children =>
      rw [future]
      exact Multiset.le_add_left _ _
  | stopped ending irregular orphans =>
      rw [future]
      exact le_rfl

theorem futures_spawn :
    futures tree settings matcher.calm (spawn matcher ancestors entry children) =
    (if descends matcher entry then
      ((walk tree settings matcher.calm (entry.toVisit ancestors)).offered : Multiset Entry)
      else 0) + futures tree settings matcher.calm children := by
  unfold spawn
  split
  · rfl
  · rw [zero_add]

/-- A task that has come to a bad end, or will when its turn comes. -/
inductive Broken : Task → Prop where
  | stopped {ending : Ending} {irregular : ending ≠ .finished} {orphans : List Task} :
      Broken (.stopped ending irregular orphans)
  | running {ancestors : List Location} {pending : List Entry} {children : List Task}
      {child : Task} (member : child ∈ children) (broken : Broken child) :
      Broken (.running ancestors pending children)

@[simp]
theorem not_broken_waiting {visit : Visit} : ¬Broken (.waiting visit) :=
  nofun

@[simp]
theorem not_broken_finished : ¬Broken .finished :=
  nofun

@[simp]
theorem broken_stopped {ending : Ending} {irregular : ending ≠ .finished} {orphans : List Task} :
    Broken (.stopped ending irregular orphans) :=
  .stopped

@[simp]
theorem broken_running_iff : Broken (.running ancestors pending children) ↔
    ∃ child ∈ children, Broken child := by
  constructor
  · intro broken
    cases broken with
    | running member broken => exact ⟨_, member, broken⟩
  · rintro ⟨child, member, broken⟩
    exact .running member broken

theorem exists_broken_spawn_iff :
    (∃ child ∈ spawn matcher ancestors entry children, Broken child) ↔
      ∃ child ∈ children, Broken child := by
  unfold spawn
  split <;> simp

theorem exists_mem_middle {motive : Task → Prop} :
    (∃ child ∈ before ++ task :: after, motive child) ↔
      (∃ child ∈ before, motive child) ∨ motive task ∨ ∃ child ∈ after, motive child := by
  simp [or_and_right, exists_or]

def Parts.unfailing (tree : FileTree) : Parts where
  visit visit := tree.isDirectory visit.path.steps
  branch _ := True
  entry _ entry := entry.isDirectory = tree.isDirectory entry.path.steps
  ending ending := ending = .brokenDown

abbrev Unfailing (tree : FileTree) : Task → Prop :=
  Meets (.unfailing tree)

theorem unfailing_kept : (Parts.unfailing tree).Kept tree settings matcher where
  listed _ _ := by
    refine ⟨trivial, ?_⟩
    intro entry member
    obtain ⟨name, _, _, rfl⟩ := mem_list_iff.mp member
    rfl
  failed directory failed := absurd failed (enter_ne_error directory)
  spawned _ honest descends := Eq.trans (Eq.symm honest) (descends_iff.mp descends).1
  brokenDown := rfl

theorem Step.broken_iff (step : Step tree settings matcher task emitted next)
    (unfailing : Unfailing tree task) :
    Broken next ↔ Broken task ∨ ∃ entry ∈ emitted.offered, matcher.BreaksAt entry := by
  induction step with
  | list entered listed => simp
  | cycle closed => simp
  | fail failed =>
      cases unfailing with
      | waiting directory => exact absurd failed (enter_ne_error directory)
  | ask asked => simp [exists_broken_spawn_iff, Matcher.BreaksAt, asked]
  | breakDown asked => simp [Matcher.BreaksAt, asked]
  | child before after step ih =>
      have own := ih (forall_mem_middle.mp unfailing.subtasks).2.1
      rw [broken_running_iff, broken_running_iff, exists_mem_middle, exists_mem_middle, own]
      simp only [or_assoc, or_left_comm, or_comm]
  | join before after => simp [or_and_right, exists_or]
  | stop before orphans after =>
      rw [broken_running_iff, exists_mem_middle]
      simp
  | finish => simp
  | orphan before after step ih => simp
  | giveUp before after task => simp

/-- What a step asks about or gives up is no longer left to ask about, and nothing is given up
before a task has come to a bad end. -/
theorem Step.exists_lost (step : Step tree settings matcher task emitted next) :
    ∃ lost, task.future tree settings matcher.calm =
      emitted.offered + next.future tree settings matcher.calm + lost ∧
        (¬Broken next → lost = 0) := by
  induction step with
  | @list visit location entries entered listed =>
      -- The entries may come in another order than in the walk, with the same walks below them.
      have below : ((walkBelow tree settings matcher.calm (location :: visit.ancestors)
          entries).flatMap (·.offered)).Perm ((walkBelow tree settings matcher.calm
            (location :: visit.ancestors) (Search.list tree settings visit location)).flatMap
              (·.offered)) :=
        ((listed.filter _).map _).flatMap_right _
      refine ⟨0, ?_, fun _ => rfl⟩
      simp only [future, futures, walk_eq_append Matcher.calm_total entered, Trace.append_offered,
        Trace.join_offered, ask_offered Matcher.calm_total, Multiset.coe_nil, zero_add, add_zero,
        Multiset.coe_add]
      exact Multiset.coe_eq_coe.mpr (listed.append below).symm
  | cycle closed =>
      refine ⟨0, ?_, fun _ => rfl⟩
      simp only [future, walk_of_cycle closed, Multiset.coe_nil, zero_add]
  | fail failed =>
      refine ⟨0, ?_, fun _ => rfl⟩
      simp only [future, futures, walk_of_error failed, Multiset.coe_nil, zero_add]
  | @ask _ entry pending _ _ asked =>
      refine ⟨0, ?_, fun _ => rfl⟩
      simp only [future, futures_spawn, walkBelow_cons, descends_calm]
      split
      · simp only [List.flatMap_cons, ← Multiset.coe_add, ← Multiset.singleton_add,
          ← Multiset.cons_coe, Multiset.coe_nil, add_zero]
        abel
      · simp only [← Multiset.cons_coe, ← Multiset.singleton_add, Multiset.coe_nil, add_zero]
        abel
  | @breakDown ancestors entry pending _ asked =>
      refine ⟨pending + ↑((walkBelow tree settings matcher.calm ancestors
        (entry :: pending)).flatMap (·.offered)), ?_, fun sound => absurd .stopped sound⟩
      simp only [future, ← Multiset.cons_coe, ← Multiset.singleton_add, Multiset.coe_nil]
      abel
  | child before after step ih =>
      obtain ⟨lost, same, kept⟩ := ih
      refine ⟨lost, ?_, fun sound => kept fun broken => sound (.running (by simp) broken)⟩
      simp only [future, futures_append, futures, same]
      abel
  | join before after =>
      refine ⟨0, ?_, fun _ => rfl⟩
      simp only [future, futures_append, futures, Multiset.coe_nil, zero_add, add_zero]
  | stop before orphans after =>
      refine ⟨0, ?_, fun _ => rfl⟩
      simp only [future, futures_append, futures, walkBelow, Multiset.coe_nil, zero_add, add_zero,
        List.filter_nil, List.map_nil, List.flatMap_nil, add_assoc]
  | finish =>
      refine ⟨0, ?_, fun _ => rfl⟩
      simp only [future, futures, walkBelow]
      rfl
  | orphan before after step ih =>
      obtain ⟨lost, same, _⟩ := ih
      refine ⟨lost, ?_, fun sound => absurd .stopped sound⟩
      simp only [future, futures_append, futures, same]
      abel
  | giveUp before after task =>
      have fewer : futures tree settings matcher.calm task.subtasks ≤
          task.future tree settings matcher.calm := futures_subtasks_le task
      obtain ⟨lost, same⟩ := Multiset.le_iff_exists_add.mp fewer
      refine ⟨lost, ?_, fun sound => absurd .stopped sound⟩
      simp only [future, futures_append, futures, same, Multiset.coe_nil]
      abel

theorem Step.reported (step : Step tree settings matcher task emitted next) :
    emitted.reported = emitted.offered.filter (isReported matcher) := by
  induction step with
  | @ask _ entry _ _ verdict asked =>
      have same : isReported matcher entry = verdict.reports := by simp [isReported, asked]
      rw [List.filter_singleton, same, Bool.cond_eq_ite]
  | @breakDown _ entry _ _ asked =>
      have unwanted : isReported matcher entry = false := by simp [isReported, asked]
      rw [List.filter_singleton, unwanted]
      rfl
  | child before after step ih => exact ih
  | orphan before after step ih => exact ih
  | list | cycle | fail | join | stop | finish | giveUp => rfl

theorem Step.ending (step : Step tree settings matcher task emitted next) :
    emitted.ending = .finished := by
  induction step with
  | child before after step ih => exact ih
  | orphan before after step ih => exact ih
  | list | cycle | fail | ask | breakDown | join | stop | finish | giveUp => rfl

theorem Run.broken_iff (run : Run tree settings matcher task emitted next)
    (unfailing : Unfailing tree task) :
    Broken next ↔ Broken task ∨ ∃ entry ∈ emitted.offered, matcher.BreaksAt entry := by
  induction run with
  | refl task => simp
  | step first rest ih =>
      rw [ih (first.meets unfailing_kept unfailing), first.broken_iff unfailing]
      simp only [Trace.append_offered, List.mem_append, or_and_right, exists_or, or_assoc]

theorem Run.exists_lost (run : Run tree settings matcher task emitted next)
    (unfailing : Unfailing tree task) :
    ∃ lost, task.future tree settings matcher.calm =
      emitted.offered + next.future tree settings matcher.calm + lost ∧
        (¬Broken next → lost = 0) := by
  induction run with
  | refl task => exact ⟨0, by simp, fun _ => rfl⟩
  | @step task next final emitted later first rest ih =>
      obtain ⟨lost, same, kept⟩ := first.exists_lost
      obtain ⟨more, onward, spared⟩ := ih (first.meets unfailing_kept unfailing)
      refine ⟨lost + more, ?_, ?_⟩
      · rw [same, onward, Trace.append_offered, ← Multiset.coe_add]
        abel
      · intro sound
        have before : ¬Broken next := fun broken =>
          sound ((rest.broken_iff (first.meets unfailing_kept unfailing)).mpr (.inl broken))
        rw [kept before, spared sound, add_zero]

theorem Run.reported (run : Run tree settings matcher task emitted next) :
    emitted.reported = emitted.offered.filter (isReported matcher) := by
  induction run with
  | refl task => rfl
  | step first rest ih =>
      rw [Trace.append_reported, Trace.append_offered, first.reported, ih, List.filter_append]

theorem Run.ending (run : Run tree settings matcher task emitted next) :
    emitted.ending = .finished := by
  induction run with
  | refl task => rfl
  | step first rest ih => exact (Trace.append_finished _ _).mpr ⟨first.ending, ih⟩

theorem isOver_or_step (task : Task) :
    task.isOver ∨ ∃ emitted next, Step tree settings matcher task emitted next := by
  match task with
  | .waiting visit =>
      right
      cases entered : enter tree visit with
      | error error => exact ⟨_, _, .fail entered⟩
      | ok location? =>
          cases location? with
          | none => exact ⟨_, _, .cycle entered⟩
          | some location => exact ⟨_, _, .list entered (.refl _)⟩
  | .running ancestors (entry :: pending) children =>
      right
      cases asked : matcher entry.path entry.offeredText with
      | none => exact ⟨_, _, .breakDown asked⟩
      | some verdict => exact ⟨_, _, .ask asked⟩
  | .running ancestors [] [] => exact .inr ⟨_, _, .finish⟩
  | .running ancestors [] (child :: rest) =>
      right
      rcases isOver_or_step child with past | ⟨emitted, next, step⟩
      · match child with
        | .finished => exact ⟨_, _, .join [] rest⟩
        | .stopped ending irregular [] => exact ⟨_, _, .stop [] [] rest⟩
      · exact ⟨_, _, .child [] rest step⟩
  | .finished => exact .inl rfl
  | .stopped ending irregular [] => exact .inl rfl
  | .stopped ending irregular (orphan :: rest) => exact .inr ⟨_, _, .giveUp [] rest orphan⟩

theorem Unfailing.eq_of_isOver (unfailing : Unfailing tree task) (past : task.isOver) :
    task = .finished ∨ ∃ irregular, task = .stopped .brokenDown irregular [] := by
  cases unfailing with
  | waiting | running => cases past
  | finished => exact .inl rfl
  | @stopped ending irregular orphans reason _ =>
      cases reason
      cases orphans with
      | nil => exact .inr ⟨irregular, rfl⟩
      | cons orphan rest => cases past

mutual

/-- More than the steps left to a task and those below it in which nothing is asked. -/
def size : Task → Nat
  | waiting _ => 3
  | running _ _ children => 2 + sizes children
  | finished => 1
  | stopped _ _ orphans => 1 + sizes orphans

def sizes : List Task → Nat
  | [] => 0
  | task :: rest => task.size + sizes rest

end

theorem sizes_append : sizes (before ++ after) = sizes before + sizes after := by
  induction before with
  | nil => simp [sizes]
  | cons task rest ih => simp [sizes, ih, Nat.add_assoc]

theorem sizes_subtasks_lt (task : Task) : sizes task.subtasks < task.size := by
  cases task <;> simp [subtasks, sizes, size]

theorem Step.size_lt (step : Step tree settings matcher task emitted next)
    (silent : emitted.offered = []) : next.size < task.size := by
  induction step with
  | list | cycle | fail | finish => simp [size, sizes]
  | ask | breakDown => cases silent
  | child before after step ih =>
      have smaller := ih silent
      simp only [size, sizes_append, sizes]
      omega
  | join before after =>
      simp only [size, sizes_append, sizes]
      omega
  | stop before orphans after =>
      simp only [size, sizes_append, sizes]
      omega
  | orphan before after step ih =>
      have smaller := ih silent
      simp only [size, sizes_append, sizes]
      omega
  | giveUp before after task =>
      have smaller := sizes_subtasks_lt task
      simp only [size, sizes_append, sizes]
      omega

theorem Step.measure_lt (step : Step tree settings matcher task emitted next) :
    Prod.Lex (· < ·) (· < ·) ((next.future tree settings matcher.calm).card, next.size)
      ((task.future tree settings matcher.calm).card, task.size) := by
  obtain ⟨lost, same, _⟩ := step.exists_lost
  have count := congrArg Multiset.card same
  rw [Multiset.card_add, Multiset.card_add, Multiset.coe_card] at count
  by_cases silent : emitted.offered = []
  · rw [silent, List.length_nil, Nat.zero_add] at count
    rcases Nat.eq_or_lt_of_le (Nat.le.intro count.symm) with level | fewer
    · rw [level]
      exact .right _ (step.size_lt silent)
    · exact .left _ _ fewer
  · have asked := List.length_pos_iff.mpr silent
    exact .left _ _ (by omega)

theorem acc (tree : FileTree) (settings : Settings) (matcher : Matcher) (task : Task) :
    Acc (fun next task => ∃ emitted, Step tree settings matcher task emitted next) task := by
  constructor
  intro next ⟨emitted, step⟩
  exact acc tree settings matcher next
termination_by ((task.future tree settings matcher.calm).card, task.size)
decreasing_by exact step.measure_lt

end Task

end Search

end Glob
