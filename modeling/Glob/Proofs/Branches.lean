import Mathlib.Data.List.Perm.Subperm
import Mathlib.Logic.Relation
import Glob.Proofs.Progress
import Glob.Search

/-!
How far a search goes down. The directories on the way to a directory are different ones, so that
no way is longer than the tree has directories, whatever links lead where.
-/

namespace Glob

namespace FileTree

variable {tree : FileTree} {location : Location}

theorem mem_directories_iff : location ∈ tree.directories ↔ tree.isDirectoryAt location := by
  constructor
  · intro member
    rcases List.mem_cons.mp member with root | below
    · simp [isDirectoryAt, node?, root]
    · obtain ⟨⟨place, node⟩, kept, same⟩ := List.mem_map.mp below
      obtain ⟨present, decided⟩ := List.mem_filter.mp kept
      have directory : node = .directory := of_decide_eq_true decided
      obtain ⟨before, after, whole⟩ := List.append_of_mem present
      have distinct := tree.distinct
      rw [whole, List.map_append, List.map_cons] at distinct
      have fresh := (List.nodup_append.mp distinct).2.2
      have found : tree.nodes.lookup place = some node := by
        apply List.lookup_eq_some_iff.mpr
        refine ⟨before, after, whole, ?_⟩
        intro other earlier
        have differ := fresh other.1 (List.mem_map_of_mem earlier) place List.mem_cons_self
        simpa using differ.symm
      rw [isDirectoryAt, node?, ← same]
      split
      · rfl
      · rw [found, directory]
        rfl
  · exact mem_directories

theorem directories_nodup : tree.directories.Nodup := by
  have kept : (tree.nodes.filter (·.2 = .directory)).Sublist tree.nodes := List.filter_sublist
  refine List.nodup_cons.mpr ⟨?_, tree.distinct.sublist (kept.map _)⟩
  intro member
  obtain ⟨node, inside, root⟩ := List.mem_map.mp member
  have named := tree.named node (kept.subset inside)
  simp [root] at named

end FileTree

namespace Search

variable {tree : FileTree} {settings : Settings} {matcher : Matcher} {base : Path}
  {visit next : Visit} {location : Location} {locations : List Location} {entry : Entry}
  {entries : List Entry}

structure IsBranch (tree : FileTree) (locations : List Location) : Prop where
  distinct : locations.Nodup
  subset : locations ⊆ tree.directories

theorem IsBranch.length_le (branch : IsBranch tree locations) :
    locations.length ≤ tree.directories.length :=
  (branch.distinct.subperm branch.subset).length_le

/-- A visit goes down one directory for each name of its relative path. -/
structure Visit.IsRooted (tree : FileTree) (visit : Visit) : Prop where
  branch : IsBranch tree visit.ancestors
  level : visit.relative.length = visit.ancestors.length
  proper : ∀ name ∈ visit.relative, isName name

theorem Visit.isRooted_first : (Visit.first base).IsRooted tree where
  branch := ⟨List.nodup_nil, List.nil_subset _⟩
  level := rfl
  proper _ member := nomatch member

namespace Visit.IsRooted

theorem branch_of_enter (rooted : visit.IsRooted tree)
    (entered : enter tree visit = .ok (some location)) :
    IsBranch tree (location :: visit.ancestors) := by
  obtain ⟨directory, fresh⟩ := directory_of_enter entered
  exact ⟨List.nodup_cons.mpr ⟨fresh, rooted.branch.distinct⟩,
    List.cons_subset.mpr ⟨directory, rooted.branch.subset⟩⟩

theorem toVisit (rooted : visit.IsRooted tree)
    (entered : enter tree visit = .ok (some location))
    (listed : entry ∈ list tree settings visit location) :
    (entry.toVisit (location :: visit.ancestors)).IsRooted tree := by
  obtain ⟨name, present, _, rfl⟩ := mem_list_iff.mp listed
  refine ⟨rooted.branch_of_enter entered, ?_, ?_⟩
  · simp [entryAt, Entry.toVisit, rooted.level]
  · have proper := FileTree.isName_of_mem_names present
    simpa [entryAt, Entry.toVisit, or_imp, forall_and] using ⟨rooted.proper, proper⟩

end Visit.IsRooted

def Entry.depth (entry : Entry) : Nat :=
  (entry.relativeText.toList.splitOn '/').length

theorem Visit.IsRooted.depth_le {ancestors : List Location}
    (rooted : (entry.toVisit ancestors).IsRooted tree) :
    entry.depth ≤ tree.directories.length := by
  have level : entry.relative.length = ancestors.length := rooted.level
  have bound : ancestors.length ≤ tree.directories.length := rooted.branch.length_le
  unfold Entry.depth Entry.relativeText
  by_cases empty : entry.relative = []
  · rw [empty]
    exact Nat.succ_pos _
  · rw [splitOn_intercalate_names empty rooted.proper, List.length_map, level]
    exact bound

theorem ask_offered_subset : (ask matcher entries).offered ⊆ entries := by
  induction entries with
  | nil => exact List.Subset.refl _
  | cons entry rest ih =>
      unfold ask
      split
      · simp
      · exact List.cons_subset_cons entry ih

theorem exists_isRooted_of_mem_walk (rooted : visit.IsRooted tree)
    (member : entry ∈ (walk tree settings matcher visit).offered) :
    ∃ ancestors, (entry.toVisit ancestors).IsRooted tree := by
  induction visit using walk_induction tree with
  | error visit error failed =>
      rw [walk_of_error failed] at member
      cases member
  | cycle visit closed =>
      rw [walk_of_cycle closed] at member
      cases member
  | entered visit location entered ih =>
      have here (listed : entry ∈ (ask matcher (list tree settings visit location)).offered) :
          ∃ ancestors, (entry.toVisit ancestors).IsRooted tree :=
        ⟨_, rooted.toVisit entered (ask_offered_subset listed)⟩
      rw [walk_of_enter entered] at member
      split at member
      · rw [Trace.append_offered, Trace.join_offered, List.mem_append] at member
        rcases member with listed | below
        · exact here listed
        · obtain ⟨trace, walked, inside⟩ := List.mem_flatMap.mp below
          obtain ⟨parent, listed, _, rfl⟩ := mem_walkBelow_iff.mp walked
          exact ih _ _ (rooted.toVisit entered listed) inside
      · exact here member

/-- The visit of a directory that is listed in another visit. -/
def Spawns (tree : FileTree) (settings : Settings) (visit next : Visit) : Prop :=
  ∃ location entry, enter tree visit = .ok (some location) ∧
    entry ∈ list tree settings visit location ∧ entry.isDirectory ∧
      next = entry.toVisit (location :: visit.ancestors)

theorem Spawns.remaining_lt (spawns : Spawns tree settings visit next) :
    remaining tree next.ancestors < remaining tree visit.ancestors := by
  obtain ⟨location, entry, entered, _, _, rfl⟩ := spawns
  exact remaining_lt_of_enter entered

theorem spawns_wellFounded (tree : FileTree) (settings : Settings) :
    WellFounded fun next visit => Spawns tree settings visit next :=
  Subrelation.wf Spawns.remaining_lt
    (measure fun visit : Visit => remaining tree visit.ancestors).wf

def IsReached (tree : FileTree) (settings : Settings) (base : Path) : Visit → Prop :=
  Relation.ReflTransGen (Spawns tree settings) (.first base)

theorem IsReached.isRooted (reached : IsReached tree settings base visit) :
    visit.IsRooted tree := by
  induction reached with
  | refl => exact Visit.isRooted_first
  | tail _ spawns ih =>
      obtain ⟨location, entry, entered, listed, _, rfl⟩ := spawns
      exact ih.toVisit entered listed

namespace Task

variable {task inner : Task} {emitted : Trace}

/-- The locations of the directories that a task was reached through, and its own one as soon as it
is listed. -/
def branch : Task → List Location
  | waiting visit => visit.ancestors
  | running ancestors _ _ => ancestors
  | finished | stopped _ _ _ => []

def IsWithin (inner outer : Task) : Prop :=
  Relation.ReflTransGen (fun task child => child ∈ task.subtasks) outer inner

/-- All visits come from a first one, and all entries were listed in one of them. -/
def Parts.reached (tree : FileTree) (settings : Settings) (base : Path) : Parts where
  visit visit := IsReached tree settings base visit
  branch ancestors := ∃ visit location, IsReached tree settings base visit ∧
    enter tree visit = .ok (some location) ∧ ancestors = location :: visit.ancestors
  entry ancestors entry := ∃ visit location, IsReached tree settings base visit ∧
    enter tree visit = .ok (some location) ∧ ancestors = location :: visit.ancestors ∧
      entry ∈ list tree settings visit location
  ending _ := True

theorem reached_kept : (Parts.reached tree settings base).Kept tree settings matcher where
  listed {visit location} reached entered := by
    refine ⟨⟨visit, location, reached, entered, rfl⟩, ?_⟩
    intro entry listed
    exact ⟨visit, location, reached, entered, rfl, listed⟩
  failed _ _ := trivial
  spawned {ancestors entry} _ listed descends := by
    obtain ⟨visit, location, reached, entered, rfl, listed⟩ := listed
    exact reached.tail ⟨location, entry, entered, listed, (descends_iff.mp descends).1, rfl⟩
  brokenDown := trivial

theorem Run.meets_reached (run : Run tree settings matcher (.first base) emitted task) :
    Meets (.reached tree settings base) task :=
  run.meets reached_kept (.waiting .refl)

theorem Meets.isBranch (meets : Meets (.reached tree settings base) task) :
    IsBranch tree task.branch := by
  cases meets with
  | waiting reached => exact (IsReached.isRooted reached).branch
  | running branch =>
      obtain ⟨visit, location, reached, entered, same⟩ := branch
      rw [Task.branch, same]
      exact reached.isRooted.branch_of_enter entered
  | finished | stopped => exact ⟨List.nodup_nil, List.nil_subset _⟩

theorem Meets.isWithin {parts : Parts} (meets : Meets parts task) (within : inner.IsWithin task) :
    Meets parts inner := by
  induction within with
  | refl => exact meets
  | tail _ child ih => exact ih.subtasks _ child

theorem Run.depth_le (run : Run tree settings matcher (.first base) emitted task) :
    ∀ entry ∈ emitted.offered, entry.depth ≤ tree.directories.length := by
  intro entry offered
  have first : Meets (.reached tree settings base) (Task.first base) := .waiting .refl
  obtain ⟨_, _, left⟩ := run.exists_branch reached_kept first entry offered
  obtain ⟨visit, location, reached, entered, _, listed⟩ := left
  exact (reached.isRooted.toVisit entered listed).depth_le

end Task

/-- Whatever links lead where and whatever the matcher says: the visits that tasks are made for are
well-founded, each task was reached through different directories, no relative path has more names
than the tree has directories, and no search goes on for ever. -/
theorem descent_bounded (tree : FileTree) (settings : Settings) :
    (tree.directories.Nodup ∧
      ∀ location, location ∈ tree.directories ↔ tree.isDirectoryAt location) ∧
    (WellFounded fun next visit => Spawns tree settings visit next) ∧
    ∀ matcher base,
      (∀ entry ∈ (explore tree settings matcher base).offered,
        entry.depth ≤ tree.directories.length) ∧
      (∀ emitted task, Task.Run tree settings matcher (.first base) emitted task →
        (∀ visit, (Task.waiting visit).IsWithin task → IsReached tree settings base visit) ∧
        (∀ inner : Task, inner.IsWithin task → inner.branch.Nodup ∧
          inner.branch ⊆ tree.directories ∧ inner.branch.length ≤ tree.directories.length) ∧
        ∀ entry ∈ emitted.offered, entry.depth ≤ tree.directories.length) ∧
      ¬∃ tasks : ℕ → Task, tasks 0 = .first base ∧
        ∀ i, ∃ emitted, Task.Step tree settings matcher (tasks i) emitted (tasks (i + 1)) := by
  refine ⟨⟨FileTree.directories_nodup, fun _ => FileTree.mem_directories_iff⟩,
    spawns_wellFounded tree settings, ?_⟩
  intro matcher base
  refine ⟨?_, ?_, ?_⟩
  · intro entry offered
    obtain ⟨_, rooted⟩ := exists_isRooted_of_mem_walk Visit.isRooted_first offered
    exact rooted.depth_le
  · intro emitted task run
    refine ⟨?_, ?_, run.depth_le⟩
    · intro visit within
      cases run.meets_reached.isWithin within with
      | waiting reached => exact reached
    · intro inner within
      have branch := (run.meets_reached.isWithin within).isBranch
      exact ⟨branch.distinct, branch.subset, branch.length_le⟩
  · exact fun endless => not_acc_iff_exists_descending_chain.mpr endless (Task.acc ..)

theorem descent_bounded_crossed :
    let tree : FileTree :=
      { nodes := [(["a"], .directory), (["a", "b"], .link ["b"]), (["a", "up"], .link []),
          (["b"], .directory), (["b", "a"], .link ["a"])]
        distinct := by decide
        named := by decide }
    let offered := (explore tree {} (fun _ _ => some .accept) .root).offered
    (∀ entry ∈ offered, entry.depth ≤ tree.directories.length) ∧ tree.directories.length = 3 ∧
      offered.map (·.offeredText) =
        ["a/", "b/", "a/b/", "a/up/", "a/b/a/", "b/a/", "b/a/b/", "b/a/up/"] := by
  intro tree offered
  exact ⟨((descent_bounded tree {}).2.2 (fun _ _ => some .accept) .root).1, rfl, by decide +kernel⟩

end Search

end Glob
