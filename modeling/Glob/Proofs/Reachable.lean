import Glob.Proofs.Chain
import Glob.Proofs.Resolution
import Glob.Proofs.Schedule

/-!
The directories that a search lists. It does not list a directory below itself, but a way to another
directory that comes through one twice can be cut short, so no directory is lost.
-/

namespace Glob

open Relation (ReflTransGen)

namespace Search

/-- One directory opens another if it holds an entry that is the other one, or leads to it. -/
def Opens (tree : FileTree) (settings : Settings) (here there : Location) : Prop :=
  ∃ name ∈ tree.names here, (settings.skipHidden → ¬isHidden name) ∧
    tree.LeadsTo here [name] there ∧ tree.isDirectoryAt there

inductive Visits (tree : FileTree) (settings : Settings) (matcher : Matcher) :
    Visit → Visit → Prop where
  | here (visit : Visit) : Visits tree settings matcher visit visit
  | deeper {visit final : Visit} {location : Location} {entry : Entry}
      (entered : enter tree visit = .ok (some location))
      (listed : entry ∈ list tree settings visit location) (descends : descends matcher entry)
      (onward : Visits tree settings matcher (entry.toVisit (location :: visit.ancestors)) final) :
      Visits tree settings matcher visit final

def Matcher.Open (matcher : Matcher) : Prop :=
  ∀ path text, ∃ verdict, matcher path text = some verdict ∧ verdict.prunes = false

/-- A path to somewhere is found, and not given up for its links or its length. -/
def Found (tree : FileTree) (path : Path) : Prop :=
  ∀ location, tree.LeadsTo [] path.steps location → tree.resolve path.steps = .ok location

variable {tree : FileTree} {settings : Settings} {matcher : Matcher} {visit final : Visit}
  {base : Path} {location here there last : Location} {entry : Entry} {name : String}

theorem found_of_resolve {path : Path} (resolved : tree.resolve path.steps = .ok location) :
    Found tree path := by
  intro there leads
  rw [leads.unique (FileTree.leadsTo_of_resolve resolved)]
  exact resolved

theorem Matcher.Open.total (open_ : matcher.Open) : matcher.Total := by
  intro path text
  obtain ⟨verdict, asked, _⟩ := open_ path text
  rw [asked]
  rfl

theorem mem_offered_of_list (total : matcher.Total)
    (entered : enter tree visit = .ok (some location))
    (listed : entry ∈ list tree settings visit location) :
    entry ∈ (walk tree settings matcher visit).offered := by
  rw [walk_eq_append total entered, Trace.append_offered, ask_offered total]
  exact List.mem_append_left _ listed

theorem mem_offered_of_below {parent : Entry} (total : matcher.Total)
    (entered : enter tree visit = .ok (some location))
    (listed : parent ∈ list tree settings visit location) (descends : descends matcher parent)
    (member : entry ∈ (walk tree settings matcher
      (parent.toVisit (location :: visit.ancestors))).offered) :
    entry ∈ (walk tree settings matcher visit).offered := by
  rw [walk_eq_append total entered, Trace.append_offered, Trace.join_offered]
  apply List.mem_append_right
  exact List.mem_flatMap.mpr ⟨_, mem_walkBelow_iff.mpr ⟨parent, listed, descends, rfl⟩, member⟩

theorem Visits.mem_offered (visits : Visits tree settings matcher visit final)
    (total : matcher.Total) (entered : enter tree final = .ok (some location))
    (listed : entry ∈ list tree settings final location) :
    entry ∈ (walk tree settings matcher visit).offered := by
  induction visits with
  | here visit => exact mem_offered_of_list total entered listed
  | deeper outer within descends _ ih =>
      exact mem_offered_of_below total outer within descends (ih entered listed)

theorem exists_entry_of_opens (open_ : matcher.Open)
    (entered : enter tree visit = .ok (some here)) (opens : Opens tree settings here there)
    (found : ∀ entry ∈ list tree settings visit here, Found tree entry.path) :
    ∃ entry ∈ list tree settings visit here, descends matcher entry ∧
      tree.directory? entry.path.steps = .ok there := by
  obtain ⟨name, present, visible, leads, directory⟩ := opens
  have listed : entryAt tree settings visit [name] ∈ list tree settings visit here :=
    mem_list_iff.mpr ⟨name, present, visible, rfl⟩
  have way := FileTree.leadsTo_of_resolve (resolve_of_enter entered)
  have resolved := found _ listed there (way.join leads)
  have opened := FileTree.directory_eq_ok_iff.mpr ⟨resolved, directory⟩
  refine ⟨_, listed, descends_iff.mpr ⟨?_, open_ _ _⟩, opened⟩
  exact FileTree.isDirectory_iff.mpr ⟨there, opened⟩

/-- A walk comes to every directory at the end of a chain that keeps away from the directories that
the walk came through. -/
theorem exists_visit_of_chain (open_ : matcher.Open)
    (found : ∀ entry ∈ (walk tree settings matcher visit).offered, Found tree entry.path)
    (entered : enter tree visit = .ok (some here))
    (chain : ReflTransGen (fun i j => Opens tree settings i j ∧ j ∉ visit.ancestors) here last) :
    ∃ final, Visits tree settings matcher visit final ∧
      enter tree final = .ok (some last) := by
  induction visit using walk_induction tree generalizing here with
  | error visit error failed => cases failed.symm.trans entered
  | cycle visit closed => cases closed.symm.trans entered
  | entered visit location again ih =>
      obtain rfl := enter_unique again entered
      -- The chain may come back to this directory: what counts is how it leaves it for good.
      rcases chain_avoids_or_leaves location chain with
        ⟨apart, _⟩ | rfl | ⟨there, ⟨⟨opens, fresh⟩, apart⟩, avoiding⟩
      · exact absurd rfl apart
      · exact ⟨visit, .here visit, entered⟩
      · obtain ⟨entry, listed, descends, opened⟩ := exists_entry_of_opens open_ entered opens
          fun entry listed => found entry (mem_offered_of_list open_.total entered listed)
        have below : enter tree (entry.toVisit (location :: visit.ancestors)) =
            .ok (some there) := by
          apply enter_eq_some_iff.mpr
          exact ⟨opened, by simp [Entry.toVisit, apart, fresh]⟩
        have inner := fun deeper member =>
          found deeper (mem_offered_of_below open_.total entered listed descends member)
        have shorter : ReflTransGen (fun i j => Opens tree settings i j ∧
            j ∉ (entry.toVisit (location :: visit.ancestors)).ancestors) there last := by
          apply ReflTransGen.mono _ _ _ avoiding
          intro i j given
          obtain ⟨⟨step, outside⟩, away⟩ := given
          exact ⟨step, by simp [Entry.toVisit, away, outside]⟩
        obtain ⟨final, visits, listing⟩ := ih entry.path entry.relative inner below shorter
        exact ⟨final, .deeper entered listed descends visits, listing⟩

/-- Cutting cycles loses no directory: if no lookup is given up, a search lists every directory that
can be reached from its base, so that it asks about all that such a directory holds. -/
theorem lists_every_reachable_directory (open_ : matcher.Open)
    (based : tree.directory? base.steps = .ok here)
    (found : ∀ entry ∈ (explore tree settings matcher base).offered, Found tree entry.path)
    (reached : ReflTransGen (Opens tree settings) here last) :
    ∃ final, Visits tree settings matcher (.first base) final ∧
      enter tree final = .ok (some last) ∧
      ∀ name ∈ tree.names last, (settings.skipHidden → ¬isHidden name) →
        entryAt tree settings final [name] ∈ (explore tree settings matcher base).offered ∧
        ∀ emitted, Task.Run tree settings matcher (.first base) emitted .finished →
          entryAt tree settings final [name] ∈ emitted.offered := by
  have entered : enter tree (.first base) = .ok (some here) :=
    enter_eq_some_iff.mpr ⟨based, List.not_mem_nil⟩
  have chain : ReflTransGen (fun i j => Opens tree settings i j ∧
      j ∉ (Visit.first base).ancestors) here last :=
    ReflTransGen.mono (fun _ _ step => ⟨step, List.not_mem_nil⟩) _ _ reached
  obtain ⟨final, visits, listing⟩ := exists_visit_of_chain open_ found entered chain
  refine ⟨final, visits, listing, ?_⟩
  intro name present visible
  have listed : entryAt tree settings final [name] ∈ list tree settings final last :=
    mem_list_iff.mpr ⟨name, present, visible, rfl⟩
  have offered := visits.mem_offered open_.total listing listed
  refine ⟨offered, ?_⟩
  intro emitted run
  have listable : tree.isDirectory base.steps := FileTree.isDirectory_iff.mpr ⟨here, based⟩
  exact (run.offered_perm open_.total listable).mem_iff.mpr offered

def crossedTree : FileTree where
  nodes := [(["a"], .directory), (["a", "root"], .link []), (["b"], .directory),
    (["b", "a"], .link ["a"]), (["b", "f"], .file 0)]
  distinct := by decide
  named := by decide

theorem lists_every_reachable_directory_crossed :
    let base : Path := ⟨["a"]⟩
    Matcher.Open (selecting [] []) ∧ crossedTree.directory? base.steps = .ok ["a"] ∧
      (∀ entry ∈ (explore crossedTree {} (selecting [] []) base).offered,
        Found crossedTree entry.path) ∧
      ReflTransGen (Opens crossedTree {}) ["a"] ["b"] ∧
      (∃ final, Visits crossedTree {} (selecting [] []) (.first base) final ∧
        enter crossedTree final = .ok (some ["b"]) ∧
        entryAt crossedTree {} final ["f"] ∈
          (explore crossedTree {} (selecting [] []) base).offered) ∧
      (explore crossedTree {} (selecting [] []) base).offered.map (·.offeredText) =
        ["root/", "root/a/", "root/b/", "root/b/a/", "root/b/f"] :=
  have open_ : Matcher.Open (selecting [] []) := fun _ _ => ⟨.accept, rfl, rfl⟩
  have based : crossedTree.directory? ["a"] = .ok ["a"] := by decide
  have found : ∀ entry ∈ (explore crossedTree {} (selecting [] []) ⟨["a"]⟩).offered,
      Found crossedTree entry.path := by
    have resolved : ∀ entry ∈ (explore crossedTree {} (selecting [] []) ⟨["a"]⟩).offered,
        (crossedTree.resolve entry.path.steps).isOk := by
      decide +kernel
    intro entry offered
    cases place : crossedTree.resolve entry.path.steps with
    | ok location => exact found_of_resolve place
    | error reason => simpa [place, Except.isOk, Except.toBool] using resolved entry offered
  have up : Opens crossedTree {} ["a"] [] :=
    ⟨"root", by decide, by decide, FileTree.leadsTo_iff.mpr ⟨1, by decide⟩, by decide⟩
  have down : Opens crossedTree {} [] ["b"] :=
    ⟨"b", by decide, by decide, FileTree.leadsTo_iff.mpr ⟨0, by decide⟩, by decide⟩
  have reached : ReflTransGen (Opens crossedTree {}) ["a"] ["b"] := .tail (.single up) down
  have listed := lists_every_reachable_directory open_ based found reached
  ⟨open_, based, found, reached, listed.imp fun _ final =>
    ⟨final.1, final.2.1, (final.2.2 "f" (by decide) (by decide)).1⟩, by decide +kernel⟩

end Search

end Glob
