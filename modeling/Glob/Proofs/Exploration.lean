import Glob.Proofs.Walk
import Glob.Search

/-! What a search has done when it asked about every admissible path once. -/

namespace Glob

namespace Search

variable {tree : FileTree} {settings : Settings} {matcher : Matcher} {base : Path}
  {trace : Trace} {entry : Entry} {names : List String}

/-- A search asked about exactly the admissible paths below its base, about each of them once, and
reported exactly those that the matcher wanted, each of them once. -/
structure Exact (tree : FileTree) (settings : Settings) (matcher : Matcher) (base : Path)
    (trace : Trace) : Prop where
  offered_iff : ∀ entry, entry ∈ trace.offered ↔
    ∃ names, Admissible tree settings matcher (.first base) names ∧
      entry = entryAt tree settings (.first base) names
  offered_once : (trace.offered.map (·.relativeText)).Nodup
  reported_iff : ∀ entry, entry ∈ trace.reported ↔ entry ∈ trace.offered ∧
    ∃ verdict, matcher entry.path entry.offeredText = some verdict ∧ verdict.reports
  reported_once : (trace.reported.map (·.relativeText)).Nodup
  /-- All that was reported is what the stream of the search delivers before it ends. -/
  delivered : trace.toStream.collect = .entries trace.reported

theorem eq_of_relativeText_eq {left right : Entry} (total : matcher.Total)
    (leftOffered : left ∈ (explore tree settings matcher base).offered)
    (rightOffered : right ∈ (explore tree settings matcher base).offered)
    (same : left.relativeText = right.relativeText) : left = right := by
  obtain ⟨names, admissible, rfl⟩ := (mem_walk_offered total).mp leftOffered
  obtain ⟨others, admissibleOthers, rfl⟩ := (mem_walk_offered total).mp rightOffered
  have equal : names = others :=
    eq_of_intercalate_eq admissible.nonempty admissibleOthers.nonempty
      (fun _ => admissible.isName_of_mem) (fun _ => admissibleOthers.isName_of_mem) same
  rw [equal]

theorem explore_relativeText_nodup (total : matcher.Total) :
    ((explore tree settings matcher base).offered.map (·.relativeText)).Nodup := by
  have distinct : (explore tree settings matcher base).offered.Nodup :=
    (walk_relative_nodup total).of_map
  apply List.Nodup.map_on _ distinct
  intro left leftOffered right rightOffered same
  exact eq_of_relativeText_eq total leftOffered rightOffered same

theorem isReported_iff : isReported matcher entry ↔
    ∃ verdict, matcher entry.path entry.offeredText = some verdict ∧ verdict.reports := by
  simp only [isReported, Option.any_eq_true]

theorem Stream.collect_append (entries : List Entry) (rest : List (Except Error Entry))
    (sending : Bool) (outcome : Option Outcome) :
    collect ⟨entries.map .ok ++ rest, sending, outcome, false⟩ =
      entries.foldr Result.addEntry (collect ⟨rest, sending, outcome, false⟩) := by
  induction entries with
  | nil => rfl
  | cons entry later ih => exact congrArg (Result.addEntry entry) ih

theorem collect_of_finished (finished : trace.ending = .finished) :
    trace.toStream.collect = .entries trace.reported := by
  have taken (entries : List Entry) :
      entries.foldr Result.addEntry (.entries []) = .entries entries := by
    induction entries with
    | nil => rfl
    | cons entry later ih => exact congrArg (Result.addEntry entry) ih
  have closed : trace.toStream =
      ⟨trace.reported.map .ok ++ [], false, some .finished, false⟩ := by
    simp only [Trace.toStream, finished, List.append_nil]
    rfl
  rw [closed, Stream.collect_append]
  exact taken trace.reported

theorem collect_of_failed {error : Error} (failed : trace.ending = .failed error) :
    trace.toStream.collect = .failure error := by
  have closed : trace.toStream =
      ⟨trace.reported.map .ok ++ [.error error], false, some .finished, false⟩ := by
    simp only [Trace.toStream, failed]
    rfl
  rw [closed, Stream.collect_append]
  exact List.foldr_fixed' (fun _ => rfl) trace.reported

theorem collect_of_brokenDown (broken : trace.ending = .brokenDown) :
    trace.toStream.collect = .brokenDown := by
  have closed : trace.toStream =
      ⟨trace.reported.map .ok ++ [], false, some .brokenDown, false⟩ := by
    simp only [Trace.toStream, broken, List.append_nil]
    rfl
  rw [closed, Stream.collect_append]
  exact List.foldr_fixed' (fun _ => rfl) trace.reported

/-- It is enough to ask in any order about what the walk asks about. -/
theorem exact_of_perm (total : matcher.Total)
    (same : trace.offered.Perm (explore tree settings matcher base).offered)
    (filtered : trace.reported = trace.offered.filter (isReported matcher))
    (finished : trace.ending = .finished) : Exact tree settings matcher base trace := by
  have once : (trace.offered.map (·.relativeText)).Nodup :=
    (same.map _).nodup_iff.mpr (explore_relativeText_nodup total)
  constructor
  · intro entry
    rw [same.mem_iff]
    exact mem_walk_offered total
  · exact once
  · intro entry
    rw [filtered, List.mem_filter, isReported_iff]
  · rw [filtered]
    exact once.sublist (List.filter_sublist.map _)
  · exact collect_of_finished finished

theorem explore_finished (total : matcher.Total) (listable : tree.isDirectory base.steps) :
    (explore tree settings matcher base).ending = .finished :=
  walk_finished total listable

theorem explore_exact (total : matcher.Total) (listable : tree.isDirectory base.steps) :
    Exact tree settings matcher base (explore tree settings matcher base) :=
  exact_of_perm total (.refl _) walk_reported (explore_finished total listable)

end Search

end Glob
