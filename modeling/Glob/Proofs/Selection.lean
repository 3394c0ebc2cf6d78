import Mathlib.Data.Set.Basic
import Glob.Proofs.Schedule

/-!
The paths that a search for patterns reports, and how they depend on the lists of patterns. A
pattern of the second list acts on an entry and on all that is below it, which comes to asking it
about every directory on the way to an entry.
-/

namespace Glob

namespace Search

variable {tree : FileTree} {settings : Settings} {base : Path} {visit : Visit} {entry : Entry}
  {included excluded patterns more others rest : List Pattern} {names : List String}
  {relative text : List Char}

theorem matchesAny_append : matchesAny (patterns ++ more) relative =
    (matchesAny patterns relative || matchesAny more relative) :=
  List.any_append

theorem matchesAny_append_eq_false : matchesAny (patterns ++ more) relative = false ↔
    matchesAny patterns relative = false ∧ matchesAny more relative = false := by
  rw [matchesAny_append, Bool.or_eq_false_iff]

theorem matchesAny_of_subset (subset : patterns ⊆ more) (found : matchesAny patterns relative) :
    matchesAny more relative := by
  obtain ⟨pattern, member, accepted⟩ := List.any_eq_true.mp found
  exact List.any_eq_true.mpr ⟨pattern, subset member, accepted⟩

theorem selecting_total : Matcher.Total (selecting included excluded) := by
  intro path text
  unfold selecting
  split
  · rfl
  · split <;> rfl

theorem selecting_unpruned_iff {path : Path} {text : String} :
    (∃ verdict, selecting included excluded path text = some verdict ∧ verdict.prunes = false) ↔
      matchesAny excluded text.toList = false := by
  unfold selecting
  cases matchesAny excluded text.toList with
  | true => simp [Verdict.prune]
  | false =>
      cases included.isEmpty || matchesAny included text.toList <;>
        simp [Verdict.accept, Verdict.ignore]

/-- Some pattern in `included` matches the entry, or there is none that could. -/
def Entry.WantedBy (included : List Pattern) (entry : Entry) : Prop :=
  included = [] ∨ matchesAny included entry.offeredText.toList

/-- No pattern in `excluded` matches the entry or a directory on the way to it. -/
structure Entry.SparedBy (excluded : List Pattern) (entry : Entry) : Prop where
  itself : matchesAny excluded entry.offeredText.toList = false
  onTheWay : ∀ i, 0 < i → i < entry.relative.length →
    matchesAny excluded ("/".intercalate (entry.relative.take i) ++ "/").toList = false

theorem isReported_selecting_iff : isReported (selecting included excluded) entry ↔
    matchesAny excluded entry.offeredText.toList = false ∧ entry.WantedBy included := by
  unfold isReported selecting Entry.WantedBy
  cases matchesAny excluded entry.offeredText.toList with
  | true => simp [Verdict.prune]
  | false =>
      rw [← List.isEmpty_iff, ← Bool.or_eq_true]
      cases included.isEmpty || matchesAny included entry.offeredText.toList <;>
        simp [Verdict.accept, Verdict.ignore]

theorem Entry.sparedBy_append : entry.SparedBy (excluded ++ more) ↔
    entry.SparedBy excluded ∧ entry.SparedBy more := by
  constructor
  · intro spared
    have itself := matchesAny_append_eq_false.mp spared.itself
    have onTheWay i positive inside :=
      matchesAny_append_eq_false.mp (spared.onTheWay i positive inside)
    exact ⟨⟨itself.1, fun i positive inside => (onTheWay i positive inside).1⟩,
      ⟨itself.2, fun i positive inside => (onTheWay i positive inside).2⟩⟩
  · intro ⟨first, second⟩
    constructor
    · exact matchesAny_append_eq_false.mpr ⟨first.itself, second.itself⟩
    · intro i positive inside
      exact matchesAny_append_eq_false.mpr
        ⟨first.onTheWay i positive inside, second.onTheWay i positive inside⟩

theorem Entry.SparedBy.of_subset (spared : entry.SparedBy excluded) (subset : rest ⊆ excluded) :
    entry.SparedBy rest := by
  have fewer {relative : List Char} (none : matchesAny excluded relative = false) :
      matchesAny rest relative = false := by
    apply Bool.eq_false_iff.mpr
    intro found
    exact Bool.eq_false_iff.mp none (matchesAny_of_subset subset found)
  exact ⟨fewer spared.itself, fun i positive inside => fewer (spared.onTheWay i positive inside)⟩

theorem Entry.wantedBy_append (first : included ≠ []) (second : more ≠ []) :
    entry.WantedBy (included ++ more) ↔ entry.WantedBy included ∨ entry.WantedBy more := by
  simp only [WantedBy, List.append_eq_nil_iff, first, second, false_and, false_or,
    matchesAny_append, Bool.or_eq_true]

theorem Entry.WantedBy.of_subset (wanted : entry.WantedBy included) (subset : included ⊆ others)
    (filters : included = [] → others = []) : entry.WantedBy others := by
  rcases wanted with all | found
  · exact .inl (filters all)
  · exact .inr (matchesAny_of_subset subset found)

theorem admissible_selecting_iff :
    Admissible tree settings (selecting included excluded) visit names ↔
      Admissible tree settings (selecting [] []) visit names ∧
        ∀ i, 0 < i → i < names.length → matchesAny excluded
          ("/".intercalate (visit.relative ++ names.take i) ++ "/").toList = false := by
  constructor
  · intro admissible
    refine ⟨{ admissible with unpruned := ?_ }, ?_⟩
    · intro i _ _
      exact selecting_unpruned_iff.mpr rfl
    · intro i positive inside
      exact selecting_unpruned_iff.mp (admissible.unpruned i positive inside)
  · intro ⟨admissible, spared⟩
    refine { admissible with unpruned := ?_ }
    intro i positive inside
    exact selecting_unpruned_iff.mpr (spared i positive inside)

theorem mem_reported_selecting_iff :
    entry ∈ (explore tree settings (selecting included excluded) base).reported ↔
      entry ∈ (explore tree settings (selecting [] []) base).offered ∧
        entry.SparedBy excluded ∧ entry.WantedBy included := by
  unfold explore
  rw [walk_reported, List.mem_filter, isReported_selecting_iff, mem_walk_offered selecting_total,
    mem_walk_offered selecting_total]
  constructor
  · intro ⟨⟨names, admissible, same⟩, itself, wanted⟩
    obtain ⟨plain, spared⟩ := admissible_selecting_iff.mp admissible
    refine ⟨⟨names, plain, same⟩, ⟨itself, ?_⟩, wanted⟩
    rw [same]
    exact spared
  · intro ⟨⟨names, plain, same⟩, spared, wanted⟩
    refine ⟨⟨names, admissible_selecting_iff.mpr ⟨plain, ?_⟩, same⟩, spared.itself, wanted⟩
    have onTheWay := spared.onTheWay
    rw [same] at onTheWay
    exact onTheWay

def Trace.reportedPaths (trace : Trace) : Set String :=
  {text | ∃ entry ∈ trace.reported, entry.relativeText = text}

/-- The relative paths that a search reports for the patterns in `included`, or all of them if there
are none, without those in `excluded`. -/
def selectedPaths (tree : FileTree) (settings : Settings) (base : Path)
    (included excluded : List Pattern) : Set String :=
  (explore tree settings (selecting included excluded) base).reportedPaths

theorem mem_selectedPaths_iff {text : String} :
    text ∈ selectedPaths tree settings base included excluded ↔
      ∃ entry ∈ (explore tree settings (selecting [] []) base).offered,
        entry.relativeText = text ∧ entry.SparedBy excluded ∧ entry.WantedBy included := by
  simp only [selectedPaths, Trace.reportedPaths, Set.mem_ofPred_eq, mem_reported_selecting_iff]
  constructor
  · intro ⟨entry, ⟨offered, spared, wanted⟩, same⟩
    exact ⟨entry, offered, same, spared, wanted⟩
  · intro ⟨entry, offered, same, spared, wanted⟩
    exact ⟨entry, ⟨offered, spared, wanted⟩, same⟩

/-- The paths selected by patterns to include and patterns to exclude are put together from those
that the patterns select in parts. -/
structure Composes (selected : List Pattern → List Pattern → Set String) : Prop where
  exclude_append : ∀ included excluded more,
    selected included (excluded ++ more) = selected included excluded ∩ selected included more
  include_append : ∀ included more excluded, included ≠ [] → more ≠ [] →
    selected (included ++ more) excluded = selected included excluded ∪ selected more excluded
  subset_unfiltered : ∀ included excluded, selected included excluded ⊆ selected [] excluded
  /-- More patterns to exclude report nothing new, and more patterns to include hide nothing. -/
  mono : ∀ included others excluded rest, included ≠ [] → included ⊆ others → rest ⊆ excluded →
    selected included excluded ⊆ selected others rest
  perm : ∀ included others excluded rest, included.Perm others → excluded.Perm rest →
    selected included excluded = selected others rest

theorem selectedPaths_subset (includes : included ⊆ others) (filters : included = [] → others = [])
    (excludes : rest ⊆ excluded) : selectedPaths tree settings base included excluded ⊆
      selectedPaths tree settings base others rest := by
  intro text selected
  obtain ⟨entry, offered, same, spared, wanted⟩ := mem_selectedPaths_iff.mp selected
  exact mem_selectedPaths_iff.mpr ⟨entry, offered, same, spared.of_subset excludes,
    wanted.of_subset includes filters⟩

theorem selectedPaths_exclude_append :
    selectedPaths tree settings base included (excluded ++ more) =
      selectedPaths tree settings base included excluded ∩
        selectedPaths tree settings base included more := by
  ext text
  rw [Set.mem_inter_iff, mem_selectedPaths_iff, mem_selectedPaths_iff, mem_selectedPaths_iff]
  constructor
  · intro ⟨entry, offered, same, spared, wanted⟩
    obtain ⟨first, second⟩ := Entry.sparedBy_append.mp spared
    exact ⟨⟨entry, offered, same, first, wanted⟩, ⟨entry, offered, same, second, wanted⟩⟩
  · intro ⟨⟨entry, offered, same, first, wanted⟩, ⟨other, otherOffered, otherSame, second, _⟩⟩
    -- Both searches came to the same entry, since its path tells the names on the way.
    have equal : other = entry :=
      eq_of_relativeText_eq selecting_total otherOffered offered (otherSame.trans same.symm)
    exact ⟨entry, offered, same, Entry.sparedBy_append.mpr ⟨first, equal ▸ second⟩, wanted⟩

theorem selectedPaths_include_append (first : included ≠ []) (second : more ≠ []) :
    selectedPaths tree settings base (included ++ more) excluded =
      selectedPaths tree settings base included excluded ∪
        selectedPaths tree settings base more excluded := by
  ext text
  simp only [Set.mem_union, mem_selectedPaths_iff, Entry.wantedBy_append first second, and_or_left,
    exists_or]

theorem selectedPaths_composes : Composes (selectedPaths tree settings base) where
  exclude_append included excluded more := selectedPaths_exclude_append
  include_append included more excluded first second := selectedPaths_include_append first second
  subset_unfiltered included excluded := by
    intro text selected
    obtain ⟨entry, offered, same, spared, _⟩ := mem_selectedPaths_iff.mp selected
    exact mem_selectedPaths_iff.mpr ⟨entry, offered, same, spared, .inl rfl⟩
  mono included others excluded rest nonempty includes excludes :=
    selectedPaths_subset includes (absurd · nonempty) excludes
  perm included others excluded rest includes excludes := by
    apply Set.Subset.antisymm
    · apply selectedPaths_subset includes.subset _ excludes.symm.subset
      exact fun none => List.nil_perm.mp (none ▸ includes)
    · apply selectedPaths_subset includes.symm.subset _ excludes.subset
      exact fun none => List.perm_nil.mp (none ▸ includes)

/-- Whatever its tasks did when, a search for patterns has reported the selected paths when it is
finished, and these are put together from what parts of the lists of patterns select. -/
theorem finished_search_composes (listable : tree.isDirectory base.steps) :
    (∀ included excluded emitted,
      Task.Run tree settings (selecting included excluded) (.first base) emitted .finished →
        emitted.reportedPaths = selectedPaths tree settings base included excluded) ∧
      Composes (selectedPaths tree settings base) := by
  refine ⟨?_, selectedPaths_composes⟩
  intro included excluded emitted run
  have asked := run.offered_perm selecting_total listable
  have reported : emitted.reported.Perm
      (explore tree settings (selecting included excluded) base).reported := by
    rw [run.reported, explore, walk_reported]
    exact asked.filter _
  ext text
  simp only [selectedPaths, Trace.reportedPaths, Set.mem_ofPred_eq, reported.mem_iff]

theorem finished_search_composes_linked :
    let directory : Pattern := ⟨"d", [[.literal ['d']]], {}⟩
    let link : Pattern := ⟨"*/up", [[.star, .separator, .literal ['u', 'p']]], {}⟩
    let reported (included excluded : List Pattern) : List String :=
      (explore linkedTree {} (selecting included excluded) .root).reported.map (·.relativeText)
    linkedTree.isDirectory Path.root.steps ∧ Composes (selectedPaths linkedTree {} .root) ∧
      reported [] [] = ["d", "f", "d/up"] ∧ reported [directory, link] [] = ["d", "d/up"] ∧
      reported [] [directory] = ["f"] ∧ reported [] [link] = ["d", "f"] :=
  have listable : linkedTree.isDirectory Path.root.steps := by decide
  ⟨listable, (finished_search_composes listable).2, by decide +kernel, by decide +kernel,
    by decide +kernel, by decide +kernel⟩

end Search

end Glob
