import Glob.Proofs.Admissible

/-! What a walk asks its matcher about when the matcher never breaks down. -/

namespace Glob

namespace Search

/-- The matcher never breaks down. -/
def Matcher.Total (matcher : Matcher) : Prop :=
  ∀ path text, (matcher path text).isSome

def isReported (matcher : Matcher) (entry : Entry) : Bool :=
  (matcher entry.path entry.offeredText).any (·.reports)

variable {tree : FileTree} {settings : Settings} {matcher : Matcher} {visit : Visit}
  {location : Location} {entry : Entry} {entries : List Entry} {traces : List Trace}

namespace Trace

@[simp]
theorem append_offered (left right : Trace) :
    (left.append right).offered = left.offered ++ right.offered :=
  rfl

@[simp]
theorem append_reported (left right : Trace) :
    (left.append right).reported = left.reported ++ right.reported :=
  rfl

theorem append_nil (trace : Trace) : trace.append {} = trace := by
  have same : (if trace.ending = .finished then .finished else trace.ending) = trace.ending := by
    split <;> simp_all
  rw [append, same, List.append_nil, List.append_nil]

theorem append_assoc (first second third : Trace) :
    (first.append second).append third = first.append (second.append third) := by
  unfold append
  by_cases finished : first.ending = .finished <;> simp [finished]

theorem append_finished (left right : Trace) : (left.append right).ending = .finished ↔
    left.ending = .finished ∧ right.ending = .finished := by
  unfold append
  by_cases first : left.ending = .finished <;> simp [first]

theorem join_offered : (join traces).offered = traces.flatMap (·.offered) := by
  induction traces with
  | nil => rfl
  | cons first rest ih => exact congrArg (first.offered ++ ·) ih

theorem join_reported : (join traces).reported = traces.flatMap (·.reported) := by
  induction traces with
  | nil => rfl
  | cons first rest ih => exact congrArg (first.reported ++ ·) ih

theorem join_finished : (join traces).ending = .finished ↔
    ∀ trace ∈ traces, trace.ending = .finished := by
  induction traces with
  | nil => simp [join]
  | cons first rest ih =>
      rw [List.forall_mem_cons, ← ih]
      exact append_finished first (join rest)

end Trace

theorem Matcher.Total.exists_verdict (total : matcher.Total) (entry : Entry) :
    ∃ verdict, matcher entry.path entry.offeredText = some verdict :=
  Option.isSome_iff_exists.mp (total entry.path entry.offeredText)

theorem ask_offered (total : matcher.Total) : (ask matcher entries).offered = entries := by
  induction entries with
  | nil => rfl
  | cons entry rest ih =>
      obtain ⟨verdict, asked⟩ := total.exists_verdict entry
      simp only [ask, asked, Trace.append_offered, ih, List.singleton_append]

theorem ask_finished (total : matcher.Total) : (ask matcher entries).ending = .finished := by
  induction entries with
  | nil => rfl
  | cons entry rest ih =>
      obtain ⟨verdict, asked⟩ := total.exists_verdict entry
      simp only [ask, asked, Trace.append_finished, ih, and_self]

theorem ask_reported :
    (ask matcher entries).reported = (ask matcher entries).offered.filter (isReported matcher) := by
  induction entries with
  | nil => rfl
  | cons entry rest ih =>
      cases asked : matcher entry.path entry.offeredText with
      | none => simp [ask, asked, isReported]
      | some verdict =>
          have same : isReported matcher entry = verdict.reports := by simp [isReported, asked]
          simp only [ask, asked, Trace.append_reported, Trace.append_offered, ih,
            List.filter_append, List.filter_singleton, same, Bool.cond_eq_ite]

theorem walk_of_error {error : Error} (failed : enter tree visit = .error error) :
    walk tree settings matcher visit = { ending := .failed error } := by
  rw [walk]
  split <;> simp_all

theorem walk_of_cycle (closed : enter tree visit = .ok none) :
    walk tree settings matcher visit = {} := by
  rw [walk]
  split <;> simp_all

def Entry.toVisit (entry : Entry) (ancestors : List Location) : Visit :=
  ⟨entry.path, entry.relative, ancestors⟩

def walkBelow (tree : FileTree) (settings : Settings) (matcher : Matcher)
    (ancestors : List Location) (entries : List Entry) : List Trace :=
  (entries.filter (descends matcher)).map fun entry =>
    walk tree settings matcher (entry.toVisit ancestors)

theorem walk_of_enter (entered : enter tree visit = .ok (some location)) :
    walk tree settings matcher visit =
      if (ask matcher (list tree settings visit location)).ending = .finished then
        (ask matcher (list tree settings visit location)).append (.join
          (walkBelow tree settings matcher (location :: visit.ancestors)
            (list tree settings visit location)))
      else ask matcher (list tree settings visit location) := by
  rw [walk]
  split
  · simp_all
  · simp_all
  · rename_i found
    obtain rfl := enter_unique found entered
    simp only [walkBelow, Entry.toVisit]

theorem walk_eq_append (total : matcher.Total) (entered : enter tree visit = .ok (some location)) :
    walk tree settings matcher visit =
      (ask matcher (list tree settings visit location)).append (.join
        (walkBelow tree settings matcher (location :: visit.ancestors)
          (list tree settings visit location))) := by
  rw [walk_of_enter entered, if_pos (ask_finished total)]

/-- What holds of a walk holds by induction on the directories that are left for it. -/
theorem walk_induction (tree : FileTree) {motive : Visit → Prop}
    (error : ∀ visit error, enter tree visit = .error error → motive visit)
    (cycle : ∀ visit, enter tree visit = .ok none → motive visit)
    (entered : ∀ visit location, enter tree visit = .ok (some location) →
      (∀ path relative, motive ⟨path, relative, location :: visit.ancestors⟩) → motive visit)
    (visit : Visit) : motive visit := by
  induction measured : remaining tree visit.ancestors using Nat.strongRecOn generalizing visit with
  | ind bound ih =>
      cases found : enter tree visit with
      | error failure => exact error visit failure found
      | ok location? =>
          cases location? with
          | none => exact cycle visit found
          | some location =>
              apply entered visit location found
              intro path relative
              exact ih _ (measured ▸ remaining_lt_of_enter found) _ rfl

theorem mem_list_iff : entry ∈ list tree settings visit location ↔
    ∃ name ∈ tree.names location, (settings.skipHidden → ¬isHidden name) ∧
      entry = entryAt tree settings visit [name] := by
  have shown (name : String) : !(settings.skipHidden && isHidden name) ↔
      (settings.skipHidden → ¬isHidden name) := by
    cases settings.skipHidden <;> simp
  constructor
  · intro member
    obtain ⟨name, kept, same⟩ := List.mem_map.mp member
    obtain ⟨present, visible⟩ := List.mem_filter.mp kept
    exact ⟨name, present, (shown name).mp visible, same.symm⟩
  · intro ⟨name, present, visible, same⟩
    apply List.mem_map.mpr
    exact ⟨name, List.mem_filter.mpr ⟨present, (shown name).mpr visible⟩, same.symm⟩

theorem entryAt_cons {name : String} {names : List String} :
    entryAt tree settings visit (name :: names) =
      entryAt tree settings (visit.below location name) names := by
  simp [entryAt, Visit.below]

theorem mem_walkBelow_iff {ancestors : List Location} {trace : Trace} :
    trace ∈ walkBelow tree settings matcher ancestors entries ↔
      ∃ entry ∈ entries, descends matcher entry ∧
        walk tree settings matcher (entry.toVisit ancestors) = trace := by
  simp only [walkBelow, List.mem_map, List.mem_filter, and_assoc]

theorem mem_walk_offered (total : matcher.Total) :
    entry ∈ (walk tree settings matcher visit).offered ↔
      ∃ names, Admissible tree settings matcher visit names ∧
        entry = entryAt tree settings visit names := by
  induction visit using walk_induction tree with
  | error visit error failed =>
      rw [walk_of_error failed]
      constructor
      · intro member
        cases member
      · intro ⟨names, admissible, _⟩
        obtain ⟨location, entered⟩ := admissible.enters_visit
        cases failed.symm.trans entered
  | cycle visit closed =>
      rw [walk_of_cycle closed]
      constructor
      · intro member
        cases member
      · intro ⟨names, admissible, _⟩
        obtain ⟨location, entered⟩ := admissible.enters_visit
        cases closed.symm.trans entered
  -- The first name is that of an entry here, and the names after it are a path below that entry.
  | entered visit location entered ih =>
      rw [walk_eq_append total entered, Trace.append_offered, Trace.join_offered,
        ask_offered total, List.mem_append]
      constructor
      · intro member
        rcases member with here | below
        · obtain ⟨name, present, visible, same⟩ := mem_list_iff.mp here
          exact ⟨[name], .single entered present visible, same⟩
        · obtain ⟨trace, walked, inside⟩ := List.mem_flatMap.mp below
          obtain ⟨parent, listed, descends, rfl⟩ := mem_walkBelow_iff.mp walked
          obtain ⟨name, present, visible, rfl⟩ := mem_list_iff.mp listed
          obtain ⟨rest, admissible, same⟩ := (ih _ _).mp inside
          exact ⟨name :: rest, .cons entered present visible descends admissible,
            same.trans entryAt_cons.symm⟩
      · intro ⟨names, admissible, same⟩
        cases names with
        | nil => exact absurd rfl admissible.nonempty
        | cons name rest =>
            obtain ⟨place, again, present, visible, rests⟩ := admissible_cons_iff.mp admissible
            obtain rfl := enter_unique again entered
            have listed : entryAt tree settings visit [name] ∈ list tree settings visit place :=
              mem_list_iff.mpr ⟨name, present, visible, rfl⟩
            rcases rests with last | ⟨descends, below⟩
            · rw [same, last]
              exact .inl listed
            · right
              apply List.mem_flatMap.mpr
              refine ⟨_, mem_walkBelow_iff.mpr ⟨_, listed, descends, rfl⟩, ?_⟩
              exact (ih _ _).mpr ⟨rest, below, same.trans entryAt_cons⟩

theorem relative_of_mem_walk (total : matcher.Total)
    (member : entry ∈ (walk tree settings matcher visit).offered) :
    ∃ names, names ≠ [] ∧ entry.relative = visit.relative ++ names := by
  obtain ⟨names, admissible, same⟩ := (mem_walk_offered total).mp member
  exact ⟨names, admissible.nonempty, congrArg Entry.relative same⟩

theorem relative_of_mem_list (member : entry ∈ list tree settings visit location) :
    ∃ name, entry.relative = visit.relative ++ [name] := by
  obtain ⟨name, _, _, same⟩ := mem_list_iff.mp member
  exact ⟨name, congrArg Entry.relative same⟩

theorem list_relative_nodup : ((list tree settings visit location).map (·.relative)).Nodup := by
  unfold list
  rw [List.map_map]
  apply List.Nodup.map _ (FileTree.names_nodup.filter _)
  intro left right same
  exact List.singleton_inj.mp (List.append_cancel_left same)

theorem relative_inj_of_mem_list {left right : Entry} {leftNames rightNames : List String}
    (leftListed : left ∈ list tree settings visit location)
    (rightListed : right ∈ list tree settings visit location)
    (same : left.relative ++ leftNames = right.relative ++ rightNames) :
    left.relative = right.relative := by
  obtain ⟨leftName, leftSame⟩ := relative_of_mem_list leftListed
  obtain ⟨rightName, rightSame⟩ := relative_of_mem_list rightListed
  apply List.append_inj_left same
  rw [leftSame, rightSame, List.length_append, List.length_append]
  rfl

theorem walkBelow_relative_nodup {ancestors : List Location} (total : matcher.Total)
    (each : ∀ entry : Entry, ((walk tree settings matcher (entry.toVisit ancestors)).offered.map
      (·.relative)).Nodup) :
    (((walkBelow tree settings matcher ancestors (list tree settings visit location)).flatMap
      (·.offered)).map (·.relative)).Nodup := by
  rw [List.map_flatMap, List.nodup_flatMap]
  constructor
  · intro trace walked
    obtain ⟨entry, _, _, rfl⟩ := mem_walkBelow_iff.mp walked
    exact each entry
  · have apart : (list tree settings visit location).Pairwise
        fun left right => left.relative ≠ right.relative :=
      List.pairwise_map.mp list_relative_nodup
    apply List.pairwise_map.mpr
    apply (apart.filter (descends matcher)).imp_of_mem
    intro left right leftKept rightKept differ
    apply List.disjoint_left.mpr
    intro relative leftMember rightMember
    obtain ⟨leftEntry, leftWalked, leftSame⟩ := List.mem_map.mp leftMember
    obtain ⟨rightEntry, rightWalked, rightSame⟩ := List.mem_map.mp rightMember
    obtain ⟨leftNames, _, leftPath⟩ := relative_of_mem_walk total leftWalked
    obtain ⟨rightNames, _, rightPath⟩ := relative_of_mem_walk total rightWalked
    apply differ
    apply relative_inj_of_mem_list (List.mem_filter.mp leftKept).1 (List.mem_filter.mp rightKept).1
    calc
      left.relative ++ leftNames = leftEntry.relative := leftPath.symm
      _ = rightEntry.relative := by rw [leftSame, rightSame]
      _ = right.relative ++ rightNames := rightPath

theorem walk_relative_nodup (total : matcher.Total) :
    ((walk tree settings matcher visit).offered.map (·.relative)).Nodup := by
  induction visit using walk_induction tree with
  | error visit error failed =>
      rw [walk_of_error failed]
      exact List.nodup_nil
  | cycle visit closed =>
      rw [walk_of_cycle closed]
      exact List.nodup_nil
  | entered visit location entered ih =>
      rw [walk_eq_append total entered, Trace.append_offered, Trace.join_offered,
        ask_offered total, List.map_append, List.nodup_append]
      refine ⟨list_relative_nodup, walkBelow_relative_nodup total fun entry => ih _ _, ?_⟩
      intro here listed below walked same
      obtain ⟨entry, member, rfl⟩ := List.mem_map.mp listed
      obtain ⟨deeper, inside, rfl⟩ := List.mem_map.mp walked
      obtain ⟨trace, visited, asked⟩ := List.mem_flatMap.mp inside
      obtain ⟨parent, parentListed, _, rfl⟩ := mem_walkBelow_iff.mp visited
      obtain ⟨names, more, path⟩ := relative_of_mem_walk total asked
      have top : entry.relative ++ [] = parent.relative ++ names := by
        rw [List.append_nil]
        exact same.trans path
      have equal := relative_inj_of_mem_list member parentListed top
      rw [equal] at top
      exact more (List.append_cancel_left top).symm

theorem walk_reported : (walk tree settings matcher visit).reported =
    (walk tree settings matcher visit).offered.filter (isReported matcher) := by
  induction visit using walk_induction tree with
  | error visit error failed =>
      rw [walk_of_error failed]
      rfl
  | cycle visit closed =>
      rw [walk_of_cycle closed]
      rfl
  | entered visit location entered ih =>
      rw [walk_of_enter entered]
      split
      · rw [Trace.append_reported, Trace.append_offered, Trace.join_reported, Trace.join_offered,
          List.filter_append, ask_reported, List.filter_flatMap]
        congr 1
        apply List.flatMap_congr
        intro trace walked
        obtain ⟨entry, _, _, rfl⟩ := mem_walkBelow_iff.mp walked
        exact ih _ _
      · exact ask_reported

theorem isDirectory_of_descends (listed : entry ∈ list tree settings visit location)
    (descends : descends matcher entry) : tree.isDirectory entry.path.steps := by
  obtain ⟨name, _, _, rfl⟩ := mem_list_iff.mp listed
  exact (descends_iff.mp descends).1

theorem walk_finished (total : matcher.Total) (directory : tree.isDirectory visit.path.steps) :
    (walk tree settings matcher visit).ending = .finished := by
  induction visit using walk_induction tree with
  | error visit error failed =>
      obtain ⟨location?, entered⟩ := exists_enter directory
      cases failed.symm.trans entered
  | cycle visit closed =>
      rw [walk_of_cycle closed]
  | entered visit location entered ih =>
      rw [walk_eq_append total entered, Trace.append_finished, Trace.join_finished]
      refine ⟨ask_finished total, ?_⟩
      intro trace walked
      obtain ⟨entry, listed, descends, rfl⟩ := mem_walkBelow_iff.mp walked
      exact ih _ _ (isDirectory_of_descends listed descends)

end Search

end Glob
