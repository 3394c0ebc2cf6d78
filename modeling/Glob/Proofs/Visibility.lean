import Glob.Proofs.Schedule

/-!
What the settings of a search change. Leaving out hidden entries while directories are listed comes
to leaving them out of the result, and metadata are all that reading metadata adds.
-/

namespace Glob

namespace Search

variable {tree : FileTree} {settings other : Settings} {matcher : Matcher} {base : Path}
  {visit : Visit} {entry : Entry} {names : List String} {trace hidden shown read unread : Trace}

namespace Entry

/-- No part of the relative path, as it is written, begins with a period. -/
def isVisible (entry : Entry) : Bool :=
  (entry.relativeText.toList.splitOn '/').all fun part => part.head? != some '.'

def withoutMetadata (entry : Entry) : Entry :=
  { entry with metadata := none }

theorem nodup_withoutMetadata {entries : List Entry}
    (once : (entries.map relativeText).Nodup) : (entries.map withoutMetadata).Nodup := by
  apply List.Nodup.of_map relativeText
  rw [List.map_map]
  exact once

end Entry

theorem isReported_withoutMetadata (entry : Entry) :
    isReported matcher entry.withoutMetadata = isReported matcher entry :=
  rfl

theorem isVisible_entryAt (nonempty : names ≠ []) (proper : ∀ name ∈ names, isName name) :
    (entryAt tree settings (.first base) names).isVisible ↔ ∀ name ∈ names, ¬isHidden name := by
  have parts : (entryAt tree settings (.first base) names).relativeText.toList.splitOn '/' =
      names.map String.toList :=
    splitOn_intercalate_names nonempty proper
  rw [Entry.isVisible, parts]
  simp [isHidden]

theorem entryAt_withoutMetadata (skip : Bool) :
    (entryAt tree ⟨skip, true⟩ visit names).withoutMetadata =
      entryAt tree ⟨skip, false⟩ visit names :=
  rfl

theorem Admissible.under (admissible : Admissible tree settings matcher visit names)
    (visible : other.skipHidden → ∀ name ∈ names, ¬isHidden name) :
    Admissible tree other matcher visit names :=
  { admissible with visible }

theorem admissible_skipping_iff {withMetadata : Bool} :
    Admissible tree ⟨true, withMetadata⟩ matcher visit names ↔
      Admissible tree ⟨false, withMetadata⟩ matcher visit names ∧
        ∀ name ∈ names, ¬isHidden name := by
  constructor
  · intro admissible
    exact ⟨admissible.under fun skips => absurd skips Bool.false_ne_true, admissible.visible rfl⟩
  · rintro ⟨admissible, visible⟩
    exact admissible.under fun _ => visible

theorem Exact.offered_nodup (exact : Exact tree settings matcher base trace) :
    trace.offered.Nodup :=
  exact.offered_once.of_map

theorem Exact.reported_nodup (exact : Exact tree settings matcher base trace) :
    trace.reported.Nodup :=
  exact.reported_once.of_map

theorem Exact.mem_reported_iff (exact : Exact tree settings matcher base trace) :
    entry ∈ trace.reported ↔ entry ∈ trace.offered ∧ isReported matcher entry := by
  rw [exact.reported_iff, isReported_iff]

section

variable {withMetadata : Bool} (skipping : Exact tree ⟨true, withMetadata⟩ matcher base hidden)
  (whole : Exact tree ⟨false, withMetadata⟩ matcher base shown)

include skipping whole

theorem mem_offered_skipping_iff :
    entry ∈ hidden.offered ↔ entry ∈ shown.offered ∧ entry.isVisible := by
  rw [skipping.offered_iff, whole.offered_iff]
  constructor
  · rintro ⟨names, admissible, rfl⟩
    obtain ⟨plain, visible⟩ := admissible_skipping_iff.mp admissible
    have proper : ∀ name ∈ names, isName name := fun _ => plain.isName_of_mem
    exact ⟨⟨names, plain, rfl⟩, (isVisible_entryAt plain.nonempty proper).mpr visible⟩
  · rintro ⟨⟨names, plain, rfl⟩, shown⟩
    have proper : ∀ name ∈ names, isName name := fun _ => plain.isName_of_mem
    have visible := (isVisible_entryAt plain.nonempty proper).mp shown
    exact ⟨names, admissible_skipping_iff.mpr ⟨plain, visible⟩, rfl⟩

theorem offered_skipping_perm : hidden.offered.Perm (shown.offered.filter (·.isVisible)) := by
  apply (List.perm_ext_iff_of_nodup skipping.offered_nodup (whole.offered_nodup.filter _)).mpr
  intro entry
  rw [mem_offered_skipping_iff skipping whole, List.mem_filter]

theorem reported_skipping_perm : hidden.reported.Perm (shown.reported.filter (·.isVisible)) := by
  apply (List.perm_ext_iff_of_nodup skipping.reported_nodup (whole.reported_nodup.filter _)).mpr
  intro entry
  rw [skipping.mem_reported_iff, mem_offered_skipping_iff skipping whole, List.mem_filter,
    whole.mem_reported_iff, and_right_comm]

end

section

variable {skipHidden : Bool} (reading : Exact tree ⟨skipHidden, true⟩ matcher base read)
  (bare : Exact tree ⟨skipHidden, false⟩ matcher base unread)

include reading bare

theorem mem_offered_withoutMetadata_iff :
    entry ∈ read.offered.map Entry.withoutMetadata ↔ entry ∈ unread.offered := by
  rw [List.mem_map, bare.offered_iff]
  constructor
  · rintro ⟨filled, offered, rfl⟩
    obtain ⟨names, admissible, rfl⟩ := (reading.offered_iff filled).mp offered
    exact ⟨names, admissible.under admissible.visible, entryAt_withoutMetadata skipHidden⟩
  · rintro ⟨names, admissible, rfl⟩
    refine ⟨entryAt tree ⟨skipHidden, true⟩ (.first base) names, ?_,
      entryAt_withoutMetadata skipHidden⟩
    exact (reading.offered_iff _).mpr ⟨names, admissible.under admissible.visible, rfl⟩

theorem offered_withoutMetadata_perm :
    (read.offered.map Entry.withoutMetadata).Perm unread.offered := by
  have once := Entry.nodup_withoutMetadata reading.offered_once
  apply (List.perm_ext_iff_of_nodup once bare.offered_nodup).mpr
  intro entry
  exact mem_offered_withoutMetadata_iff reading bare

theorem reported_withoutMetadata_perm :
    (read.reported.map Entry.withoutMetadata).Perm unread.reported := by
  have once := Entry.nodup_withoutMetadata reading.reported_once
  apply (List.perm_ext_iff_of_nodup once bare.reported_nodup).mpr
  intro entry
  rw [bare.mem_reported_iff, ← mem_offered_withoutMetadata_iff reading bare, List.mem_map,
    List.mem_map]
  constructor
  · rintro ⟨filled, reported, rfl⟩
    obtain ⟨offered, wanted⟩ := reading.mem_reported_iff.mp reported
    exact ⟨⟨filled, offered, rfl⟩, isReported_withoutMetadata filled ▸ wanted⟩
  · rintro ⟨⟨filled, offered, rfl⟩, wanted⟩
    exact ⟨filled, reading.mem_reported_iff.mpr
      ⟨offered, isReported_withoutMetadata filled ▸ wanted⟩, rfl⟩

end

/-- What a search of a directory asks about and reports when it is finished, whatever its tasks did
when: it can always be finished, with hidden entries left out it is the same without these, and
metadata read along change nothing else. -/
theorem settings_only_filter (listable : tree.isDirectory base.steps) (total : matcher.Total) :
    (∀ settings, ∃ emitted, Task.Run tree settings matcher (.first base) emitted .finished ∧
      emitted.toStream.collect = .entries emitted.reported) ∧
    (∀ withMetadata hidden shown,
      Task.Run tree ⟨true, withMetadata⟩ matcher (.first base) hidden .finished →
      Task.Run tree ⟨false, withMetadata⟩ matcher (.first base) shown .finished →
        hidden.offered.Perm (shown.offered.filter (·.isVisible)) ∧
          hidden.reported.Perm (shown.reported.filter (·.isVisible))) ∧
    ∀ skipHidden read unread,
      Task.Run tree ⟨skipHidden, true⟩ matcher (.first base) read .finished →
      Task.Run tree ⟨skipHidden, false⟩ matcher (.first base) unread .finished →
        (read.offered.map Entry.withoutMetadata).Perm unread.offered ∧
          (read.reported.map Entry.withoutMetadata).Perm unread.reported := by
  refine ⟨?_, ?_, ?_⟩
  · intro settings
    have sound : Task.Sound tree (.first base) := .waiting listable
    obtain ⟨emitted, run⟩ := sound.exists_run_finished total
    exact ⟨emitted, run, (run.exact total listable).delivered⟩
  · intro withMetadata hidden shown skipping whole
    have first := skipping.exact total listable
    have second := whole.exact total listable
    exact ⟨offered_skipping_perm first second, reported_skipping_perm first second⟩
  · intro skipHidden read unread reading bare
    have first := reading.exact total listable
    have second := bare.exact total listable
    exact ⟨offered_withoutMetadata_perm first second, reported_withoutMetadata_perm first second⟩

def partlyHiddenTree : FileTree where
  nodes := [([".h"], .directory), ([".h", "a"], .file 1), ([".h", "down"], .link ["v"]),
    (["v"], .directory), (["v", ".x"], .file 2), (["v", "up"], .link [".h"])]
  distinct := by decide
  named := by decide

/-- What is in the hidden directory is reported where a link with a visible name leads to it. -/
theorem settings_only_filter_linked :
    let matcher : Matcher := fun _ _ => some .accept
    let reported (skipHidden : Bool) : List String :=
      (explore partlyHiddenTree ⟨skipHidden, false⟩ matcher .root).reported.map (·.relativeText)
    partlyHiddenTree.isDirectory Path.root.steps ∧ matcher.Total ∧
      (∀ hidden shown,
        Task.Run partlyHiddenTree ⟨true, false⟩ matcher (.first .root) hidden .finished →
        Task.Run partlyHiddenTree ⟨false, false⟩ matcher (.first .root) shown .finished →
          hidden.offered.Perm (shown.offered.filter (·.isVisible)) ∧
            hidden.reported.Perm (shown.reported.filter (·.isVisible))) ∧
      reported false = [".h", "v", ".h/a", ".h/down", ".h/down/.x", ".h/down/up", "v/.x", "v/up",
        "v/up/a", "v/up/down"] ∧
      reported true = ["v", "v/up", "v/up/a", "v/up/down"] := by
  have listable : partlyHiddenTree.isDirectory Path.root.steps := by decide
  have total : Matcher.Total fun _ _ => some .accept := fun _ _ => rfl
  refine ⟨listable, total, ?_, by decide +kernel, by decide +kernel⟩
  exact (settings_only_filter listable total).2.1 false

end Search

end Glob
