import Glob.Proofs.Schedule
import Glob.Proofs.Session

/-!
Searches whose matcher may break down. The search that stays out of what the matcher breaks down at
shows whether there is such an entry at all, and that decides how the search ends, whichever task
comes to it first and whatever is given up for it.
-/

namespace Glob

namespace Search

variable {tree : FileTree} {settings : Settings} {matcher : Matcher} {base : Path}
  {visit : Visit} {ancestors : List Location} {entries : List Entry}
  {calm trace emitted : Trace} {answers : List Poll}

/-- There is something to be asked about at which the matcher breaks down. -/
def BreaksDown (tree : FileTree) (settings : Settings) (matcher : Matcher) (base : Path) : Prop :=
  ∃ entry ∈ (explore tree settings matcher.calm base).offered, matcher.BreaksAt entry

theorem Matcher.Total.not_breaksDown (total : matcher.Total) :
    ¬BreaksDown tree settings matcher base :=
  fun ⟨entry, _, breaks⟩ => total.not_breaksAt entry breaks

theorem Matcher.exists_calm_iff {path : Path} {text : String} {motive : Verdict → Prop}
    (silent : ¬motive .prune) :
    (∃ verdict, matcher.calm path text = some verdict ∧ motive verdict) ↔
      ∃ verdict, matcher path text = some verdict ∧ motive verdict := by
  unfold calm
  cases matcher path text <;> simp [silent]

theorem admissible_calm_iff {names : List String} :
    Admissible tree settings matcher.calm visit names ↔
      Admissible tree settings matcher visit names := by
  have unpruned {path : Path} {text : String} :
      (∃ verdict, matcher.calm path text = some verdict ∧ verdict.prunes = false) ↔
        ∃ verdict, matcher path text = some verdict ∧ verdict.prunes = false :=
    Matcher.exists_calm_iff nofun
  constructor
  · intro admissible
    exact { admissible with
      unpruned := fun i first last => unpruned.mp (admissible.unpruned i first last) }
  · intro admissible
    exact { admissible with
      unpruned := fun i first last => unpruned.mpr (admissible.unpruned i first last) }

theorem Exact.of_calm (exact : Exact tree settings matcher.calm base trace) :
    Exact tree settings matcher base trace where
  offered_iff entry := by simpa only [admissible_calm_iff] using exact.offered_iff entry
  offered_once := exact.offered_once
  reported_iff entry := by
    rw [exact.reported_iff]
    exact and_congr_right fun _ => Matcher.exists_calm_iff nofun
  reported_once := exact.reported_once
  delivered := exact.delivered

/-- What is done with a matcher, next to what is done with the calm one: the same, unless there is
something to break down at. -/
inductive Follows (matcher : Matcher) (calm trace : Trace) : Prop where
  | brokenDown (breaks : ∃ entry ∈ calm.offered, matcher.BreaksAt entry)
      (ending : trace.ending = .brokenDown)
  | unbroken (never : ∀ entry ∈ calm.offered, ¬matcher.BreaksAt entry) (same : trace = calm)

theorem Follows.append {calmLater later : Trace} (first : Follows matcher calm trace)
    (second : Follows matcher calmLater later) (finished : calm.ending = .finished) :
    Follows matcher (calm.append calmLater) (trace.append later) := by
  cases first with
  | brokenDown breaks ending =>
      obtain ⟨entry, asked, breaks⟩ := breaks
      refine .brokenDown ⟨entry, List.mem_append_left _ asked, breaks⟩ ?_
      simp [Trace.append, ending]
  | unbroken never same =>
      subst same
      cases second with
      | brokenDown breaks ending =>
          obtain ⟨entry, asked, breaks⟩ := breaks
          refine .brokenDown ⟨entry, List.mem_append_right _ asked, breaks⟩ ?_
          simp [Trace.append, finished, ending]
      | unbroken neverLater same =>
          rw [same]
          exact .unbroken (List.forall_mem_append.mpr ⟨never, neverLater⟩) rfl

theorem ask_follows : Follows matcher (ask matcher.calm entries) (ask matcher entries) := by
  induction entries with
  | nil => exact .unbroken nofun rfl
  | cons entry rest ih =>
      cases asked : matcher entry.path entry.offeredText with
      | none =>
          refine .brokenDown ⟨entry, ?_, asked⟩ (by simp only [ask, asked])
          rw [ask_offered Matcher.calm_total]
          exact List.mem_cons_self
      | some verdict =>
          have calmly : matcher.calm entry.path entry.offeredText = some verdict := by
            simp [Matcher.calm, asked]
          simp only [ask, asked, calmly]
          refine Follows.append (.unbroken ?_ rfl) ih rfl
          simp [Matcher.BreaksAt, asked]

theorem walkBelow_follows (each : ∀ entry ∈ entries, descends matcher entry →
      (walk tree settings matcher.calm (entry.toVisit ancestors)).ending = .finished ∧
      Follows matcher (walk tree settings matcher.calm (entry.toVisit ancestors))
        (walk tree settings matcher (entry.toVisit ancestors))) :
    Follows matcher (.join (walkBelow tree settings matcher.calm ancestors entries))
      (.join (walkBelow tree settings matcher ancestors entries)) := by
  induction entries with
  | nil => exact .unbroken nofun rfl
  | cons entry rest ih =>
      obtain ⟨own, others⟩ := List.forall_mem_cons.mp each
      rw [walkBelow_cons, walkBelow_cons, descends_calm]
      split
      · obtain ⟨finished, follows⟩ := own ‹_›
        exact follows.append (ih others) finished
      · exact ih others

theorem walk_follows (directory : tree.isDirectory visit.path.steps) :
    Follows matcher (walk tree settings matcher.calm visit) (walk tree settings matcher visit) := by
  induction visit using walk_induction tree with
  | error visit error failed => exact absurd failed (enter_ne_error directory)
  | cycle visit closed =>
      rw [walk_of_cycle closed, walk_of_cycle closed]
      exact .unbroken nofun rfl
  | entered visit location entered ih =>
      rw [walk_eq_append Matcher.calm_total entered, walk_of_enter entered]
      split
      · refine ask_follows.append (walkBelow_follows ?_) (ask_finished Matcher.calm_total)
        intro entry listed descends
        have below := isDirectory_of_descends listed descends
        exact ⟨walk_finished Matcher.calm_total below, ih _ _ below⟩
      · -- The calm matcher is asked about every entry, so the other one has broken down at one.
        rename_i irregular
        have asked : Follows matcher (ask matcher.calm (list tree settings visit location))
            (ask matcher (list tree settings visit location)) :=
          ask_follows
        cases asked with
        | brokenDown breaks ending =>
            obtain ⟨entry, asked, breaks⟩ := breaks
            exact .brokenDown ⟨entry, List.mem_append_left _ asked, breaks⟩ ending
        | unbroken never same =>
            rw [same] at irregular
            exact absurd (ask_finished Matcher.calm_total) irregular

namespace Task

variable {task : Task}

theorem Unfailing.ending_ne_failed {ending : Ending} (unfailing : Unfailing tree task)
    (ended : task.ending? = some ending) (error : Error) : ending ≠ .failed error := by
  cases unfailing with
  | waiting | running => cases ended
  | finished =>
      cases ended
      exact nofun
  | stopped reason =>
      cases ended
      cases reason
      exact nofun

section

variable (run : Run tree settings matcher (.first base) emitted task)
  (listable : tree.isDirectory base.steps)

include run listable

theorem Run.unfailing : Unfailing tree task :=
  run.meets unfailing_kept (.waiting listable)

theorem Run.offered_subset :
    emitted.offered ⊆ (explore tree settings matcher.calm base).offered := by
  obtain ⟨lost, whole, _⟩ := run.exists_lost (.waiting listable)
  intro entry offered
  have member : entry ∈ (Task.first base).future tree settings matcher.calm := by
    rw [whole, add_assoc]
    exact Multiset.mem_add.mpr (.inl offered)
  exact member

theorem Run.broken_first_iff : Broken task ↔ ∃ entry ∈ emitted.offered, matcher.BreaksAt entry := by
  rw [run.broken_iff (.waiting listable)]
  exact or_iff_right not_broken_waiting

end

theorem Run.exact_calm (run : Run tree settings matcher (.first base) emitted .finished)
    (listable : tree.isDirectory base.steps) :
    ¬BreaksDown tree settings matcher base ∧ Exact tree settings matcher.calm base emitted := by
  have perm := run.offered_perm_calm listable
  constructor
  · rintro ⟨entry, asked, breaks⟩
    apply @not_broken_finished
    exact (run.broken_first_iff listable).mpr ⟨entry, perm.mem_iff.mpr asked, breaks⟩
  · apply exact_of_perm Matcher.calm_total perm _ run.ending
    rw [run.reported]
    exact List.filter_congr fun entry _ => isReported_calm.symm

end Task

theorem Session.Run.ends_or_breaks {final : Session}
    (run : Run tree settings matcher (.first base) emitted answers final)
    (listable : tree.isDirectory base.steps) (ended : final.stream.ended = true) :
    BreaksDown tree settings matcher base ∧ EndsAfter answers emitted.reported .brokenDown ∨
      ¬BreaksDown tree settings matcher base ∧ Exact tree settings matcher base emitted ∧
        EndsAfter answers emitted.reported .finished := by
  have tasks : Task.Run tree settings matcher (.first base) emitted final.task := run.task
  have unfailing := tasks.unfailing listable
  obtain ⟨ending, early, late, stopped, same, ends, complete⟩ := run.exists_ending ended
  obtain ⟨past, rfl⟩ := complete (unfailing.ending_ne_failed stopped)
  rw [List.append_nil] at same
  rw [same]
  rcases unfailing.eq_of_isOver past with finished | ⟨irregular, broken⟩
  · rw [finished] at tasks stopped
    cases stopped
    obtain ⟨unbroken, exact⟩ := tasks.exact_calm listable
    exact .inr ⟨unbroken, exact.of_calm, ends⟩
  · rw [broken] at tasks stopped
    cases stopped
    obtain ⟨entry, offered, breaks⟩ := (tasks.broken_first_iff listable).mp .stopped
    exact .inl ⟨⟨entry, tasks.offered_subset listable offered, breaks⟩, ends⟩

/-- Whatever tasks run when, and in whatever order directories list what they hold, a search from a
directory breaks down if and only if the matcher breaks down at something that would be asked about
if the search stayed out of all such entries. Otherwise it delivers all that the matcher wants and
ends as it should. -/
theorem breaks_down_iff_asked (listable : tree.isDirectory base.steps) :
    ((explore tree settings matcher base).toStream.collect = .brokenDown ↔
      BreaksDown tree settings matcher base) ∧
    (¬BreaksDown tree settings matcher base → Exact tree settings matcher base
      (explore tree settings matcher base)) ∧
    (∀ emitted answers session,
      Session.Run tree settings matcher (.first base) emitted answers session →
      session.stream.ended = true →
        (.brokenDown ∈ answers ↔ BreaksDown tree settings matcher base) ∧
        (BreaksDown tree settings matcher base →
          EndsAfter answers emitted.reported .brokenDown) ∧
        (¬BreaksDown tree settings matcher base → Exact tree settings matcher base emitted ∧
          EndsAfter answers emitted.reported .finished)) ∧
    Session.Ends tree settings matcher base := by
  have follows : Follows matcher (explore tree settings matcher.calm base)
      (explore tree settings matcher base) :=
    walk_follows listable
  refine ⟨?_, ?_, ?_, Session.ends tree settings matcher base⟩
  · cases follows with
    | brokenDown breaks ending => exact iff_of_true (collect_of_brokenDown ending) breaks
    | unbroken never same =>
        rw [same, (explore_exact Matcher.calm_total listable).delivered]
        exact iff_of_false nofun fun ⟨entry, asked, breaks⟩ => never entry asked breaks
  · intro unbroken
    cases follows with
    | brokenDown breaks ending => exact absurd breaks unbroken
    | unbroken never same =>
        rw [same]
        exact (explore_exact Matcher.calm_total listable).of_calm
  · intro emitted answers session run ended
    rcases run.ends_or_breaks listable ended with ⟨breaks, ends⟩ | ⟨unbroken, exact, ends⟩
    · refine ⟨?_, fun _ => ends, fun unbroken => absurd breaks unbroken⟩
      exact iff_of_true (ends.brokenDown_mem_iff.mpr rfl) breaks
    · refine ⟨?_, fun breaks => absurd breaks unbroken, fun _ => ⟨exact, ends⟩⟩
      rw [ends.brokenDown_mem_iff]
      exact iff_of_false nofun unbroken

/-- Two tasks come to something that the matcher breaks down at, and neither has to come first. -/
theorem breaks_down_iff_asked_twice :
    let tree : FileTree :=
      { nodes := [(["a"], .directory), (["a", "x"], .file 0), (["b"], .directory),
          (["b", "x"], .file 0)]
        distinct := by decide
        named := by decide }
    let matcher : Matcher := fun _ text =>
      if text = "a/x" ∨ text = "b/x" then none else some .accept
    tree.isDirectory Path.root.steps ∧ BreaksDown tree {} matcher .root ∧
      (explore tree {} matcher .root).toStream.collect = .brokenDown ∧
      ∃ emitted answers session,
        Session.Run tree {} matcher (.first .root) emitted answers session ∧
          EndsAfter answers emitted.reported .brokenDown := by
  intro tree matcher
  have listable : tree.isDirectory Path.root.steps := by decide
  have breaks : BreaksDown tree {} matcher .root := by
    show ∃ entry ∈ (explore tree {} matcher.calm .root).offered,
      matcher entry.path entry.offeredText = none
    decide +kernel
  obtain ⟨walked, _, ended, ends⟩ := @breaks_down_iff_asked tree {} matcher .root listable
  obtain ⟨emitted, answers, session, run, final⟩ := ends.reaches {} [] _ (.refl _)
  exact ⟨listable, breaks, walked.mpr breaks, emitted, answers, session, run,
    (ended emitted answers session run final).2.1 breaks⟩

end Search

end Glob
