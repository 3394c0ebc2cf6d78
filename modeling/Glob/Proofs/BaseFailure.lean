import Glob.Proofs.BreakDown
import Glob.Proofs.Reachable

/-!
Where searches fail. What was found to be a directory can be listed and located, so that only the
path that a search starts from can be one that it fails at. Links that lead nowhere are entries like
others, and are not taken for directories.
-/

namespace Glob

namespace FileTree

/-- A link that dangles, or one that goes round in a circle. -/
def IsDeadLink (tree : FileTree) (location : Location) : Prop :=
  ∃ target, tree.node? location = some (.link target) ∧ ∀ there, ¬tree.LeadsTo [] target there

theorem isDeadLink_self {tree : FileTree} {name : String} (proper : name ∉ ["", ".", ".."])
    (short : name.utf8ByteSize ≤ longestName) (found : tree.node? [name] = some (.link [name])) :
    tree.IsDeadLink [name] := by
  refine ⟨[name], found, ?_⟩
  intro there leads
  have again (jump : List String → Except PathError Location) :
      tree.follow jump [] [name] = jump [name] := by
    rw [follow_link rfl proper short found, List.append_nil]
  have never (links : Nat) : tree.resolveWithin links [name] ≠ .ok there := by
    induction links with
    | zero =>
        rw [resolveWithin, again]
        exact nofun
    | succ links ih =>
        rw [resolveWithin, again]
        exact ih
  obtain ⟨links, followed⟩ := leadsTo_iff.mp leads
  rw [again] at followed
  exact never links followed

end FileTree

namespace Search

variable {tree : FileTree} {settings : Settings} {matcher : Matcher} {base : Path}
  {visit : Visit} {location : Location} {name : String} {emitted trace : Trace}
  {answers : List Poll} {error : Error} {reason : PathError}

theorem enter_first_of_error (unlisted : tree.directory? base.steps = .error reason) :
    enter tree (.first base) = .error (.unreadable base reason) := by
  simp only [enter, Visit.first, unlisted]

theorem explore_failed (unlisted : tree.directory? base.steps = .error reason) :
    (explore tree settings matcher base).ending = .failed (.unreadable base reason) := by
  rw [explore, walk_of_error (enter_first_of_error unlisted)]

def OffersDeadLinks (tree : FileTree) (settings : Settings) (matcher : Matcher) (base : Path)
    (trace : Trace) : Prop :=
  ∀ visit location name, Visits tree settings matcher (.first base) visit →
    enter tree visit = .ok (some location) → name ∈ tree.names location →
      (settings.skipHidden → ¬isHidden name) →
        (tree.IsDeadLink (location ++ [name]) ∨
          ∃ reason, tree.resolve (visit.path.join name).steps = .error reason) →
          entryAt tree settings visit [name] ∈ trace.offered ∧
            (entryAt tree settings visit [name]).isDirectory = false

theorem resolve_of_isDeadLink (entered : enter tree visit = .ok (some location))
    (present : name ∈ tree.names location) (dead : tree.IsDeadLink (location ++ [name])) :
    ∃ reason, tree.resolve (visit.path.join name).steps = .error reason := by
  obtain ⟨target, linked, nowhere⟩ := dead
  have proper : name ∉ ["", ".", ".."] := by
    have named := FileTree.isName_of_mem_names present
    simp only [isName, Bool.and_eq_true, decide_eq_true_eq] at named
    exact named.1
  cases resolved : tree.resolve (visit.path.join name).steps with
  | error reason => exact ⟨reason, rfl⟩
  | ok there =>
      have way := FileTree.leadsTo_of_resolve (resolve_of_enter entered)
      have onward := FileTree.LeadsTo.of_join way (FileTree.leadsTo_of_resolve resolved)
      have reached := onward.of_link proper linked
      rw [List.append_nil] at reached
      exact absurd reached (nowhere there)

theorem not_isDirectory_of_error
    (unresolved : tree.resolve (visit.path.join name).steps = .error reason) :
    (entryAt tree settings visit [name]).isDirectory = false := by
  have lost : tree.directory? (visit.path.join name).steps = .error reason := by
    simp only [FileTree.directory?, unresolved]
  simp [entryAt, FileTree.isDirectory, lost, Except.isOk, Except.toBool]

theorem explore_offersDeadLinks (total : matcher.Total) :
    OffersDeadLinks tree settings matcher base (explore tree settings matcher base) := by
  intro visit location name visits entered present visible dead
  have listed : entryAt tree settings visit [name] ∈ list tree settings visit location :=
    mem_list_iff.mpr ⟨name, present, visible, rfl⟩
  have unresolved : ∃ reason, tree.resolve (visit.path.join name).steps = .error reason :=
    dead.elim (resolve_of_isDeadLink entered present) id
  obtain ⟨reason, unresolved⟩ := unresolved
  exact ⟨visits.mem_offered total entered listed, not_isDirectory_of_error unresolved⟩

theorem Exact.offersDeadLinks (exact : Exact tree settings matcher base trace)
    (total : matcher.Total) : OffersDeadLinks tree settings matcher base trace := by
  intro visit location name visits entered present visible dead
  obtain ⟨offered, plain⟩ :=
    explore_offersDeadLinks total visit location name visits entered present visible dead
  refine ⟨?_, plain⟩
  rw [exact.offered_iff, ← mem_walk_offered total]
  exact offered

namespace Task

variable {task next : Task}

theorem Run.eq_of_isOver (run : Run tree settings matcher task emitted next)
    (past : task.isOver) : next = task ∧ emitted = {} := by
  cases run with
  | refl => exact ⟨rfl, rfl⟩
  | step first rest => cases past.symm.trans first.not_isOver

theorem Run.failed (run : Run tree settings matcher (.waiting visit) emitted next)
    (failed : enter tree visit = .error error) :
    emitted.offered = [] ∧ ∀ ending, next.ending? = some ending → ending = .failed error := by
  cases run with
  | refl => exact ⟨rfl, nofun⟩
  | step first rest =>
      cases first with
      | list entered => cases failed.symm.trans entered
      | cycle closed => cases failed.symm.trans closed
      | fail again =>
          cases failed.symm.trans again
          obtain ⟨rfl, rfl⟩ := rest.eq_of_isOver rfl
          exact ⟨rfl, fun ending ended => (Option.some.inj ended).symm⟩

end Task

theorem Session.Run.failed {final : Session}
    (run : Run tree settings matcher (.first base) emitted answers final)
    (unlisted : tree.directory? base.steps = .error reason) (ended : final.stream.ended = true) :
    emitted.offered = [] ∧ EndsAfter answers [] (.failure (.unreadable base reason)) := by
  have tasks : Task.Run tree settings matcher (.first base) emitted final.task := run.task
  obtain ⟨nothing, fails⟩ := tasks.failed (enter_first_of_error unlisted)
  obtain ⟨ending, early, late, stopped, same, ends, _⟩ := run.exists_ending ended
  cases fails ending stopped
  rw [tasks.reported, nothing] at same
  obtain ⟨rfl, _⟩ := List.append_eq_nil_iff.mp same.symm
  exact ⟨nothing, ends⟩

/-- Whatever links lead where, a search with a matcher that never breaks down fails if and only if
the path that it starts from cannot be listed, with an error that names that path and before it has
delivered anything. Otherwise it delivers all that the matcher wants, and dead links do not disturb
it. -/
theorem fails_only_at_base (total : matcher.Total) :
    (∀ reason, tree.directory? base.steps = .error reason →
      (explore tree settings matcher base).toStream.collect =
        .failure (.unreadable base reason)) ∧
    (tree.isDirectory base.steps →
      Exact tree settings matcher base (explore tree settings matcher base) ∧
        OffersDeadLinks tree settings matcher base (explore tree settings matcher base)) ∧
    (∀ emitted answers session,
      Session.Run tree settings matcher (.first base) emitted answers session →
      session.stream.ended = true →
        (∀ error, .failure error ∈ answers ↔
          ∃ reason, tree.directory? base.steps = .error reason ∧
            error = .unreadable base reason) ∧
        (∀ reason, tree.directory? base.steps = .error reason →
          EndsAfter answers [] (.failure (.unreadable base reason))) ∧
        (tree.isDirectory base.steps →
          EndsAfter answers emitted.reported .finished ∧
            Exact tree settings matcher base emitted ∧
              OffersDeadLinks tree settings matcher base emitted)) ∧
    Session.Ends tree settings matcher base := by
  refine ⟨?_, ?_, ?_, Session.ends tree settings matcher base⟩
  · exact fun reason unlisted => collect_of_failed (explore_failed unlisted)
  · exact fun listable => ⟨explore_exact total listable, explore_offersDeadLinks total⟩
  intro emitted answers session run ended
  have fails (reason : PathError) (unlisted : tree.directory? base.steps = .error reason) :
      EndsAfter answers [] (.failure (.unreadable base reason)) :=
    (run.failed unlisted ended).2
  have succeeds (listable : tree.isDirectory base.steps) :
      EndsAfter answers emitted.reported .finished ∧ Exact tree settings matcher base emitted := by
    rcases run.ends_or_breaks listable ended with ⟨breaks, _⟩ | ⟨_, exact, ends⟩
    · exact absurd breaks total.not_breaksDown
    · exact ⟨ends, exact⟩
  refine ⟨?_, fails, fun listable => ?_⟩
  · intro error
    cases based : tree.directory? base.steps with
    | error reason =>
        rw [(fails reason based).failure_mem_iff]
        simp [eq_comm]
    | ok location =>
        rw [(succeeds (FileTree.isDirectory_iff.mpr ⟨location, based⟩)).1.failure_mem_iff]
        simp
  · obtain ⟨ends, exact⟩ := succeeds listable
    exact ⟨ends, exact, exact.offersDeadLinks total⟩

theorem fails_only_at_base_dangling :
    let tree : FileTree :=
      { nodes := [(["dead"], .link ["gone"]), (["f"], .file 0), (["loop"], .link ["loop"])]
        distinct := by decide
        named := by decide }
    let matcher : Matcher := fun _ _ => some .accept
    let gone : Path := ⟨["gone"]⟩
    matcher.Total ∧ tree.IsDeadLink ["dead"] ∧ tree.IsDeadLink ["loop"] ∧
      OffersDeadLinks tree {} matcher .root (explore tree {} matcher .root) ∧
      (explore tree {} matcher .root).offered.map (·.offeredText) = ["dead", "f", "loop"] ∧
      ∃ emitted answers session, Session.Run tree {} matcher (.first gone) emitted answers session ∧
        EndsAfter answers [] (.failure (.unreadable gone .notFound)) := by
  intro tree matcher gone
  have total : matcher.Total := fun _ _ => rfl
  have dead : tree.IsDeadLink ["dead"] := by
    refine ⟨["gone"], rfl, ?_⟩
    intro there leads
    obtain ⟨links, followed⟩ := FileTree.leadsTo_iff.mp leads
    have lost : tree.follow (tree.resolveWithin links) [] ["gone"] = .error .notFound := rfl
    cases lost.symm.trans followed
  have loop : tree.IsDeadLink ["loop"] := FileTree.isDeadLink_self (by decide) (by decide) rfl
  have listed := @fails_only_at_base tree {} matcher .root total
  have failed := @fails_only_at_base tree {} matcher gone total
  obtain ⟨emitted, answers, session, run, final⟩ := failed.2.2.2.reaches {} [] _ (.refl _)
  have unlisted : tree.directory? gone.steps = .error .notFound := by decide
  exact ⟨total, dead, loop, (listed.2.1 (by decide)).2, by decide +kernel, emitted, answers,
    session, run, (failed.2.2.1 emitted answers session run final).2.1 .notFound unlisted⟩

end Search

end Glob
