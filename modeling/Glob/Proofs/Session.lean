import Mathlib.Order.WellFounded
import Glob.Proofs.Delivery
import Glob.Proofs.Progress

/-!
How searches come to their end. The stream is sent what the tasks report, and the error of the first
task in between if that failed, so that the way in which the first task ended decides what the
stream says last. No search goes on for ever without coming to that.
-/

namespace Glob

namespace Search

variable {tree : FileTree} {settings : Settings} {matcher : Matcher} {base : Path}
  {emitted : Trace} {answers more : List Poll} {ending : Ending}

namespace Task

variable {task next : Task}

theorem Step.ending_kept (step : Step tree settings matcher task emitted next)
    (ended : task.ending? = some ending) : next.ending? = some ending := by
  cases step with
  | list | cycle | fail | ask | breakDown | child | join | stop | finish => cases ended
  | orphan | giveUp => exact ended

theorem Step.not_isOver (step : Step tree settings matcher task emitted next) :
    task.isOver = false := by
  cases step with
  | list | cycle | fail | ask | breakDown | child | join | stop | finish => rfl
  | orphan before | giveUp before => cases before <;> rfl

theorem exists_ending_of_isOver (past : task.isOver) : ∃ ending, task.ending? = some ending := by
  cases task with
  | waiting | running => cases past
  | finished => exact ⟨.finished, rfl⟩
  | stopped ending irregular orphans => exact ⟨ending, rfl⟩

end Task

namespace Stream

variable {stream : Stream}

/-- Of the end of the first task and that of the last one, so many are not known yet. -/
def unheard (stream : Stream) : Nat :=
  stream.outcome.isNone.toNat + stream.sending.toNat

theorem unheard_poll : stream.poll.2.unheard = stream.unheard := by
  rw [unheard, unheard, poll_open.1, poll_open.2]

theorem unheard_eq_zero_iff : stream.unheard = 0 ↔
    stream.sending = false ∧ ∃ outcome, stream.outcome = some outcome := by
  rw [unheard, Nat.add_eq_zero_iff, and_comm]
  cases stream.sending <;> cases stream.outcome <;> simp

theorem length_queue_poll_le : stream.poll.2.queue.length ≤ stream.queue.length := by
  unfold poll
  split
  · exact Nat.le_refl _
  · split
    · next taken =>
        rw [taken]
        exact Nat.le_succ _
    · next taken =>
        rw [taken]
        exact Nat.le_succ _
    · split
      · exact Nat.le_refl _
      · unfold pollOutcome
        split <;> exact Nat.le_refl _

end Stream

namespace Session

variable {session next final : Session} {reported : List Entry}
  {sent : List (Except Error Entry)}

theorem Run.task (run : Run tree settings matcher session emitted answers final) :
    Task.Run tree settings matcher session.task emitted final.task := by
  induction run with
  | refl session => exact .refl _
  | step first rest ih =>
      cases first with
      | work step => exact .step step ih
      | settle | close | poll | putOff => exact ih

theorem Run.concat {later : Trace} (run : Run tree settings matcher session emitted answers next)
    (last : Step tree settings matcher next later more final) :
    Run tree settings matcher session (emitted.append later) (answers ++ more) final := by
  induction run with
  | refl session =>
      have once := Run.step last (.refl final)
      rw [Trace.append_nil, List.append_nil] at once
      exact once
  | step first rest ih =>
      rw [Trace.append_assoc, List.append_assoc]
      exact .step first (ih last)

/-- What was sent when so much has been reported. -/
inductive Sent (session : Session) : List Entry → List (Except Error Entry) → Prop where
  | unsettled {reported : List Entry} (unsettled : session.stream.outcome = none) :
      Sent session reported (reported.map .ok)
  | settled {ending : Ending} (early late : List Entry)
      (ended : session.task.ending? = some ending)
      (settled : session.stream.outcome = some ending.outcome) :
      Sent session (early ++ late) (early.map .ok ++ (ending.sends ++ late.map .ok))

/-- What was reported in a session, sent to its stream and answered by it, up to where it stands. -/
structure Tracks (reported : List Entry) (sent : List (Except Error Entry)) (answers : List Poll)
    (session : Session) : Prop where
  account : Stream.Account sent answers session.stream
  sent : Sent session reported sent
  /-- Nothing is sent any more only when there is nothing to send. -/
  closed : session.stream.sending = false → session.task.isOver ∧
    (session.stream.outcome = none → ∀ error, session.task.ending? ≠ some (.failed error))

theorem tracks_first : Tracks [] [] [] (.first base) where
  account := Stream.account_start
  sent := .unsettled rfl
  closed := nofun

namespace Tracks

theorem work {next : Task} (tracks : Tracks reported sent answers session)
    (step : Task.Step tree settings matcher session.task emitted next) :
    Tracks (reported ++ emitted.reported) (sent ++ emitted.reported.map .ok) answers
      ⟨next, session.stream.send (emitted.reported.map .ok)⟩ := by
  have sending : session.stream.sending = true := by
    by_contra closed
    have past := (tracks.closed (by simpa using closed)).1
    cases past.symm.trans step.not_isOver
  constructor
  · simpa using tracks.account.step (.send (emitted.reported.map .ok) sending)
  · cases tracks.sent with
    | unsettled unsettled =>
        rw [← List.map_append]
        exact .unsettled unsettled
    | settled early late ended settled =>
        rw [List.append_assoc, List.append_assoc, List.append_assoc, ← List.map_append]
        exact .settled early (late ++ emitted.reported) (step.ending_kept ended) settled
  · exact fun closed => absurd (closed.symm.trans sending) nofun

theorem settle (tracks : Tracks reported sent answers session)
    (ended : session.task.ending? = some ending) (unsettled : session.stream.outcome = none) :
    Tracks reported (sent ++ ending.sends) answers
      ⟨session.task,
        { session.stream.send ending.sends with outcome := some ending.outcome }⟩ := by
  have heard : Stream.Account (sent ++ ending.sends) answers
      (session.stream.send ending.sends) := by
    cases ending with
    | finished | brokenDown => simpa [Ending.sends, Stream.send] using tracks.account
    | failed error =>
        have sending : session.stream.sending = true := by
          by_contra closed
          exact (tracks.closed (by simpa using closed)).2 unsettled error ended
        simpa [Ending.sends] using tracks.account.step (.send [.error error] sending)
  constructor
  · simpa using heard.step (.settle ending.outcome unsettled)
  · cases tracks.sent with
    | unsettled _ =>
        have settled := @Sent.settled ⟨session.task,
          { session.stream.send ending.sends with outcome := some ending.outcome }⟩
          ending reported [] ended rfl
        simpa using settled
    | settled _ _ _ settled => cases unsettled.symm.trans settled
  · exact fun closed => ⟨(tracks.closed closed).1, nofun⟩

theorem step (tracks : Tracks reported sent answers session)
    (step : Step tree settings matcher session emitted more next) :
    ∃ items, Tracks (reported ++ emitted.reported) (sent ++ items) (answers ++ more) next := by
  cases step with
  | work step =>
      rw [List.append_nil]
      exact ⟨_, tracks.work step⟩
  | settle ended unsettled =>
      rw [List.append_nil, List.append_nil]
      exact ⟨_, tracks.settle ended unsettled⟩
  | close past sending heard =>
      refine ⟨[], ?_, ?_, fun _ => ⟨past, heard⟩⟩
      · exact tracks.account.step .close
      · rw [List.append_nil, List.append_nil]
        cases tracks.sent with
        | unsettled unsettled => exact .unsettled unsettled
        | settled early late ended settled => exact .settled early late ended settled
  | poll =>
      refine ⟨[], tracks.account.step .poll, ?_, ?_⟩
      · rw [List.append_nil, List.append_nil]
        cases tracks.sent with
        | unsettled unsettled => exact .unsettled (Stream.poll_open.2.trans unsettled)
        | settled early late ended settled =>
            exact .settled early late ended (Stream.poll_open.2.trans settled)
      · rw [Stream.poll_open.1, Stream.poll_open.2]
        exact tracks.closed
  | putOff unended =>
      refine ⟨[], tracks.account.step (.putOff unended), ?_, tracks.closed⟩
      rw [List.append_nil, List.append_nil]
      exact tracks.sent

theorem run (tracks : Tracks reported sent answers session)
    (run : Run tree settings matcher session emitted more final) :
    ∃ items, Tracks (reported ++ emitted.reported) (sent ++ items) (answers ++ more) final := by
  induction run generalizing reported sent answers with
  | refl session => exact ⟨[], by simpa using tracks⟩
  | step first rest ih =>
      obtain ⟨items, further⟩ := tracks.step first
      obtain ⟨others, whole⟩ := ih further
      rw [Trace.append_reported, ← List.append_assoc, ← List.append_assoc]
      exact ⟨items ++ others, by rwa [← List.append_assoc]⟩

theorem exists_ending (tracks : Tracks reported sent answers session)
    (ended : session.stream.ended = true) :
    ∃ ending early late, session.task.ending? = some ending ∧ reported = early ++ late ∧
      EndsAfter answers early ending.answer ∧
      ((∀ error, ending ≠ .failed error) → session.task.isOver ∧ late = []) := by
  obtain ⟨last, ends, failed, unfailed⟩ := tracks.account.exists_last ended
  cases tracks.sent with
  | unsettled unsettled =>
      obtain ⟨outcome, settled, _⟩ := unfailed (firstError_map reported)
      cases unsettled.symm.trans settled
  | @settled ending early late stopped settled =>
      cases ending with
      | failed error =>
          obtain rfl := failed error (by simp [Ending.sends, firstError?])
          refine ⟨.failed error, early, late, stopped, rfl, ?_, ?_⟩
          · simpa [Ending.sends, Ending.answer, deliverable] using ends
          · exact fun regular => absurd rfl (regular error)
      | finished | brokenDown =>
          simp only [Ending.sends, List.nil_append, ← List.map_append, deliverable_map,
            firstError_map] at ends unfailed
          obtain ⟨outcome, heard, closed, rfl⟩ := unfailed trivial
          cases settled.symm.trans heard
          exact ⟨_, early ++ late, [], stopped, (List.append_nil _).symm, ends,
            fun _ => ⟨(tracks.closed closed).1, rfl⟩⟩

end Tracks

theorem Run.exists_ending
    (run : Run tree settings matcher (.first base) emitted answers final)
    (ended : final.stream.ended = true) :
    ∃ ending early late, final.task.ending? = some ending ∧ emitted.reported = early ++ late ∧
      EndsAfter answers early ending.answer ∧
      ((∀ error, ending ≠ .failed error) → final.task.isOver ∧ late = []) := by
  obtain ⟨sent, tracks⟩ := tracks_first.run run
  exact tracks.exists_ending ended

theorem run_polls (count : Nat) (task : Task) (stream : Stream) :
    Run tree settings matcher ⟨task, stream⟩ {} (stream.polls count)
      ⟨task, stream.afterPolls count⟩ := by
  induction count generalizing stream with
  | zero => exact .refl _
  | succ count ih => exact .step .poll (ih stream.poll.2)

structure IsSpent (session : Session) : Prop where
  past : session.task.isOver
  heard : session.stream.unheard = 0

theorem isSpent_or_step (session : Session) : session.IsSpent ∨
    ∃ emitted next, Step tree settings matcher session emitted [] next := by
  obtain ⟨task, stream⟩ := session
  rcases Task.isOver_or_step task with past | ⟨emitted, next, step⟩
  · obtain ⟨ending, ended⟩ := Task.exists_ending_of_isOver past
    cases settled : stream.outcome with
    | none => exact .inr ⟨_, _, .settle ended settled⟩
    | some outcome =>
        cases sending : stream.sending with
        | true =>
            exact .inr ⟨_, _, .close past sending fun unsettled => nomatch settled ▸ unsettled⟩
        | false => exact .inl ⟨past, Stream.unheard_eq_zero_iff.mpr ⟨sending, outcome, settled⟩⟩
  · exact .inr ⟨_, _, .work step⟩

/-- What is left of a session: its task, what its stream has not heard of, and what has not been
taken. -/
def left (session : Session) : Task × Nat × Nat :=
  (session.task, session.stream.unheard, session.stream.queue.length)

def IsNearer (tree : FileTree) (settings : Settings) (matcher : Matcher)
    (next session : Session) : Prop :=
  Prod.Lex (fun next task => ∃ emitted, Task.Step tree settings matcher task emitted next)
    (Prod.Lex (· < ·) (· < ·)) next.left session.left

theorem isNearer_wellFounded : WellFounded (IsNearer tree settings matcher) :=
  InvImage.wf left (.prod_lex ⟨Task.acc tree settings matcher⟩ (.prod_lex Nat.lt_wfRel.wf
    Nat.lt_wfRel.wf))

theorem Step.isNearer (step : Step tree settings matcher session emitted [] next) :
    IsNearer tree settings matcher next session := by
  cases step with
  | work step => exact .left _ _ ⟨_, step⟩
  | settle ended unsettled =>
      exact .right _ (.left _ _ (by simp [Stream.unheard, Stream.send, unsettled]))
  | close past sending => exact .right _ (.left _ _ (by simp [Stream.unheard, sending]))

theorem Step.left_eq_or_isNearer (step : Step tree settings matcher session emitted answers next) :
    next.left = session.left ∨ IsNearer tree settings matcher next session := by
  cases step with
  | work step => exact .inr (Step.work step).isNearer
  | settle ended unsettled => exact .inr (Step.settle ended unsettled).isNearer
  | close past sending heard => exact .inr (Step.close past sending heard).isNearer
  | poll =>
      unfold IsNearer left
      rw [Stream.unheard_poll]
      rcases Nat.eq_or_lt_of_le Stream.length_queue_poll_le with level | shorter
      · rw [level]
        exact .inl rfl
      · exact .inr (.right _ (.right _ shorter))
  | putOff => exact .inl rfl

theorem Step.answers_ne_nil (step : Step tree settings matcher session emitted answers next)
    (same : next.left = session.left) : answers ≠ [] := by
  rintro rfl
  have nearer := step.isNearer
  unfold IsNearer at nearer
  rw [same] at nearer
  exact (@isNearer_wellFounded tree settings matcher).irrefl.irrefl session nearer

structure Schedule (tree : FileTree) (settings : Settings) (matcher : Matcher) (base : Path) where
  session : Nat → Session
  emitted : Nat → Trace
  answers : Nat → List Poll
  begins : session 0 = .first base
  step : ∀ i, Step tree settings matcher (session i) (emitted i) (answers i) (session (i + 1))

namespace Schedule

def emittedTo (schedule : Schedule tree settings matcher base) : Nat → Trace
  | 0 => {}
  | i + 1 => (schedule.emittedTo i).append (schedule.emitted i)

def answersTo (schedule : Schedule tree settings matcher base) : Nat → List Poll
  | 0 => []
  | i + 1 => schedule.answersTo i ++ schedule.answers i

theorem run (schedule : Schedule tree settings matcher base) (i : Nat) :
    Run tree settings matcher (.first base) (schedule.emittedTo i) (schedule.answersTo i)
      (schedule.session i) := by
  induction i with
  | zero =>
      rw [schedule.begins]
      exact .refl _
  | succ i ih => exact ih.concat (schedule.step i)

/-- As long as there is something to be done besides the polls, something is done sooner or later,
and the stream is not left alone for ever. -/
structure IsFair (schedule : Schedule tree settings matcher base) : Prop where
  works : ∀ i, (∀ j ≥ i, ∃ emitted next,
    Step tree settings matcher (schedule.session j) emitted [] next) →
      ∃ j ≥ i, schedule.answers j = []
  polls : ∀ i, ∃ j ≥ i, schedule.answers j = [(schedule.session j).stream.poll.1] ∧
    schedule.session (j + 1) = ⟨(schedule.session j).task, (schedule.session j).stream.poll.2⟩

theorem exists_still (schedule : Schedule tree settings matcher base) :
    ∃ start, ∀ i ≥ start, (schedule.session i).left = (schedule.session start).left := by
  obtain ⟨_, ⟨start, rfl⟩, least⟩ :=
    isNearer_wellFounded.has_min (Set.range schedule.session) ⟨_, 0, rfl⟩
  refine ⟨start, ?_⟩
  intro i later
  induction i, later using Nat.le_induction with
  | base => rfl
  | succ i later ih =>
      rcases (schedule.step i).left_eq_or_isNearer with same | nearer
      · exact same.trans ih
      · unfold IsNearer at nearer
        rw [ih] at nearer
        exact absurd nearer (least _ ⟨i + 1, rfl⟩)

theorem exists_ended (schedule : Schedule tree settings matcher base)
    (fair : schedule.IsFair) : ∃ i, (schedule.session i).stream.ended = true := by
  obtain ⟨start, still⟩ := schedule.exists_still
  have same (i : Nat) (later : i ≥ start) :
      (schedule.session (i + 1)).left = (schedule.session i).left :=
    (still (i + 1) (Nat.le_succ_of_le later)).trans (still i later).symm
  obtain ⟨last, late, spent⟩ : ∃ i ≥ start, (schedule.session i).IsSpent := by
    by_contra unspent
    obtain ⟨i, later, silent⟩ := fair.works start fun i later =>
      (isSpent_or_step _).resolve_left fun spent => unspent ⟨i, later, spent⟩
    exact (schedule.step i).answers_ne_nil (same i later) silent
  -- Nothing else is done then, so that the next poll tells the end.
  obtain ⟨i, later, _, polled⟩ := fair.polls last
  have heard : (schedule.session i).stream.unheard = (schedule.session last).stream.unheard :=
    congrArg (·.2.1) ((still i (late.trans later)).trans (still last late).symm)
  obtain ⟨closed, outcome, settled⟩ := Stream.unheard_eq_zero_iff.mp (heard.trans spent.heard)
  have level : (schedule.session (i + 1)).stream.queue.length =
      (schedule.session i).stream.queue.length :=
    congrArg (·.2.2) (same i (late.trans later))
  rw [polled] at level
  refine ⟨i + 1, ?_⟩
  rw [polled]
  exact (Stream.poll_progress closed settled).resolve_right level.not_lt

end Schedule

theorem exists_run_ended (session : Session) : ∃ emitted answers final,
    Run tree settings matcher session emitted answers final ∧ final.stream.ended = true := by
  induction session using (@isNearer_wellFounded tree settings matcher).induction with
  | _ session ih =>
      rcases @isSpent_or_step tree settings matcher session with spent | ⟨emitted, next, step⟩
      · obtain ⟨closed, outcome, settled⟩ := Stream.unheard_eq_zero_iff.mp spent.heard
        exact ⟨_, _, _, run_polls (session.stream.queue.length + 1) session.task session.stream,
          Stream.ended_afterPolls _ closed settled (.inr (Nat.lt_succ_self _))⟩
      · obtain ⟨later, answers, final, rest, ended⟩ := ih next step.isNearer
        exact ⟨_, _, final, .step step rest, ended⟩

/-- Wherever a search has got to it can be brought to its end, and it does not go on for ever. -/
structure Ends (tree : FileTree) (settings : Settings) (matcher : Matcher) (base : Path) :
    Prop where
  reaches : ∀ emitted answers session,
    Run tree settings matcher (.first base) emitted answers session →
      ∃ later more final, Run tree settings matcher session later more final ∧
        final.stream.ended = true
  fair : ∀ schedule : Schedule tree settings matcher base, schedule.IsFair →
    ∃ i, (schedule.session i).stream.ended = true ∧
      Run tree settings matcher (.first base) (schedule.emittedTo i) (schedule.answersTo i)
        (schedule.session i)

theorem ends (tree : FileTree) (settings : Settings) (matcher : Matcher) (base : Path) :
    Ends tree settings matcher base where
  reaches _ _ session _ := exists_run_ended session
  fair schedule fair := (schedule.exists_ended fair).imp fun i ended => ⟨ended, schedule.run i⟩

end Session

end Search

end Glob
