import Mathlib.Data.List.Basic
import Glob.Search.Session

/-!
What a stream delivers, whatever is sent to it when and however often it is polled. Each step keeps
an account of what was sent and answered, and the account says what comes before the end and that
there is nothing after it.
-/

namespace Glob

namespace Search

/-- The entries that were sent before any error. -/
def deliverable : List (Except Error Entry) → List Entry
  | .ok entry :: rest => entry :: deliverable rest
  | .error _ :: _ | [] => []

def firstError? : List (Except Error Entry) → Option Error
  | .ok _ :: rest => firstError? rest
  | .error error :: _ => some error
  | [] => none

def told (answers : List Poll) : List Poll :=
  answers.filter (· ≠ .pending)

/-- The answers of a stream to its end and beyond: some entries, the last thing that it has to say,
and then nothing but that it has ended. -/
def EndsAfter (answers : List Poll) (entries : List Entry) (last : Poll) : Prop :=
  ∃ before repeats, answers = before ++ last :: List.replicate repeats .finished ∧
    told before = entries.map .entry

variable {sent items later : List (Except Error Entry)} {answers more : List Poll}
  {stream next final : Stream} {entries : List Entry} {entry : Entry} {error : Error}
  {outcome : Outcome} {last : Poll}

@[simp]
theorem deliverable_append (entries : List Entry) (rest : List (Except Error Entry)) :
    deliverable (entries.map .ok ++ rest) = entries ++ deliverable rest := by
  induction entries with
  | nil => rfl
  | cons entry others ih => exact congrArg (entry :: ·) ih

@[simp]
theorem firstError_append (entries : List Entry) (rest : List (Except Error Entry)) :
    firstError? (entries.map .ok ++ rest) = firstError? rest := by
  induction entries with
  | nil => rfl
  | cons entry others ih => exact ih

theorem deliverable_map (entries : List Entry) : deliverable (entries.map .ok) = entries := by
  simpa [deliverable] using deliverable_append entries []

theorem firstError_map (entries : List Entry) : firstError? (entries.map .ok) = none := by
  simpa [firstError?] using firstError_append entries []

theorem told_append (answers more : List Poll) :
    told (answers ++ more) = told answers ++ told more :=
  List.filter_append ..

theorem EndsAfter.mem_iff {answer : Poll} (ends : EndsAfter answers entries last)
    (other : ∀ entry, answer ≠ .entry entry) (telling : answer ≠ .pending)
    (bad : answer ≠ .finished) : answer ∈ answers ↔ last = answer := by
  obtain ⟨before, repeats, rfl, delivered⟩ := ends
  have earlier : answer ∉ before := by
    intro member
    have said : answer ∈ told before := List.mem_filter.mpr ⟨member, by simpa using telling⟩
    rw [delivered] at said
    obtain ⟨entry, _, same⟩ := List.mem_map.mp said
    exact other entry same.symm
  simp [earlier, bad, eq_comm]

theorem EndsAfter.failure_mem_iff (ends : EndsAfter answers entries last) :
    .failure error ∈ answers ↔ last = .failure error :=
  ends.mem_iff nofun nofun nofun

theorem EndsAfter.brokenDown_mem_iff (ends : EndsAfter answers entries last) :
    .brokenDown ∈ answers ↔ last = .brokenDown :=
  ends.mem_iff nofun nofun nofun

namespace Stream

theorem poll_of_ended (ended : stream.ended = true) : stream.poll = (.finished, stream) := by
  simp [poll, ended]

theorem poll_of_entry (unended : stream.ended = false)
    (queued : stream.queue = .ok entry :: later) :
    stream.poll = (.entry entry, { stream with queue := later }) := by
  simp [poll, unended, queued]

theorem poll_of_error (unended : stream.ended = false)
    (queued : stream.queue = .error error :: later) :
    stream.poll = (.failure error, { stream with queue := later, ended := true }) := by
  simp [poll, unended, queued]

theorem poll_of_outcome (unended : stream.ended = false) (empty : stream.queue = [])
    (closed : stream.sending = false) (settled : stream.outcome = some outcome) :
    stream.poll = (outcome.answer, { stream with ended := true }) := by
  simp only [poll, unended, empty, closed, pollOutcome, settled]
  cases outcome <;> rfl

theorem poll_of_nothing (unended : stream.ended = false) (empty : stream.queue = [])
    (waiting : stream.sending = true ∨ stream.outcome = none) :
    stream.poll = (.pending, stream) := by
  rcases waiting with sending | unsettled
  · simp [poll, unended, empty, sending]
  · simp [poll, unended, empty, pollOutcome, unsettled]

/-- What was sent to a stream and answered by it, up to where it stands. -/
inductive Account : List (Except Error Entry) → List Poll → Stream → Prop where
  | telling {stream : Stream} {answers : List Poll} (entries : List Entry)
      (unended : stream.ended = false) (delivered : told answers = entries.map .entry) :
      Account (entries.map .ok ++ stream.queue) answers stream
  | failed {stream : Stream} {before : List Poll} {error : Error} (entries : List Entry)
      (rest : List (Except Error Entry)) (repeats : Nat) (ended : stream.ended = true)
      (delivered : told before = entries.map .entry) :
      Account (entries.map .ok ++ .error error :: rest)
        (before ++ .failure error :: List.replicate repeats .finished) stream
  | closed {stream : Stream} {before : List Poll} {outcome : Outcome} (entries : List Entry)
      (repeats : Nat) (ended : stream.ended = true) (closed : stream.sending = false)
      (settled : stream.outcome = some outcome) (delivered : told before = entries.map .entry) :
      Account (entries.map .ok)
        (before ++ outcome.answer :: List.replicate repeats .finished) stream

theorem account_start : Account [] [] {} :=
  @Account.telling {} [] [] rfl rfl

namespace Account

theorem poll_again (account : Account sent answers stream) (ended : stream.ended = true) :
    Account sent (answers ++ [.finished]) stream := by
  have once (before : List Poll) (last : Poll) (repeats : Nat) :
      (before ++ last :: List.replicate repeats Poll.finished) ++ [.finished] =
        before ++ last :: List.replicate (repeats + 1) .finished := by
    rw [List.replicate_succ', List.append_assoc]
    rfl
  cases account with
  | telling entries unended => exact absurd (ended.symm.trans unended) nofun
  | failed entries rest repeats ended delivered =>
      rw [once]
      exact .failed entries rest (repeats + 1) ended delivered
  | closed entries repeats ended closed settled delivered =>
      rw [once]
      exact .closed entries (repeats + 1) ended closed settled delivered

theorem poll (account : Account sent answers stream) :
    Account sent (answers ++ [stream.poll.1]) stream.poll.2 := by
  by_cases ended : stream.ended = true
  · rw [poll_of_ended ended]
    exact account.poll_again ended
  have unended : stream.ended = false := by simpa using ended
  cases account with
  | failed entries rest repeats ended => exact absurd (ended.symm.trans unended) nofun
  | closed entries repeats ended => exact absurd (ended.symm.trans unended) nofun
  | telling entries _ delivered =>
      cases queued : stream.queue with
      | nil =>
          by_cases waiting : stream.sending = true ∨ stream.outcome = none
          · rw [poll_of_nothing unended queued waiting, ← queued]
            exact .telling entries unended (by simpa [told] using delivered)
          · obtain ⟨closed, settled⟩ := not_or.mp waiting
            obtain ⟨outcome, settled⟩ := Option.ne_none_iff_exists'.mp settled
            have closed : stream.sending = false := by simpa using closed
            rw [poll_of_outcome unended queued closed settled, List.append_nil]
            exact .closed entries 0 rfl closed settled delivered
      | cons item rest =>
          cases item with
          | ok entry =>
              rw [poll_of_entry unended queued]
              have sent : entries.map Except.ok ++ .ok entry :: rest =
                  ((entries ++ [entry]).map .ok ++ rest : List (Except Error Entry)) := by simp
              rw [sent]
              refine @telling { stream with queue := rest } _ _ unended ?_
              rw [told_append, delivered, List.map_append]
              rfl
          | error error =>
              rw [poll_of_error unended queued]
              exact .failed entries rest 0 rfl delivered

theorem step (account : Account sent answers stream) (step : Step stream items more next) :
    Account (sent ++ items) (answers ++ more) next := by
  cases step with
  | send _ sending =>
      rw [List.append_nil]
      cases account with
      | telling entries unended delivered =>
          rw [List.append_assoc]
          exact @telling (stream.send items) _ entries unended delivered
      | failed entries rest repeats ended delivered =>
          rw [List.append_assoc]
          -- What is sent behind an error is never answered.
          exact .failed entries (rest ++ items) repeats ended delivered
      | closed entries repeats ended closed => exact absurd (sending.symm.trans closed) nofun
  | close =>
      rw [List.append_nil, List.append_nil]
      cases account with
      | telling entries unended delivered =>
          exact @telling { stream with sending := false } _ entries unended delivered
      | failed entries rest repeats ended delivered =>
          exact .failed entries rest repeats ended delivered
      | closed entries repeats ended closed settled delivered =>
          exact .closed entries repeats ended rfl settled delivered
  | settle outcome unsettled =>
      rw [List.append_nil, List.append_nil]
      cases account with
      | telling entries unended delivered =>
          exact @telling { stream with outcome := some outcome } _ entries unended delivered
      | failed entries rest repeats ended delivered =>
          exact .failed entries rest repeats ended delivered
      | closed entries repeats ended closed settled => cases unsettled.symm.trans settled
  | poll =>
      rw [List.append_nil]
      exact account.poll
  | putOff unended =>
      rw [List.append_nil]
      cases account with
      | telling entries unended delivered =>
          exact .telling entries unended (by simpa [told] using delivered)
      | failed entries rest repeats ended => exact absurd (ended.symm.trans unended) nofun
      | closed entries repeats ended => exact absurd (ended.symm.trans unended) nofun

theorem run (account : Account sent answers stream) (run : Run stream items more next) :
    Account (sent ++ items) (answers ++ more) next := by
  induction run generalizing sent answers with
  | refl stream => simpa using account
  | step first rest ih =>
      rw [← List.append_assoc, ← List.append_assoc]
      exact ih (account.step first)

theorem exists_entries (account : Account sent answers stream) (unended : stream.ended = false) :
    ∃ entries : List Entry, told answers = entries.map .entry ∧
      sent = entries.map .ok ++ stream.queue := by
  cases account with
  | telling entries _ delivered => exact ⟨entries, delivered, rfl⟩
  | failed entries rest repeats ended => exact absurd (ended.symm.trans unended) nofun
  | closed entries repeats ended => exact absurd (ended.symm.trans unended) nofun

theorem exists_last (account : Account sent answers stream) (ended : stream.ended = true) :
    ∃ last, EndsAfter answers (deliverable sent) last ∧
      (∀ error, firstError? sent = some error → last = .failure error) ∧
      (firstError? sent = none → ∃ outcome, stream.outcome = some outcome ∧
        stream.sending = false ∧ last = outcome.answer) := by
  cases account with
  | telling entries unended => exact absurd (ended.symm.trans unended) nofun
  | @failed _ before error entries rest repeats _ delivered =>
      refine ⟨.failure error, ⟨before, repeats, rfl, ?_⟩, ?_, ?_⟩
      · simpa [deliverable] using delivered
      · intro other found
        simp only [firstError_append, firstError?, Option.some.injEq] at found
        rw [found]
      · intro none
        simp [firstError?] at none
  | @closed _ before outcome entries repeats _ closed settled delivered =>
      refine ⟨outcome.answer, ⟨before, repeats, rfl, ?_⟩, ?_, ?_⟩
      · rw [deliverable_map]
        exact delivered
      · intro error found
        cases (firstError_map entries).symm.trans found
      · intro _
        exact ⟨outcome, settled, closed, rfl⟩

end Account

theorem Run.account (run : Run {} sent answers stream) : Account sent answers stream := by
  simpa using account_start.run run

theorem poll_ne_pending (queued : stream.queue ≠ []) : stream.poll.1 ≠ .pending := by
  unfold poll
  split
  · exact nofun
  · split
    · exact nofun
    · exact nofun
    · exact absurd ‹_› queued

theorem poll_open : stream.poll.2.sending = stream.sending ∧
    stream.poll.2.outcome = stream.outcome := by
  unfold poll pollOutcome
  repeat' split
  all_goals exact ⟨rfl, rfl⟩

theorem poll_progress (closed : stream.sending = false) (settled : stream.outcome = some outcome) :
    stream.poll.2.ended = true ∨ stream.poll.2.queue.length < stream.queue.length := by
  by_cases ended : stream.ended = true
  · rw [poll_of_ended ended]
    exact .inl ended
  have unended : stream.ended = false := by simpa using ended
  cases queued : stream.queue with
  | nil =>
      rw [poll_of_outcome unended queued closed settled]
      exact .inl rfl
  | cons item rest =>
      cases item with
      | ok entry =>
          rw [poll_of_entry unended queued]
          exact .inr (Nat.lt_succ_self _)
      | error error =>
          rw [poll_of_error unended queued]
          exact .inl rfl

def afterPolls : Nat → Stream → Stream
  | 0, stream => stream
  | count + 1, stream => afterPolls count stream.poll.2

theorem run_polls (count : Nat) (stream : Stream) :
    Run stream [] (stream.polls count) (stream.afterPolls count) := by
  induction count generalizing stream with
  | zero => exact .refl stream
  | succ count ih => exact .step .poll (ih stream.poll.2)

theorem ended_afterPolls (count : Nat) (closed : stream.sending = false)
    (settled : stream.outcome = some outcome)
    (enough : stream.ended = true ∨ stream.queue.length < count) :
    (stream.afterPolls count).ended = true := by
  induction count generalizing stream with
  | zero => exact enough.resolve_right (Nat.not_lt_zero _)
  | succ count ih =>
      apply ih (poll_open.1.trans closed) (poll_open.2.trans settled)
      rcases enough with ended | short
      · left
        rw [poll_of_ended ended]
        exact ended
      · exact (poll_progress closed settled).imp_right fun shorter => by omega

/-- Whatever is sent to a stream, whenever it is polled and however its task ends: it answers with
the entries that were sent before the first error, in their order and each of them once, then with
that error or with the end of the task, and from then on with nothing but the end of the stream. -/
theorem delivers_until_first_error (run : Run {} sent answers stream) :
    (stream.ended = false → ∃ entries : List Entry, told answers = entries.map .entry ∧
      sent = entries.map .ok ++ stream.queue) ∧
    (stream.ended = true → ∃ last, EndsAfter answers (deliverable sent) last ∧
      (∀ error, firstError? sent = some error → last = .failure error) ∧
      (firstError? sent = none → ∃ outcome, stream.outcome = some outcome ∧
        stream.sending = false ∧ last = outcome.answer)) ∧
    (stream.queue ≠ [] → stream.poll.1 ≠ .pending) ∧
    (stream.sending = false → stream.outcome ≠ none →
      ∃ final, Run stream [] (stream.polls (stream.queue.length + 1)) final ∧
        final.ended = true) := by
  refine ⟨run.account.exists_entries, run.account.exists_last, poll_ne_pending, ?_⟩
  intro closed settled
  obtain ⟨outcome, settled⟩ := Option.ne_none_iff_exists'.mp settled
  exact ⟨_, run_polls _ stream, ended_afterPolls _ closed settled (.inr (Nat.lt_succ_self _))⟩

/-- What is sent behind an error is not delivered, and a poll that was put off loses nothing. -/
theorem delivers_until_first_error_late :
    let early : Entry := ⟨.ofText "a", ["a"], false, none⟩
    let late : Entry := ⟨.ofText "b", ["b"], false, none⟩
    let error : Error := .unreadable .root .notFound
    let sent : List (Except Error Entry) := [.ok early, .error error, .ok late]
    let answers : List Poll := [.entry early, .pending, .failure error, .finished]
    ∃ stream, Run {} sent answers stream ∧ stream.ended = true ∧
      EndsAfter answers [early] (.failure error) := by
  intro early late error sent answers
  have run : Run {} sent answers ⟨[.ok late], true, none, true⟩ :=
    .step (.send [.ok early] rfl) <| .step .poll <| .step (.putOff rfl) <|
      .step (.send [.error error, .ok late] rfl) <| .step .poll <| .step .poll <| .refl _
  obtain ⟨last, ends, failed, _⟩ := (delivers_until_first_error run).2.1 rfl
  exact ⟨_, run, rfl, failed error rfl ▸ ends⟩

end Stream

end Search

end Glob
