import Glob.Search.Stream
import Glob.Search.Task

/-!
A search under way. Its tasks send what they report, and whoever takes the entries polls the stream
in between. That the first task has ended and that the last one is gone are told apart, since tasks
that were given up may still run and send.
-/

namespace Glob

namespace Search

def Outcome.answer : Outcome → Poll
  | finished => .finished
  | cancelled => .failure .cancelled
  | brokenDown => .brokenDown

namespace Stream

/-- A step of a stream, with what is sent and what is answered in it. -/
inductive Step : Stream → List (Except Error Entry) → List Poll → Stream → Prop where
  | send {stream : Stream} (items : List (Except Error Entry)) (sending : stream.sending = true) :
      Step stream items [] (stream.send items)
  /-- The last task that could send something is gone. -/
  | close {stream : Stream} : Step stream [] [] { stream with sending := false }
  /-- The first task has ended. -/
  | settle {stream : Stream} (outcome : Outcome) (unsettled : stream.outcome = none) :
      Step stream [] [] { stream with outcome := some outcome }
  | poll {stream : Stream} : Step stream [] [stream.poll.1] stream.poll.2
  /-- A poll may be put off, whatever there is to take. -/
  | putOff {stream : Stream} (unended : stream.ended = false) : Step stream [] [.pending] stream

inductive Run : Stream → List (Except Error Entry) → List Poll → Stream → Prop where
  | refl (stream : Stream) : Run stream [] [] stream
  | step {stream next final : Stream} {items later : List (Except Error Entry)}
      {answers more : List Poll} (first : Step stream items answers next)
      (rest : Run next later more final) : Run stream (items ++ later) (answers ++ more) final

end Stream

namespace Ending

/-- What the first task of a search sends when it comes to this end. -/
def sends : Ending → List (Except Error Entry)
  | failed error => [.error error]
  | finished | brokenDown => []

def outcome : Ending → Outcome
  | finished | failed _ => .finished
  | brokenDown => .brokenDown

/-- What the stream of a search says last when its first task comes to this end. -/
def answer : Ending → Poll
  | finished => .finished
  | failed error => .failure error
  | brokenDown => .brokenDown

end Ending

namespace Task

def ending? : Task → Option Ending
  | waiting _ | running _ _ _ => none
  | finished => some .finished
  | stopped ending _ _ => some ending

/-- Whether a task has come to its end and none below it is left. -/
def isOver : Task → Bool
  | finished | stopped _ _ [] => true
  | waiting _ | running _ _ _ | stopped _ _ (_ :: _) => false

end Task

structure Session where
  task : Task
  stream : Stream := {}

namespace Session

/-- A search that has just begun. -/
def first (base : Path) : Session where
  task := .first base

/-- A step of a search, with what is asked and reported and what is answered in it. A task that
failed has nothing to do any more when its error is taken, so that nothing is left to be given up
then. -/
inductive Step (tree : FileTree) (settings : Settings) (matcher : Matcher) :
    Session → Trace → List Poll → Session → Prop where
  | work {task next : Task} {stream : Stream} {emitted : Trace}
      (step : Task.Step tree settings matcher task emitted next) :
      Step tree settings matcher ⟨task, stream⟩ emitted []
        ⟨next, stream.send (emitted.reported.map .ok)⟩
  | settle {task : Task} {stream : Stream} {ending : Ending} (ended : task.ending? = some ending)
      (unsettled : stream.outcome = none) :
      Step tree settings matcher ⟨task, stream⟩ {} []
        ⟨task, { stream.send ending.sends with outcome := some ending.outcome }⟩
  /-- The first task is heard before it is gone. -/
  | close {task : Task} {stream : Stream} (past : task.isOver) (sending : stream.sending = true)
      (heard : stream.outcome = none → ∀ error, task.ending? ≠ some (.failed error)) :
      Step tree settings matcher ⟨task, stream⟩ {} [] ⟨task, { stream with sending := false }⟩
  | poll {task : Task} {stream : Stream} :
      Step tree settings matcher ⟨task, stream⟩ {} [stream.poll.1] ⟨task, stream.poll.2⟩
  | putOff {task : Task} {stream : Stream} (unended : stream.ended = false) :
      Step tree settings matcher ⟨task, stream⟩ {} [.pending] ⟨task, stream⟩

inductive Run (tree : FileTree) (settings : Settings) (matcher : Matcher) :
    Session → Trace → List Poll → Session → Prop where
  | refl (session : Session) : Run tree settings matcher session {} [] session
  | step {session next final : Session} {emitted later : Trace} {answers more : List Poll}
      (first : Step tree settings matcher session emitted answers next)
      (rest : Run tree settings matcher next later more final) :
      Run tree settings matcher session (emitted.append later) (answers ++ more) final

end Session

end Search

end Glob
