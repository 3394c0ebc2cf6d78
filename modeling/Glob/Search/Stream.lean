import Glob.Search.Entry

/-!
The stream that a search delivers its entries through. It ends after the first error, and it ends
with the task of the search otherwise.
-/

namespace Glob

namespace Search

/-- How the task of a search came to its end. -/
inductive Outcome where
  | finished
  | cancelled
  | brokenDown
  deriving DecidableEq, Repr

structure Stream where
  /-- What has been sent and not been taken yet. -/
  queue : List (Except Error Entry) := []
  /-- Whether more may be sent. -/
  sending : Bool := true
  /-- How the task ended, if it did. -/
  outcome : Option Outcome := none
  /-- Whether the stream has told its end. -/
  ended : Bool := false

inductive Poll where
  /-- There is nothing to take yet. -/
  | pending
  | entry (entry : Entry)
  | failure (error : Error)
  /-- The matcher broke down. -/
  | brokenDown
  | finished
  deriving DecidableEq, Repr

namespace Stream

def send (stream : Stream) (items : List (Except Error Entry)) : Stream :=
  { stream with queue := stream.queue ++ items }

/-- The task has ended, and with it the sending. -/
def close (stream : Stream) (outcome : Outcome) : Stream :=
  { stream with sending := false, outcome := some outcome }

/-- What a stream says when all that was sent has been taken. -/
def pollOutcome (stream : Stream) : Poll × Stream :=
  match stream.outcome with
  | none => (.pending, stream)
  | some .finished => (.finished, { stream with ended := true })
  | some .cancelled => (.failure .cancelled, { stream with ended := true })
  | some .brokenDown => (.brokenDown, { stream with ended := true })

/-- Takes the next item, if there is one. -/
def poll (stream : Stream) : Poll × Stream :=
  if stream.ended then (.finished, stream)
  else
    match stream.queue with
    | .ok entry :: rest => (.entry entry, { stream with queue := rest })
    | .error error :: rest => (.failure error, { stream with queue := rest, ended := true })
    | [] => if stream.sending then (.pending, stream) else stream.pollOutcome

def polls : Nat → Stream → List Poll
  | 0, _ => []
  | count + 1, stream => stream.poll.1 :: polls count stream.poll.2

end Stream

inductive Result where
  | entries (entries : List Entry)
  | failure (error : Error)
  | brokenDown
  deriving DecidableEq, Repr

namespace Result

def addEntry (entry : Entry) : Result → Result
  | entries later => entries (entry :: later)
  | other => other

/-- The entries up to the first answer that ends them. -/
def ofPolls : List Poll → Result
  | [] | .finished :: _ => entries []
  | .pending :: rest => ofPolls rest
  | .entry entry :: rest => addEntry entry (ofPolls rest)
  | .failure error :: _ => failure error
  | .brokenDown :: _ => brokenDown

end Result

/-- Takes everything that has been sent, and then the end. -/
def Stream.collect (stream : Stream) : Result :=
  .ofPolls (stream.polls (stream.queue.length + 1))

end Search

end Glob
