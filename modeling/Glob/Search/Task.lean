import Glob.Search.Walk

/-!
The tasks that carry out a search, and the steps in which they run at the same time. Every directory
has a task of its own, and a task ends after the tasks of the directories below it. Which task takes
the next step is left open, and so is the order of the entries of a directory.
-/

namespace Glob

namespace Search

inductive Task where
  /-- The directory has not been listed yet. -/
  | waiting (visit : Visit)
  /-- Entries are left to ask about, or tasks below to wait for. -/
  | running (ancestors : List Location) (pending : List Entry) (children : List Task)
  | finished
  /-- The task has come to a bad end. Those below it may run on until they are given up. -/
  | stopped (ending : Ending) (irregular : ending ≠ .finished) (orphans : List Task)

namespace Task

def subtasks : Task → List Task
  | waiting _ | finished => []
  | running _ _ children => children
  | stopped _ _ orphans => orphans

def first (base : Path) : Task :=
  waiting (.first base)

/-- The tasks below after an entry has been asked about. -/
def spawn (matcher : Matcher) (ancestors : List Location) (entry : Entry) (children : List Task) :
    List Task :=
  if descends matcher entry then waiting ⟨entry.path, entry.relative, ancestors⟩ :: children
  else children

/-- A step of a task or of one below it, with what is asked and reported in it. -/
inductive Step (tree : FileTree) (settings : Settings) (matcher : Matcher) :
    Task → Trace → Task → Prop where
  | list {visit : Visit} {location : Location} {entries : List Entry}
      (entered : enter tree visit = .ok (some location))
      (listed : entries.Perm (list tree settings visit location)) :
      Step tree settings matcher (.waiting visit) {}
        (.running (location :: visit.ancestors) entries [])
  | cycle {visit : Visit} (closed : enter tree visit = .ok none) :
      Step tree settings matcher (.waiting visit) {} .finished
  | fail {visit : Visit} {error : Error} (failed : enter tree visit = .error error) :
      Step tree settings matcher (.waiting visit) {} (.stopped (.failed error) nofun [])
  | ask {ancestors : List Location} {entry : Entry} {pending : List Entry} {children : List Task}
      {verdict : Verdict} (asked : matcher entry.path entry.offeredText = some verdict) :
      Step tree settings matcher (.running ancestors (entry :: pending) children)
        { offered := [entry], reported := if verdict.reports then [entry] else [] }
        (.running ancestors pending (spawn matcher ancestors entry children))
  | breakDown {ancestors : List Location} {entry : Entry} {pending : List Entry}
      {children : List Task} (asked : matcher entry.path entry.offeredText = none) :
      Step tree settings matcher (.running ancestors (entry :: pending) children)
        { offered := [entry] } (.stopped .brokenDown nofun children)
  | child {ancestors : List Location} {pending : List Entry} {task next : Task} {emitted : Trace}
      (before after : List Task) (step : Step tree settings matcher task emitted next) :
      Step tree settings matcher (.running ancestors pending (before ++ task :: after)) emitted
        (.running ancestors pending (before ++ next :: after))
  | join {ancestors : List Location} (before after : List Task) :
      Step tree settings matcher (.running ancestors [] (before ++ .finished :: after)) {}
        (.running ancestors [] (before ++ after))
  | stop {ancestors : List Location} {ending : Ending} {irregular : ending ≠ .finished}
      (before orphans after : List Task) :
      Step tree settings matcher
        (.running ancestors [] (before ++ .stopped ending irregular orphans :: after)) {}
        (.stopped ending irregular (before ++ orphans ++ after))
  | finish {ancestors : List Location} :
      Step tree settings matcher (.running ancestors [] []) {} .finished
  | orphan {ending : Ending} {irregular : ending ≠ .finished} {task next : Task} {emitted : Trace}
      (before after : List Task) (step : Step tree settings matcher task emitted next) :
      Step tree settings matcher (.stopped ending irregular (before ++ task :: after)) emitted
        (.stopped ending irregular (before ++ next :: after))
  /-- A task that is given up leaves those below it behind. -/
  | giveUp {ending : Ending} {irregular : ending ≠ .finished} (before after : List Task)
      (task : Task) :
      Step tree settings matcher (.stopped ending irregular (before ++ task :: after)) {}
        (.stopped ending irregular (before ++ task.subtasks ++ after))

inductive Run (tree : FileTree) (settings : Settings) (matcher : Matcher) :
    Task → Trace → Task → Prop where
  | refl (task : Task) : Run tree settings matcher task {} task
  | step {task next final : Task} {emitted later : Trace}
      (first : Step tree settings matcher task emitted next)
      (rest : Run tree settings matcher next later final) :
      Run tree settings matcher task (emitted.append later) final

end Task

end Search

end Glob
