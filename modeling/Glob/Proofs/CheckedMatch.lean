import Glob.Pattern
import Glob.Proofs.CheckedText
import Glob.Proofs.Worklist

/-!
The matcher with every access checked: pieces are read by their positions, parts of a sequence are
cut out by their bounds, and every window has to lie in the text.
-/

namespace Glob.Checked

section

variable (subject : Subject) (holds : Occurrence (List Piece) → Checked Bool)
  (goal : Nat → Checked Bool) (alternatives : List (List Piece)) (start stop : Nat)

def acceptsOnce : Checked Bool := do
  (← possibleOccurrences subject stop alternatives start).anyM fun occurrence =>
    holds occurrence <&&> goal occurrence.stop

/-- Each round leaves a position behind, and there are no more than those of the window. -/
def acceptsRepeatedly : Checked Bool :=
  explore holds goal (possibleOccurrences subject stop alternatives) (stop - start + 2)
    ⟨[], [start]⟩

def acceptsNegated : Checked Bool := do
  let longestFirst := (positions start (← componentEnd subject stop start)).reverse
  longestFirst.anyM fun last =>
    (do return !(← alternatives.anyM fun alternative => holds ⟨alternative, start, last⟩)) <&&>
      goal last

def starFrom (i : Nat) : Checked Bool :=
  goal i <||> do
    if i == stop then return false
    else if ← isSeparatorAt subject stop i then return false
    else if i < stop then starFrom (i + 1)
    else .error (.position i)
termination_by stop - i

end

section

variable (subject : Subject) (again : List Piece → Nat → Nat → Bool → Checked Bool)

def acceptsSeparatorGlobstar (pieces : List Piece) (start stop : Nat) (leading : Bool) :
    Checked Bool := do
  let separated ← pure (decide (start < stop)) <&&> isSeparatorAt subject stop start
  if pieces.length == 2 then
    if subject.options.trailingGlobstarNeedsComponent then
      pure separated <&&> do return decide (2 ≤ (← difference stop start))
    else return start == stop || separated
  else
    let single : Checked Bool := do
      match ← element pieces 2 with
      | .separator => again (← part pieces 2 pieces.length) start stop leading
      | _ => return false
    let longer : Checked Bool := do
      again (← part pieces 1 pieces.length) (start + 1) stop leading
    single <||> (pure separated <&&> longer)

def endsInZeroDirectories (pieces : List Piece) (start stop : Nat) : Checked Bool :=
  match pieces.reverse with
  | [.separator, .globstar] => atSegmentStart subject stop start
  | .separator :: .globstar :: .separator :: _ => return true
  | _ => return false

def acceptsFinalSeparator (pieces : List Piece) (start stop : Nat) : Checked Bool := do
  let separated ← pure (decide (start < stop)) <&&>
    do isSeparatorAt subject stop (← difference stop 1)
  let withoutDirectories : Checked Bool := do
    again (← part pieces 0 (← difference pieces.length 2)) start stop false
  let withoutSeparator : Checked Bool := do
    again (← part pieces 0 (← difference pieces.length 1)) start (← difference stop 1) false
  if ← endsInZeroDirectories subject pieces start stop then
    if separated then withoutDirectories <||> withoutSeparator else withoutDirectories
  else pure separated <&&> withoutSeparator

def acceptsStar (rest : List Piece) (start stop : Nat) (leading : Bool) : Checked Bool := do
  if ← pure (decide (start < stop)) <&&> isHiddenPeriod subject stop start then return false
  else if rest.isEmpty then
    pure leading <||> (List.range' start (stop - start)).allM fun i => do
      return !(← isSeparatorAt subject stop i)
  else starFrom subject (fun i => again rest i stop leading) stop start

def acceptsGlobstar (rest : List Piece) (start stop : Nat) (leading : Bool) : Checked Bool := do
  let withoutDirectories : Checked Bool := do
    match ← element rest 0 with
    | .separator =>
      atSegmentStart subject stop start <&&> do
        again (← part rest 1 rest.length) start stop leading
    | _ => return false
  if rest.isEmpty then return true
  else withoutDirectories <||> (positions start stop).anyM fun i => again rest i stop leading

def acceptsList (quantifier : Quantifier) (alternatives : List (List Piece)) (rest : List Piece)
    (start stop : Nat) (leading : Bool) : Checked Bool :=
  let holds (occurrence : Occurrence (List Piece)) : Checked Bool :=
    again occurrence.alternative occurrence.start occurrence.stop false
  let goal (i : Nat) : Checked Bool := again rest i stop leading
  match quantifier with
  | .exactlyOne => acceptsOnce subject holds goal alternatives start stop
  | .zeroOrOne => acceptsOnce subject holds goal alternatives start stop <||> goal start
  | .zeroOrMore => goal start <||> acceptsRepeatedly subject holds goal alternatives start stop
  | .oneOrMore => acceptsRepeatedly subject holds goal alternatives start stop
  | .negated => acceptsNegated subject holds goal alternatives start stop

def acceptsOpen (pieces : List Piece) (start stop : Nat) (leading : Bool) : Checked Bool := do
  let rest ← part pieces 1 pieces.length
  match ← element pieces 0 with
  | .star => acceptsStar subject again rest start stop leading
  | .globstar => acceptsGlobstar subject again rest start stop leading
  | .list quantifier alternatives =>
    acceptsList subject again quantifier alternatives rest start stop leading
  | .separator | .literal _ | .anyChar | .bracket .. => return false

def acceptsFixedFirst (first : Piece) (pieces : List Piece) (start stop : Nat) (leading : Bool) :
    Checked Bool := do
  match ← advance subject stop start first with
  | some next => again (← part pieces 1 pieces.length) next stop leading
  | none => return false

def acceptsFixedLast (last : Piece) (pieces : List Piece) (start stop : Nat) : Checked Bool := do
  match ← retreat subject stop start last with
  | some previous => again (← part pieces 0 (← difference pieces.length 1)) start previous false
  | none => return false

def acceptsClosed (pieces : List Piece) (start stop : Nat) : Checked Bool := do
  let last ← element pieces (← difference pieces.length 1)
  match last with
  | .separator => acceptsFinalSeparator subject again pieces start stop
  | .literal _ | .anyChar | .bracket .. => acceptsFixedLast subject again last pieces start stop
  | .star | .globstar | .list .. => acceptsOpen subject again pieces start stop false

/-- One round of the matcher, which calls `again` for what is left to match. -/
def step (pieces : List Piece) (start stop : Nat) (leading : Bool) : Checked Bool :=
  if start ≤ stop ∧ stop ≤ subject.text.size then
    match pieces with
    | [] => pure (start == stop) <||> pure leading <&&> isSeparatorAt subject stop start
    | .separator :: .globstar :: _ =>
      acceptsSeparatorGlobstar subject again pieces start stop leading
    | first :: _ =>
      if first.extent?.isSome then acceptsFixedFirst subject again first pieces start stop leading
      else if leading then acceptsOpen subject again pieces start stop leading
      else acceptsClosed subject again pieces start stop
  else .error (.window start stop)

end

/-! The rounds as turns of a loop: what a turn goes on with is told apart from what it calls. -/

section

variable (subject : Subject) (call again : List Piece → Nat → Nat → Bool → Checked Bool)

/-- What ends with a separator. A call is needed if the separator may be taken off as well. -/
def turnFinalSeparator (pieces : List Piece) (start stop : Nat) : Checked Bool := do
  let separated ← pure (decide (start < stop)) <&&>
    do isSeparatorAt subject stop (← difference stop 1)
  let withoutDirectories (next : List Piece → Nat → Nat → Bool → Checked Bool) : Checked Bool := do
    next (← part pieces 0 (← difference pieces.length 2)) start stop false
  let withoutSeparator : Checked Bool := do
    again (← part pieces 0 (← difference pieces.length 1)) start (← difference stop 1) false
  if ← endsInZeroDirectories subject pieces start stop then
    if separated then withoutDirectories call <||> withoutSeparator else withoutDirectories again
  else pure separated <&&> withoutSeparator

def turnClosed (pieces : List Piece) (start stop : Nat) : Checked Bool := do
  let last ← element pieces (← difference pieces.length 1)
  match last with
  | .separator => turnFinalSeparator subject call again pieces start stop
  | .literal _ | .anyChar | .bracket .. => acceptsFixedLast subject again last pieces start stop
  | .star | .globstar | .list .. => acceptsOpen subject call pieces start stop false

def turn (pieces : List Piece) (start stop : Nat) (leading : Bool) : Checked Bool :=
  if start ≤ stop ∧ stop ≤ subject.text.size then
    match pieces with
    | [] => pure (start == stop) <||> pure leading <&&> isSeparatorAt subject stop start
    | .separator :: .globstar :: _ =>
      acceptsSeparatorGlobstar subject call pieces start stop leading
    | first :: _ =>
      if first.extent?.isSome then acceptsFixedFirst subject again first pieces start stop leading
      else if leading then acceptsOpen subject call pieces start stop leading
      else turnClosed subject call again pieces start stop
  else .error (.window start stop)

end

theorem turn_self (subject : Subject) (again : List Piece → Nat → Nat → Bool → Checked Bool) :
    turn subject again again = step subject again :=
  rfl

/-- The matcher with calls nested no deeper than `depth`. -/
def accepts (subject : Subject) : Nat → List Piece → Nat → Nat → Bool → Checked Bool
  | 0 => fun _ _ _ _ => .error .depth
  | depth + 1 => step subject (accepts subject depth)

end Glob.Checked
