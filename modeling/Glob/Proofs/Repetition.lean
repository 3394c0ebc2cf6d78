import Glob.Proofs.Faultless
import Glob.Proofs.Form

/-!
The loop of a repetition with its positions taken in any order. It continues once from every
position that it reaches, and which of them comes first makes no difference to what it finds.
-/

namespace Glob.Checked

open Relation (ReflTransGen TransGen)

/-- A repetition between two rounds, with the positions that it has continued from. -/
inductive Stage where
  | running (explored : List Nat) (frontier : Frontier)
  | finished (explored : List Nat) (answer : Bool)

namespace Stage

def explored : Stage → List Nat
  | running explored _ => explored
  | finished explored _ => explored

def initial (start : Nat) : Stage :=
  running [] ⟨[], [start]⟩

def after (explored : List Nat) : Option Frontier → Stage
  | none => finished explored true
  | some frontier => running explored frontier

end Stage

/-- A round of the loop, which takes any of the pending positions. -/
inductive Round {α : Type} (holds : Occurrence α → Checked Bool) (goal : Nat → Checked Bool)
    (possible : Nat → Checked (List (Occurrence α))) : Stage → Stage → Prop
  | finish {explored visited : List Nat} :
      Round holds goal possible (.running explored ⟨visited, []⟩) (.finished explored false)
  | take {explored visited pending others : List Nat} {here : Nat}
      {occurrences : List (Occurrence α)} {result : Option Frontier}
      (chosen : pending.Perm (here :: others)) (offered : possible here = .ok occurrences)
      (followed : visit holds goal here occurrences ⟨visited, others⟩ = .ok result) :
      Round holds goal possible (.running explored ⟨visited, pending⟩)
        (.after (here :: explored) result)

section

variable {α : Type} {holds : Occurrence α → Checked Bool} {goal : Nat → Checked Bool}
  {possible : Nat → Checked (List (Occurrence α))} {judge : Occurrence α → Bool}
  {reached : Nat → Bool} {follows : Nat → Nat → Prop}
  {explored visited pending others : List Nat} {start stop : Nat} {frontier : Frontier}
  {stage next : Stage}

/-- The loop that goes on from what it reached last is one of those that take any order. -/
theorem rounds_of_explore {limit : Nat} {answer : Bool}
    (explores : explore holds goal possible limit frontier = .ok answer) :
    ∃ later, ReflTransGen (Round holds goal possible) (.running explored frontier)
      (.finished later answer) := by
  induction limit generalizing explored frontier with
  | zero => cases explores
  | succ limit ih =>
      obtain ⟨visited, pending⟩ := frontier
      cases pending with
      | nil =>
          cases explores
          exact ⟨explored, .single .finish⟩
      | cons here pending =>
          rw [explore] at explores
          cases offered : possible here with
          | error fault => simp [offered, bind, Except.bind] at explores
          | ok occurrences =>
              rw [offered, ok_bind] at explores
              cases followed : visit holds goal here occurrences ⟨visited, pending⟩ with
              | error fault => simp [followed, bind, Except.bind] at explores
              | ok result =>
                  rw [followed, ok_bind] at explores
                  have first : Round holds goal possible
                      (.running explored ⟨visited, here :: pending⟩)
                      (.after (here :: explored) result) := .take (.refl _) offered followed
                  cases result with
                  | none =>
                      cases explores
                      exact ⟨_, .single first⟩
                  | some frontier =>
                      obtain ⟨later, rest⟩ := ih explores
                      exact ⟨later, .head first rest⟩

/-- A repetition of the checked matcher is a run of such rounds. -/
theorem rounds_of_acceptsRepeatedly {subject : Subject}
    {holds : Occurrence (List Piece) → Checked Bool} {alternatives : List (List Piece)}
    {answer : Bool}
    (accepts : acceptsRepeatedly subject holds goal alternatives start stop = .ok answer) :
    ∃ later, ReflTransGen (Round holds goal (possibleOccurrences subject stop alternatives))
      (.initial start) (.finished later answer) :=
  rounds_of_explore accepts

namespace Frontier.Sound

theorem perm (sound : Sound follows reached start ⟨visited, pending⟩)
    (same : pending.Perm others) : Sound follows reached start ⟨visited, others⟩ where
  distinct := sound.distinct
  chained := sound.chained
  refuted := sound.refuted
  known i member := sound.known i (same.mem_iff.mpr member)
  closed i present left := sound.closed i present fun member => left (same.mem_iff.mp member)

theorem explored_nodup (sound : Sound follows reached start ⟨visited, pending⟩)
    (forward : ∀ i j, follows i j → i < j ∧ j ≤ stop)
    (covered : (explored ++ others).Perm (start :: visited)) : explored.Nodup := by
  have fresh : start ∉ visited := fun member =>
    Nat.lt_irrefl start (le_of_follows forward (sound.chained start member)).1
  have once := covered.nodup_iff.mpr (List.nodup_cons.mpr ⟨fresh, sound.distinct⟩)
  exact (List.nodup_append.mp once).1

theorem length_explored_le (sound : Sound follows reached start ⟨visited, pending⟩)
    (forward : ∀ i j, follows i j → i < j ∧ j ≤ stop)
    (covered : (explored ++ others).Perm (start :: visited)) :
    explored.length ≤ stop - start + 1 := by
  have total := covered.length_eq
  have fewer := sound.length_visited_le forward
  rw [List.length_append, List.length_cons] at total
  omega

end Frontier.Sound

/-- What holds between two rounds: the positions reached are those that were continued from and
those that are pending. -/
inductive Stage.Sound (follows : Nat → Nat → Prop) (reached : Nat → Bool) (start stop : Nat) :
    Stage → Prop
  | running {explored : List Nat} {frontier : Frontier}
      (sound : frontier.Sound follows reached start)
      (covered : (explored ++ frontier.pending).Perm (start :: frontier.visited)) :
      Sound follows reached start stop (.running explored frontier)
  | finished {explored : List Nat} {answer : Bool} (distinct : explored.Nodup)
      (few : explored.length ≤ stop - start + 1)
      (right : answer = true ↔ ∃ last, TransGen follows start last ∧ reached last = true) :
      Sound follows reached start stop (.finished explored answer)

namespace Stage.Sound

theorem initial : Sound follows reached start stop (.initial start) :=
  .running .initial (.refl [start])

theorem nodup (sound : Sound follows reached start stop stage)
    (forward : ∀ i j, follows i j → i < j ∧ j ≤ stop) : stage.explored.Nodup := by
  cases sound with
  | running sound covered => exact sound.explored_nodup forward covered
  | finished distinct _ _ => exact distinct

theorem length_le (sound : Sound follows reached start stop stage)
    (forward : ∀ i j, follows i j → i < j ∧ j ≤ stop) :
    stage.explored.length ≤ stop - start + 1 := by
  cases sound with
  | running sound covered => exact sound.length_explored_le forward covered
  | finished _ few _ => exact few

section

variable (forward : ∀ i j, follows i j → i < j ∧ j ≤ stop)
  (offers : ∀ i, start ≤ i → i ≤ stop → Offers holds goal possible judge reached follows i)
  (inside : start ≤ stop)

include forward offers inside

theorem round (sound : Sound follows reached start stop stage)
    (step : Round holds goal possible stage next) : Sound follows reached start stop next := by
  cases step with
  | finish =>
      obtain ⟨sound, covered⟩ := sound
      exact .finished (sound.explored_nodup forward covered)
        (sound.length_explored_le forward covered)
        (iff_of_false Bool.false_ne_true sound.not_reached)
  | @take explored visited pending others here occurrences result chosen offered followed =>
      obtain ⟨sound, covered⟩ := sound
      have kept := sound.perm chosen
      -- Positions only move from the pending ones to those continued from, whichever is chosen.
      have moved : (here :: explored ++ others).Perm (start :: visited) :=
        calc
          List.Perm (here :: explored ++ others) (explored ++ here :: others) :=
            List.perm_middle.symm
          List.Perm _ (explored ++ pending) := chosen.symm.append_left explored
          List.Perm _ (start :: visited) := covered
      have ⟨low, bound⟩ := kept.le_of_pending forward inside List.mem_cons_self
      obtain ⟨known, same, ⟨ends, found⟩ | ⟨fresh, goesOn, grown⟩⟩ :=
        kept.continued (offers here low bound)
      · cases offered.symm.trans same
        cases followed.symm.trans ends
        exact .finished (kept.explored_nodup forward moved) (kept.length_explored_le forward moved)
          (iff_of_true rfl found)
      · cases offered.symm.trans same
        cases followed.symm.trans goesOn
        refine .running grown ?_
        calc
          List.Perm (here :: explored ++ (fresh ++ others))
              (fresh ++ (here :: explored ++ others)) := List.perm_append_comm_assoc ..
          List.Perm _ (fresh ++ start :: visited) := moved.append_left fresh
          List.Perm _ (start :: (fresh ++ visited)) := List.perm_middle

theorem finished_or_round (sound : Sound follows reached start stop stage) :
    (∃ explored answer, stage = .finished explored answer ∧
        (answer = true ↔ ∃ last, TransGen follows start last ∧ reached last = true)) ∨
      ∃ next, Round holds goal possible stage next := by
  cases sound with
  | @finished explored answer _ _ right => exact .inl ⟨explored, answer, rfl, right⟩
  | @running explored frontier sound covered =>
      right
      obtain ⟨visited, pending⟩ := frontier
      cases pending with
      | nil => exact ⟨_, .finish⟩
      | cons here others =>
          have ⟨low, bound⟩ := sound.le_of_pending forward inside List.mem_cons_self
          obtain ⟨_, offered, ⟨followed, _⟩ | ⟨_, followed, _⟩⟩ :=
            sound.continued (offers here low bound)
          all_goals exact ⟨_, .take (.refl _) offered followed⟩

theorem rounds (sound : Sound follows reached start stop stage)
    (run : ReflTransGen (Round holds goal possible) stage next) :
    Sound follows reached start stop next := by
  induction run with
  | refl => exact sound
  | tail _ step ih => exact ih.round forward offers inside step

end

end Stage.Sound

theorem length_explored_of_round {later : Stage} (step : Round holds goal possible stage next)
    (another : Round holds goal possible next later) :
    next.explored.length = stage.explored.length + 1 := by
  cases step with
  | finish => cases another
  | @take explored visited pending others here occurrences result chosen offered followed =>
      cases result with
      | none => cases another
      | some frontier => rfl

theorem not_endless (forward : ∀ i j, follows i j → i < j ∧ j ≤ stop)
    (offers : ∀ i, start ≤ i → i ≤ stop → Offers holds goal possible judge reached follows i)
    (inside : start ≤ stop) :
    ¬∃ stages : ℕ → Stage, stages 0 = .initial start ∧
      ∀ i, Round holds goal possible (stages i) (stages (i + 1)) := by
  rintro ⟨stages, first, step⟩
  have sound (i : Nat) : Stage.Sound follows reached start stop (stages i) := by
    induction i with
    | zero => exact first ▸ .initial
    | succ i ih => exact ih.round forward offers inside (step i)
  have more (i : Nat) : (stages i).explored.length = i := by
    induction i with
    | zero => rw [first]; rfl
    | succ i ih => rw [length_explored_of_round (step i) (step (i + 1)), ih]
  have few := (sound (stop - start + 2)).length_le forward
  rw [more] at few
  omega

end

end Glob.Checked

namespace Glob.Subject

open Checked (LeadsWithin Offers Stage)
open Relation (ReflTransGen TransGen)

section

variable {α : Type} (subject : Subject) (pieces : α → List Piece) (alternatives : List α)
  (rest : List Piece) (start stop : Nat) (leading : Bool)

def RepeatsBefore : Prop :=
  ∃ last, TransGen (fun i j => i < j ∧ TakesAny subject.acceptsWindow (alternatives.map pieces) i j)
      start last ∧
    last ≤ stop ∧ subject.accepts rest last stop leading = true

def RepetitionRound : Stage → Stage → Prop :=
  Checked.Round (fun occurrence => .ok (judged subject.acceptsWindow pieces occurrence))
    (fun i => .ok (subject.accepts rest i stop leading))
    (fun i => .ok (subject.possibleOccurrences pieces alternatives stop i))

end

variable {α : Type} {subject : Subject} {pieces : α → List Piece} {alternatives : List α}
  {rest : List Piece} {start stop : Nat} {leading : Bool}

theorem repeatsBefore_iff :
    subject.RepeatsBefore pieces alternatives rest start stop leading ↔
      ∃ last, TransGen (LeadsWithin subject (alternatives.map pieces) stop) start last ∧
        subject.accepts rest last stop leading = true := by
  apply exists_congr
  intro last
  have same : TransGen (fun i j => i < j ∧
        TakesAny subject.acceptsWindow (alternatives.map pieces) i j) start last ↔
      TransGen (fun i j => i < j ∧
        subject.TakesOnce subject.acceptsWindow (alternatives.map pieces) i j) start last :=
    ⟨transChain_congr fun _ _ _ low _ => (takesOnce_iff_takesAny low).symm,
      transChain_congr fun _ _ _ low _ => takesOnce_iff_takesAny low⟩
  rw [Checked.transGen_leadsWithin_iff, same, and_left_comm, and_assoc]

/-- The loop of a repetition finds whether one or more non-empty stretches lead to where the rest
matches. It may take the positions in any order: it always comes to an end, continues from no
position twice, and ends with that answer. -/
theorem repetition_finds_reachable {α : Type} (subject : Subject) (pieces : α → List Piece)
    (alternatives : List α) (rest : List Piece) (start stop : Nat) (leading : Bool)
    (inside : start ≤ stop) :
    (subject.acceptsRepeatedly pieces alternatives (judged subject.acceptsWindow pieces)
        (fun i => subject.accepts rest i stop leading) start stop = true ↔
      subject.RepeatsBefore pieces alternatives rest start stop leading) ∧
    (∀ stage, ReflTransGen (subject.RepetitionRound pieces alternatives rest stop leading)
        (.initial start) stage →
      stage.explored.Nodup ∧ stage.explored.length ≤ stop - start + 1 ∧
        ((∃ explored answer, stage = .finished explored answer ∧ (answer = true ↔
            subject.RepeatsBefore pieces alternatives rest start stop leading)) ∨
          ∃ next, subject.RepetitionRound pieces alternatives rest stop leading stage next)) ∧
    ¬∃ stages : ℕ → Stage, stages 0 = .initial start ∧
      ∀ i, subject.RepetitionRound pieces alternatives rest stop leading (stages i)
        (stages (i + 1)) := by
  have forward (i j : Nat) (leads : LeadsWithin subject (alternatives.map pieces) stop i j) :
      i < j ∧ j ≤ stop := ⟨leads.1, leads.2.1⟩
  have offers (here : Nat) (_ : start ≤ here) (bound : here ≤ stop) :
      Offers (fun occurrence => .ok (judged subject.acceptsWindow pieces occurrence))
        (fun i => .ok (subject.accepts rest i stop leading))
        (fun i => .ok (subject.possibleOccurrences pieces alternatives stop i))
        (judged subject.acceptsWindow pieces) (fun i => subject.accepts rest i stop leading)
        (LeadsWithin subject (alternatives.map pieces) stop) here :=
    ⟨_, rfl, fun _ _ => ⟨rfl, rfl⟩, fun _ => Checked.leadsWithin_iff bound⟩
  rw [repeatsBefore_iff]
  refine ⟨Checked.acceptsRepeatedly_iff_leadsWithin inside, fun stage run => ?_,
    Checked.not_endless forward offers inside⟩
  have sound := Stage.Sound.initial.rounds forward offers inside run
  exact ⟨sound.nodup forward, sound.length_le forward,
    sound.finished_or_round forward offers inside⟩

theorem repetition_finds_reachable_three :
    let subject : Subject := ⟨"abba/c".toList.toArray, {}⟩
    let alternatives : List (List Piece) := [[.literal ['a', 'b']], [.star], [.literal ['a', '/']]]
    0 ≤ 6 ∧ subject.accepts [.list .exactlyOne alternatives, .literal ['c']] 0 6 false = false ∧
      subject.RepeatsBefore id alternatives [.literal ['c']] 0 6 false :=
  ⟨Nat.zero_le 6, by decide +kernel,
    (repetition_finds_reachable _ id _ _ 0 6 false (Nat.zero_le 6)).1.mp (by decide +kernel)⟩

end Glob.Subject
