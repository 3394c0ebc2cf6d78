import Mathlib.Data.Bool.Basic
import Mathlib.Logic.Basic

/-!
Computations whose accesses are checked: items are read by their position, parts of a sequence are
cut out by their bounds, and what would be below zero is no number.
-/

namespace Glob

/-- What can go wrong in a checked run. -/
inductive Fault where
  /-- Something is read at a position where nothing is. -/
  | position (i : Nat)
  /-- A part of a sequence has bounds that are not in it. -/
  | bounds (first last : Nat)
  /-- More is subtracted than there is. -/
  | difference (left right : Nat)
  /-- A window does not lie in the text. -/
  | window (start stop : Nat)
  /-- Calls are nested too deeply. -/
  | depth
  /-- A loop takes too many rounds. -/
  | rounds
  deriving DecidableEq, Repr

/-- A result, unless there was a fault. -/
abbrev Checked := Except Fault

namespace Checked

def difference (left right : Nat) : Checked Nat :=
  if right ≤ left then .ok (left - right) else .error (.difference left right)

def element {α : Type} (items : List α) (i : Nat) : Checked α :=
  match items[i]? with
  | some item => .ok item
  | none => .error (.position i)

def part {α : Type} (items : List α) (first last : Nat) : Checked (List α) :=
  if first ≤ last ∧ last ≤ items.length then .ok ((items.take last).drop first)
  else .error (.bounds first last)

theorem pure_eq_ok {α : Type} (a : α) : (pure a : Checked α) = .ok a :=
  rfl

@[simp]
theorem ok_bind {α β : Type} (a : α) (f : α → Checked β) : (Except.ok a >>= f) = f a :=
  rfl

theorem difference_eq_ok {left right : Nat} (fits : right ≤ left) :
    difference left right = .ok (left - right) :=
  if_pos fits

theorem element_eq_ok {α : Type} {items : List α} {i : Nat} {item : α}
    (here : items[i]? = some item) : element items i = .ok item := by
  rw [element, here]

theorem part_from {α : Type} {items : List α} {first : Nat} (bound : first ≤ items.length) :
    part items first items.length = .ok (items.drop first) := by
  rw [part, if_pos ⟨bound, Nat.le_refl _⟩, List.take_length]

theorem part_upTo {α : Type} {items : List α} {last : Nat} (bound : last ≤ items.length) :
    part items 0 last = .ok (items.take last) :=
  if_pos ⟨Nat.zero_le last, bound⟩

theorem part_dropLast {α : Type} (items : List α) :
    part items 0 (items.length - 1) = .ok items.dropLast := by
  rw [part_upTo (Nat.sub_le _ 1), List.dropLast_eq_take]

theorem part_dropLast_dropLast {α : Type} (items : List α) :
    part items 0 (items.length - 2) = .ok items.dropLast.dropLast := by
  have whole : items.dropLast = items.take (items.length - 1) := List.dropLast_eq_take
  have fewer : items.dropLast.length - 1 = items.length - 2 := by
    rw [List.length_dropLast]
    omega
  rw [part_upTo (Nat.sub_le _ 2), List.dropLast_eq_take, fewer, whole, List.take_take,
    Nat.min_eq_left (by omega)]

/-- The second result matters only where the first one is true. -/
theorem and_eq_ok {first second : Checked Bool} {b c : Bool} (known : first = .ok b)
    (later : b = true → second = .ok c) : (first <&&> second) = .ok (b && c) := by
  subst known
  cases b with
  | false => rfl
  | true => exact later rfl

theorem or_eq_ok {first second : Checked Bool} {b c : Bool} (known : first = .ok b)
    (later : b = false → second = .ok c) : (first <||> second) = .ok (b || c) := by
  subst known
  cases b with
  | false => exact later rfl
  | true => rfl

theorem mapM_eq_ok {α β : Type} {items : List α} {f : α → Checked β} {g : α → β}
    (known : ∀ item ∈ items, f item = .ok (g item)) : items.mapM f = .ok (items.map g) := by
  induction items with
  | nil => rfl
  | cons item rest ih =>
      rw [List.mapM_cons, known item List.mem_cons_self, ok_bind,
        ih fun other member => known other (List.mem_cons_of_mem item member)]
      rfl

theorem flatMapM_eq_ok {α β : Type} {items : List α} {f : α → Checked (List β)} {g : α → List β}
    (known : ∀ item ∈ items, f item = .ok (g item)) :
    items.flatMapM f = .ok (items.flatMap g) := by
  induction items with
  | nil => rfl
  | cons item rest ih =>
      rw [List.flatMapM_cons, known item List.mem_cons_self, ok_bind,
        ih fun other member => known other (List.mem_cons_of_mem item member)]
      rfl

theorem anyM_eq_ok {α : Type} {items : List α} {test : α → Checked Bool} {holds : α → Bool}
    (known : ∀ item ∈ items, test item = .ok (holds item)) :
    items.anyM test = .ok (items.any holds) := by
  induction items with
  | nil => rfl
  | cons item rest ih =>
      have later := ih fun other member => known other (List.mem_cons_of_mem item member)
      rw [List.anyM, known item List.mem_cons_self, ok_bind, List.any_cons]
      cases holds item with
      | false => exact later
      | true => rfl

theorem allM_eq_ok {α : Type} {items : List α} {test : α → Checked Bool} {holds : α → Bool}
    (known : ∀ item ∈ items, test item = .ok (holds item)) :
    items.allM test = .ok (items.all holds) := by
  induction items with
  | nil => rfl
  | cons item rest ih =>
      have later := ih fun other member => known other (List.mem_cons_of_mem item member)
      rw [List.allM, known item List.mem_cons_self, ok_bind, List.all_cons]
      cases holds item with
      | false => rfl
      | true => exact later

theorem findM?_eq_ok {α : Type} {items : List α} {test : α → Checked Bool} {holds : α → Bool}
    (known : ∀ item ∈ items, test item = .ok (holds item)) :
    items.findM? test = .ok (items.find? holds) := by
  induction items with
  | nil => rfl
  | cons item rest ih =>
      have later := ih fun other member => known other (List.mem_cons_of_mem item member)
      rw [List.findM?, known item List.mem_cons_self, ok_bind, List.find?]
      cases holds item with
      | false => exact later
      | true => rfl

/-- The result is no fault, and says whether `truth` holds. -/
def Decides (result : Checked Bool) (truth : Prop) : Prop :=
  ∃ b, result = .ok b ∧ (b = true ↔ truth)

section

variable {first second : Checked Bool} {p q : Prop} {b : Bool}

theorem decides_pure (b : Bool) : Decides (pure b) (b = true) :=
  ⟨b, rfl, Iff.rfl⟩

theorem Decides.congr (decided : Decides first p) (same : p ↔ q) : Decides first q := by
  obtain ⟨b, rfl, truth⟩ := decided
  exact ⟨b, rfl, truth.trans same⟩

theorem Decides.eq_ok (decided : Decides first (b = true)) : first = .ok b := by
  obtain ⟨found, rfl, truth⟩ := decided
  rw [Bool.eq_iff_iff.mpr truth]

theorem decides_of_eq_ok (same : first = .ok b) : Decides first (b = true) :=
  ⟨b, same, Iff.rfl⟩

theorem Decides.and (decided : Decides first p) (later : p → Decides second q) :
    Decides (first <&&> second) (p ∧ q) := by
  obtain ⟨b, rfl, truth⟩ := decided
  cases b with
  | false => exact ⟨false, rfl, by simp [← truth]⟩
  | true =>
      obtain ⟨c, rfl, also⟩ := later (truth.mp rfl)
      exact ⟨c, rfl, also.trans (and_iff_right (truth.mp rfl)).symm⟩

theorem Decides.or (decided : Decides first p) (later : ¬p → Decides second q) :
    Decides (first <||> second) (p ∨ q) := by
  obtain ⟨b, rfl, truth⟩ := decided
  cases b with
  | true => exact ⟨true, rfl, by simp [← truth]⟩
  | false =>
      have refuted : ¬p := fun holds => Bool.false_ne_true (truth.mpr holds)
      obtain ⟨c, rfl, also⟩ := later refuted
      exact ⟨c, rfl, also.trans (or_iff_right refuted).symm⟩

end

end Checked

end Glob
