import Glob.Proofs.Sweep

/-! The sequences that stand inside a sequence at any depth. -/

namespace Glob

namespace Piece

mutual

/-- The alternatives of the lists of a sequence, and what stands inside them. -/
def inner : List Piece → List (List Piece)
  | [] => []
  | piece :: rest => piece.innerOf ++ inner rest

def innerOf : Piece → List (List Piece)
  | list _ alternatives => allInner alternatives
  | separator | literal _ | anyChar | bracket .. | star | globstar => []

def allInner : List (List Piece) → List (List Piece)
  | [] => []
  | pieces :: rest => pieces :: inner pieces ++ allInner rest

end

def sequences (pieces : List Piece) : List (List Piece) :=
  pieces :: inner pieces

variable {pieces alternative part : List Piece} {quantifier : Quantifier}
  {alternatives : List (List Piece)}

theorem mem_sequences_self : pieces ∈ sequences pieces :=
  List.mem_cons_self

theorem mem_allInner : part ∈ allInner alternatives ↔
    ∃ alternative ∈ alternatives, part ∈ sequences alternative := by
  induction alternatives with
  | nil => simp [allInner]
  | cons first rest ih => simp [allInner, ih, sequences, or_assoc]

theorem mem_inner : part ∈ inner pieces ↔
    ∃ piece ∈ pieces, part ∈ piece.innerOf := by
  induction pieces with
  | nil => simp [inner]
  | cons piece rest ih => simp [inner, ih]

theorem mem_sequences_of_alternative (present : .list quantifier alternatives ∈ pieces)
    (member : alternative ∈ alternatives) (deep : part ∈ sequences alternative) :
    part ∈ sequences pieces := by
  have within : part ∈ (list quantifier alternatives).innerOf :=
    mem_allInner.mpr ⟨alternative, member, deep⟩
  exact List.mem_cons_of_mem pieces (mem_inner.mpr ⟨_, present, within⟩)

theorem mem_sequences_iff : part ∈ sequences pieces ↔
    part = pieces ∨ ∃ quantifier alternatives, .list quantifier alternatives ∈ pieces ∧
      ∃ alternative ∈ alternatives, part ∈ sequences alternative := by
  constructor
  · intro deep
    rcases List.mem_cons.mp deep with same | within
    · exact .inl same
    · obtain ⟨piece, present, inside⟩ := mem_inner.mp within
      cases piece with
      | list quantifier alternatives =>
          exact .inr ⟨quantifier, alternatives, present, mem_allInner.mp inside⟩
      | separator | literal | anyChar | bracket | star | globstar => cases inside
  · intro cases
    rcases cases with same | ⟨quantifier, alternatives, present, alternative, member, deep⟩
    · rw [same]
      exact mem_sequences_self
    · exact mem_sequences_of_alternative present member deep

theorem size_le_count {piece : Piece} (present : piece ∈ pieces) : piece.size ≤ count pieces := by
  induction pieces with
  | nil => cases present
  | cons first rest ih =>
      rw [count]
      rcases List.mem_cons.mp present with same | later
      · rw [same]
        exact Nat.le_add_right _ _
      · exact Nat.le_trans (ih later) (Nat.le_add_left _ _)

theorem count_alternative_lt (present : .list quantifier alternatives ∈ pieces)
    (member : alternative ∈ alternatives) : count alternative < count pieces := by
  have whole := size_le_count present
  have part := count_le_totalCount member
  rw [size] at whole
  omega

/-- Induction into the alternatives of lists. -/
@[elab_as_elim]
theorem depth_induction {motive : List Piece → Prop}
    (step : ∀ pieces, (∀ quantifier alternatives, .list quantifier alternatives ∈ pieces →
      ∀ alternative ∈ alternatives, motive alternative) → motive pieces)
    (pieces : List Piece) : motive pieces := by
  induction size : count pieces using Nat.strongRecOn generalizing pieces with
  | _ size ih =>
      apply step
      intro quantifier alternatives present alternative member
      have smaller := count_alternative_lt present member
      exact ih _ (size ▸ smaller) alternative rfl

def Everywhere (property : Piece → Prop) (pieces : List Piece) : Prop :=
  ∀ part ∈ sequences pieces, ∀ piece ∈ part, property piece

instance (property : Piece → Prop) [DecidablePred property] (pieces : List Piece) :
    Decidable (Everywhere property pieces) :=
  inferInstanceAs (Decidable (∀ part ∈ sequences pieces, ∀ piece ∈ part, property piece))

namespace Everywhere

variable {property : Piece → Prop} {piece : Piece} {rest : List Piece}

theorem mem (all : Everywhere property pieces) (present : piece ∈ pieces) : property piece :=
  all pieces mem_sequences_self piece present

theorem of_alternative (all : Everywhere property pieces)
    (present : .list quantifier alternatives ∈ pieces) (member : alternative ∈ alternatives) :
    Everywhere property alternative := by
  intro part deep
  exact all part (mem_sequences_of_alternative present member deep)

theorem subset (all : Everywhere property pieces) (fewer : part ⊆ pieces) :
    Everywhere property part := by
  intro inside deep
  rcases mem_sequences_iff.mp deep with same | ⟨_, _, present, _, member, deeper⟩
  · intro piece present
    rw [same] at present
    exact all.mem (fewer present)
  · exact all inside (mem_sequences_of_alternative (fewer present) member deeper)

theorem tail (all : Everywhere property (piece :: rest)) : Everywhere property rest :=
  all.subset (List.subset_cons_self piece rest)

end Everywhere

end Piece

end Glob
