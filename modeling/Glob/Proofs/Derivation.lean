import Mathlib.Data.List.Chain
import Glob.Proofs.Leading

/-!
What a pattern means, without windows and without an order in which it is tried: a stretch of a text
is derived piece by piece. The matcher finds exactly what can be derived, if periods are not hidden
and no `**` stands next to a separator, where it would mean more.
-/

namespace Glob

open Relation (ReflTransGen TransGen)

def SeparatorAt (options : Options) (text : Array Char) (i : Nat) : Prop :=
  ∃ c, text[i]? = some c ∧ options.isSeparator c = true

def PlainCharAt (options : Options) (text : Array Char) (property : Char → Prop) (i : Nat) : Prop :=
  ∃ c, text[i]? = some c ∧ options.isSeparator c = false ∧ property c

def SeparatorFree (options : Options) (text : Array Char) (start last : Nat) : Prop :=
  ∀ i, start ≤ i → i < last → ¬SeparatorAt options text i

namespace Piece

section

variable (options : Options) (text : Array Char)

mutual

/-- A sequence takes a stretch that splits into stretches its pieces take. -/
def Derives : List Piece → Nat → Nat → Prop
  | [], start, last => start = last
  | piece :: rest, start, last => ∃ middle, piece.Takes start middle ∧ Derives rest middle last

def Takes : Piece → Nat → Nat → Prop
  | separator, start, last => last = start + 1 ∧ SeparatorAt options text start
  | literal chars, start, last =>
    last = start + chars.length ∧
      ∀ (i : Nat) (_ : i < chars.length), text[start + i]? = some chars[i]
  | anyChar, start, last => last = start + 1 ∧ PlainCharAt options text (fun _ => True) start
  | bracket members negated, start, last =>
    last = start + 1 ∧
      PlainCharAt options text
        (fun c => (∃ member ∈ members, member.contains options.baseLetterRanges c = true) ↔
          negated = false) start
  | star, start, last => start ≤ last ∧ SeparatorFree options text start last
  | globstar, start, last => start ≤ last
  | list .exactlyOne alternatives, start, last => DerivesSome alternatives start last
  | list .zeroOrOne alternatives, start, last =>
    start = last ∨ DerivesSome alternatives start last
  | list .zeroOrMore alternatives, start, last => ReflTransGen (DerivesSome alternatives) start last
  | list .oneOrMore alternatives, start, last =>
    TransGen (fun i j => i < j ∧ DerivesSome alternatives i j) start last
  | list .negated alternatives, start, last =>
    start ≤ last ∧ SeparatorFree options text start last ∧ ¬DerivesSome alternatives start last

def DerivesSome : List (List Piece) → Nat → Nat → Prop
  | [], _, _ => False
  | pieces :: rest, start, last => Derives pieces start last ∨ DerivesSome rest start last

end

end

variable {options : Options} {text : Array Char} {pieces : List Piece} {start last : Nat}

theorem derivesSome_iff {alternatives : List (List Piece)} :
    DerivesSome options text alternatives start last ↔
      ∃ alternative ∈ alternatives, Derives options text alternative start last := by
  induction alternatives with
  | nil => simp [DerivesSome]
  | cons first rest ih => simp [DerivesSome, ih]

mutual

theorem le_of_derives : ∀ {pieces : List Piece} {start last : Nat},
    Derives options text pieces start last → start ≤ last
  | [], _, _, derived => by
      rw [Derives] at derived
      exact Nat.le_of_eq derived
  | piece :: rest, start, last, derived => by
      rw [Derives] at derived
      obtain ⟨middle, taken, later⟩ := derived
      exact Nat.le_trans (le_of_takes taken) (le_of_derives later)

theorem le_of_takes : ∀ {piece : Piece} {start last : Nat},
    piece.Takes options text start last → start ≤ last
  | separator, _, _, taken => by
      rw [Takes] at taken
      omega
  | literal _, _, _, taken => by
      rw [Takes] at taken
      omega
  | anyChar, _, _, taken => by
      rw [Takes] at taken
      omega
  | bracket .., _, _, taken => by
      rw [Takes] at taken
      omega
  | star, _, _, taken => by
      rw [Takes] at taken
      exact taken.1
  | globstar, _, _, taken => by
      rw [Takes] at taken
      exact taken
  | list .exactlyOne alternatives, _, _, taken => by
      rw [Takes] at taken
      exact le_of_derivesSome taken
  | list .zeroOrOne alternatives, _, _, taken => by
      rw [Takes] at taken
      rcases taken with same | taken
      · exact Nat.le_of_eq same
      · exact le_of_derivesSome taken
  | list .zeroOrMore alternatives, _, _, taken => by
      rw [Takes] at taken
      induction taken with
      | refl => exact Nat.le_refl _
      | tail _ step ih => exact Nat.le_trans ih (le_of_derivesSome step)
  | list .oneOrMore alternatives, _, _, taken => by
      rw [Takes] at taken
      exact le_of_chain taken.to_reflTransGen
  | list .negated alternatives, _, _, taken => by
      rw [Takes] at taken
      exact taken.1

theorem le_of_derivesSome : ∀ {alternatives : List (List Piece)} {start last : Nat},
    DerivesSome options text alternatives start last → start ≤ last
  | [], _, _, derived => by
      rw [DerivesSome] at derived
      exact derived.elim
  | pieces :: rest, _, _, derived => by
      rw [DerivesSome] at derived
      rcases derived with first | later
      · exact le_of_derives first
      · exact le_of_derivesSome later

end

mutual

theorem length_of_derives : ∀ {pieces : List Piece} {length start last : Nat},
    matchLength? pieces = some length → Derives options text pieces start last →
      last = start + length
  | [], _, _, _, fixes, derived => by
      rw [Derives] at derived
      cases fixes
      exact derived.symm
  | piece :: rest, length, start, last, fixes, derived => by
      rw [Derives] at derived
      obtain ⟨middle, taken, later⟩ := derived
      simp only [matchLength?, Option.bind_eq_bind, Option.bind_eq_some_iff] at fixes
      obtain ⟨width, fixesPiece, remaining, fixesRest, sum⟩ := fixes
      cases sum
      have first := length_of_takes fixesPiece taken
      have second := length_of_derives fixesRest later
      omega

theorem length_of_takes : ∀ {piece : Piece} {length start last : Nat},
    piece.width? = some length → piece.Takes options text start last → last = start + length
  | separator, _, _, _, fixes, taken => by
      rw [Takes] at taken
      cases fixes
      exact taken.1
  | literal _, _, _, _, fixes, taken => by
      rw [Takes] at taken
      cases fixes
      exact taken.1
  | anyChar, _, _, _, fixes, taken => by
      rw [Takes] at taken
      cases fixes
      exact taken.1
  | bracket .., _, _, _, fixes, taken => by
      rw [Takes] at taken
      cases fixes
      exact taken.1
  | list .exactlyOne alternatives, _, _, _, fixes, taken => by
      rw [Takes] at taken
      rw [width?] at fixes
      exact length_of_derivesSome fixes taken

theorem length_of_derivesSome : ∀ {alternatives : List (List Piece)} {length start last : Nat},
    commonLength? alternatives = some length → DerivesSome options text alternatives start last →
      last = start + length
  | [pieces], _, _, _, fixes, derived => by
      rw [DerivesSome, DerivesSome, or_false] at derived
      exact length_of_derives fixes derived
  | pieces :: second :: rest, length, _, _, fixes, derived => by
      rw [DerivesSome] at derived
      obtain ⟨common, fixesFirst, fixesRest⟩ := Option.bind_eq_some_iff.mp fixes
      obtain ⟨_, same, result⟩ := Option.bind_eq_some_iff.mp fixesRest
      cases result
      rcases derived with first | later
      · exact length_of_derives fixesFirst first
      · refine length_of_derivesSome ?_ later
        by_cases agree : commonLength? (second :: rest) == some length
        · exact eq_of_beq agree
        · rw [guard, if_neg agree] at same
          cases same

end

theorem separatorFree_append {middle : Nat} (left : SeparatorFree options text start middle)
    (right : SeparatorFree options text middle last) : SeparatorFree options text start last := by
  intro i low high
  by_cases before : i < middle
  · exact left i low before
  · exact right i (Nat.le_of_not_lt before) high

theorem separatorFree_self : SeparatorFree options text start start := by
  intro i low high
  omega

theorem separatorFree_plain {property : Char → Prop}
    (plain : PlainCharAt options text property start) :
    SeparatorFree options text start (start + 1) := by
  intro i low high separates
  obtain rfl : i = start := by omega
  obtain ⟨c, here, apart, _⟩ := plain
  obtain ⟨d, there, separator⟩ := separates
  rw [here] at there
  cases there
  rw [apart] at separator
  exact Bool.false_ne_true separator

mutual

theorem separatorFree_of_derives : ∀ {pieces : List Piece} {start last : Nat},
    maySpanComponents options pieces = false → Derives options text pieces start last →
      SeparatorFree options text start last
  | [], _, _, _, derived => by
      rw [Derives] at derived
      rw [derived]
      exact separatorFree_self
  | piece :: rest, _, _, stays, derived => by
      rw [Derives] at derived
      rw [maySpanComponents, Bool.or_eq_false_iff] at stays
      obtain ⟨middle, taken, later⟩ := derived
      exact separatorFree_append (separatorFree_of_takes stays.1 taken)
        (separatorFree_of_derives stays.2 later)

theorem separatorFree_of_takes : ∀ {piece : Piece} {start last : Nat},
    piece.maySpan options = false → piece.Takes options text start last →
      SeparatorFree options text start last
  | literal chars, start, last, stays, taken => by
      rw [Takes] at taken
      rw [maySpan, List.any_eq_false] at stays
      obtain ⟨ends, stands⟩ := taken
      intro i low high separates
      obtain ⟨c, here, separator⟩ := separates
      have within : i - start < chars.length := by omega
      have there := stands (i - start) within
      rw [show start + (i - start) = i by omega, here] at there
      cases there
      exact stays _ (List.getElem_mem within) separator
  | anyChar, _, _, _, taken => by
      rw [Takes] at taken
      rw [taken.1]
      exact separatorFree_plain taken.2
  | bracket .., _, _, _, taken => by
      rw [Takes] at taken
      rw [taken.1]
      exact separatorFree_plain taken.2
  | star, _, _, _, taken => by
      rw [Takes] at taken
      exact taken.2
  | list .exactlyOne alternatives, _, _, stays, taken => by
      rw [Takes] at taken
      rw [maySpan] at stays
      exact separatorFree_of_derivesSome stays taken
  | list .zeroOrOne alternatives, _, _, stays, taken => by
      rw [Takes] at taken
      rw [maySpan] at stays
      rcases taken with same | taken
      · rw [same]
        exact separatorFree_self
      · exact separatorFree_of_derivesSome stays taken
  | list .zeroOrMore alternatives, _, _, stays, taken => by
      rw [Takes] at taken
      rw [maySpan] at stays
      induction taken with
      | refl => exact separatorFree_self
      | tail _ step ih =>
          exact separatorFree_append ih (separatorFree_of_derivesSome stays step)
  | list .oneOrMore alternatives, _, _, stays, taken => by
      rw [Takes] at taken
      rw [maySpan] at stays
      induction taken with
      | single step => exact separatorFree_of_derivesSome stays step.2
      | tail _ step ih =>
          exact separatorFree_append ih (separatorFree_of_derivesSome stays step.2)
  | list .negated alternatives, _, _, _, taken => by
      rw [Takes] at taken
      exact taken.2.1

theorem separatorFree_of_derivesSome : ∀ {alternatives : List (List Piece)} {start last : Nat},
    someMaySpan options alternatives = false → DerivesSome options text alternatives start last →
      SeparatorFree options text start last
  | [], _, _, _, derived => by
      rw [DerivesSome] at derived
      exact derived.elim
  | pieces :: rest, _, _, stays, derived => by
      rw [DerivesSome] at derived
      rw [someMaySpan, Bool.or_eq_false_iff] at stays
      rcases derived with first | later
      · exact separatorFree_of_derives stays.1 first
      · exact separatorFree_of_derivesSome stays.2 later

end

end Piece

namespace Piece

/-- Whether two neighbours are not a `**` and a separator. -/
def keepsApart : Piece → Piece → Bool
  | globstar, separator | separator, globstar => false
  | _, _ => true

def Apart (pieces : List Piece) : Prop :=
  pieces.IsChain fun piece next => piece.keepsApart next = true

instance (pieces : List Piece) : Decidable (Apart pieces) :=
  inferInstanceAs (Decidable (pieces.IsChain _))

theorem apart_tail {piece : Piece} {rest : List Piece} (apart : Apart (piece :: rest)) :
    Apart rest :=
  List.IsChain.tail apart

end Piece

namespace Subject

variable {subject : Subject} {holds : List Piece → Nat → Nat → Bool} {pieces : List Piece}
  {piece : Piece} {start last stop extent : Nat}

theorem unbroken_iff_separatorFree (subject : Subject) :
    subject.Unbroken start last ↔ SeparatorFree subject.options subject.text start last := by
  apply forall_congr'
  intro i
  apply imp_congr_right
  intro _
  apply imp_congr_right
  intro _
  rw [← Bool.not_eq_true, isSeparatorAt_eq, SeparatorAt]

theorem fitsForm_of_derives
    (derived : Piece.Derives subject.options subject.text pieces start last) :
    subject.FitsForm pieces start last := by
  unfold FitsForm
  cases fixes : Piece.matchLength? pieces with
  | some length => exact Piece.length_of_derives fixes derived
  | none =>
      intro stays
      exact subject.unbroken_iff_separatorFree.mpr (Piece.separatorFree_of_derives stays derived)

theorem isPlainAt_iff (periods : subject.options.explicitLeadingPeriods = false) :
    subject.isPlainAt start = true ↔
      PlainCharAt subject.options subject.text (fun _ => True) start := by
  have visible : subject.isHiddenPeriod start = false := by
    rw [isHiddenPeriod, periods]
    rfl
  simp only [isPlainAt, visible, Bool.not_false, Bool.and_true, Bool.and_eq_true,
    decide_eq_true_eq, Bool.not_eq_true', PlainCharAt, and_true]
  constructor
  · intro plain
    refine ⟨subject.text[start], Array.getElem?_eq_getElem plain.1, ?_⟩
    have apart := plain.2
    rw [isSeparatorAt, Array.getElem?_eq_getElem plain.1] at apart
    exact apart
  · intro plain
    obtain ⟨c, here, apart⟩ := plain
    refine ⟨(Array.getElem?_eq_some_iff.mp here).1, ?_⟩
    rw [isSeparatorAt, here]
    exact apart

theorem standsAt_iff_takes (periods : subject.options.explicitLeadingPeriods = false)
    (takes : piece.extent? = some extent) :
    subject.standsAt start piece = true ↔
      piece.Takes subject.options subject.text start (start + extent) := by
  cases piece with
  | separator =>
      cases takes
      rw [standsAt, Piece.Takes, isSeparatorAt_eq, SeparatorAt]
      simp
  | literal chars =>
      cases takes
      rw [standsAt, Piece.Takes, literalAt_iff]
      simp
  | anyChar =>
      cases takes
      rw [standsAt, Piece.Takes, isPlainAt_iff periods]
      simp
  | bracket members negated =>
      cases takes
      rw [standsAt, Piece.Takes, Bool.and_eq_true, isPlainAt_iff periods, isMemberAt]
      constructor
      · intro both
        obtain ⟨⟨c, here, apart, _⟩, fits⟩ := both
        rw [here, Option.any_some] at fits
        refine ⟨rfl, c, here, apart, ?_⟩
        beta_reduce
        rw [← List.any_eq_true]
        cases negated <;> simpa using fits
      · intro taken
        obtain ⟨_, c, here, apart, fits⟩ := taken
        refine ⟨⟨c, here, apart, trivial⟩, ?_⟩
        rw [← List.any_eq_true] at fits
        rw [here, Option.any_some]
        cases negated <;> simpa using fits
  | star | globstar | list => cases takes

section

variable {alternatives : List (List Piece)} {quantifier : Quantifier}

theorem takesOnce_iff_derivesSome (inside : start ≤ last)
    (judged : ∀ alternative ∈ alternatives, holds alternative start last = true ↔
      Piece.Derives subject.options subject.text alternative start last) :
    subject.TakesOnce holds alternatives start last ↔
      Piece.DerivesSome subject.options subject.text alternatives start last := by
  rw [Piece.derivesSome_iff]
  apply exists_congr
  intro alternative
  apply and_congr_right
  intro present
  rw [judged alternative present]
  constructor
  · intro taken
    exact taken.2.2
  · intro derived
    exact ⟨inside, fitsForm_of_derives derived, derived⟩

theorem takesAny_iff_derivesSome
    (judged : ∀ alternative ∈ alternatives, holds alternative start last = true ↔
      Piece.Derives subject.options subject.text alternative start last) :
    TakesAny holds alternatives start last ↔
      Piece.DerivesSome subject.options subject.text alternatives start last := by
  rw [Piece.derivesSome_iff]
  apply exists_congr
  intro alternative
  apply and_congr_right
  intro present
  rw [judged alternative present]

theorem chain_iff_of_le {once : Nat → Nat → Prop} (rising : ∀ i j, once i j → i ≤ j) :
    ReflTransGen (fun i j => i < j ∧ once i j) start last ↔ ReflTransGen once start last := by
  constructor
  · intro chain
    exact ReflTransGen.mono (fun _ _ step => step.2) _ _ chain
  · intro chain
    induction chain with
    | refl => exact .refl
    | @tail middle last _ step ih =>
        by_cases same : middle = last
        · exact same ▸ ih
        · exact .tail ih ⟨Nat.lt_of_le_of_ne (rising middle last step) same, step⟩

theorem takesList_iff_takes (inside : start ≤ last)
    (judged : ∀ alternative ∈ alternatives, ∀ i j, i ≤ j → j ≤ last →
      (holds alternative i j = true ↔
        Piece.Derives subject.options subject.text alternative i j)) :
    subject.TakesList holds alternatives quantifier start last ↔
      (Piece.list quantifier alternatives).Takes subject.options subject.text start last := by
  have once : ∀ i j, i ≤ j → j ≤ last → (subject.TakesOnce holds alternatives i j ↔
      Piece.DerivesSome subject.options subject.text alternatives i j) :=
    fun i j low high => takesOnce_iff_derivesSome low
      fun alternative present => judged alternative present i j low high
  have any := takesAny_iff_derivesSome
    fun alternative present => judged alternative present start last inside (Nat.le_refl last)
  have spans := quantifier.spans_congr inside subject.unbroken_iff_separatorFree
    (fun i j _ => once i j) any
  rw [TakesList, spans]
  cases quantifier with
  | exactlyOne => rw [Piece.Takes, Quantifier.Spans]
  | zeroOrOne => rw [Piece.Takes, Quantifier.Spans]
  | zeroOrMore =>
      rw [Piece.Takes, Quantifier.Spans]
      exact chain_iff_of_le fun _ _ => Piece.le_of_derivesSome
  | oneOrMore => rw [Piece.Takes, Quantifier.Spans]
  | negated =>
      rw [Piece.Takes, Quantifier.Spans]
      simp [inside]

end

section

variable {rest : List Piece}

theorem sweeps_fixed_iff_derives (periods : subject.options.explicitLeadingPeriods = false)
    (takes : piece.extent? = some extent) (opens : ¬Piece.OpensGlobstar piece rest)
    (later : ∀ {i}, i ≤ stop → (subject.Sweeps holds rest i stop false ↔
      Piece.Derives subject.options subject.text rest i stop)) :
    subject.Sweeps holds (piece :: rest) start stop false ↔
      Piece.Derives subject.options subject.text (piece :: rest) start stop := by
  rw [sweeps_fixed takes opens, standsAt_iff_takes periods takes, Piece.Derives]
  constructor
  · intro swept
    obtain ⟨fits, taken, rest⟩ := swept
    exact ⟨start + extent, taken, (later fits).mp rest⟩
  · intro derived
    obtain ⟨middle, taken, rest⟩ := derived
    obtain rfl := Piece.length_of_takes (Piece.width?_of_extent? takes) taken
    have fits := Piece.le_of_derives rest
    exact ⟨fits, taken, (later fits).mpr rest⟩

theorem sweeps_star_iff_derives (periods : subject.options.explicitLeadingPeriods = false)
    (later : ∀ {i}, i ≤ stop → (subject.Sweeps holds rest i stop false ↔
      Piece.Derives subject.options subject.text rest i stop)) :
    subject.Sweeps holds (.star :: rest) start stop false ↔
      Piece.Derives subject.options subject.text (.star :: rest) start stop := by
  have visible : ¬(start < stop ∧ subject.isHiddenPeriod start = true) := by
    simp [isHiddenPeriod, periods]
  rw [sweeps_star, Piece.Derives]
  constructor
  · intro swept
    obtain ⟨_, middle, low, bound, clear, rest⟩ := swept
    refine ⟨middle, ?_, (later bound).mp rest⟩
    rw [Piece.Takes]
    exact ⟨low, subject.unbroken_iff_separatorFree.mp clear⟩
  · intro derived
    obtain ⟨middle, taken, rest⟩ := derived
    rw [Piece.Takes] at taken
    have bound := Piece.le_of_derives rest
    exact ⟨visible, middle, taken.1, bound, subject.unbroken_iff_separatorFree.mpr taken.2,
      (later bound).mpr rest⟩

theorem sweeps_globstar_iff_derives (apart : Piece.Apart (.globstar :: rest))
    (inside : start ≤ stop)
    (later : ∀ {i}, i ≤ stop → (subject.Sweeps holds rest i stop false ↔
      Piece.Derives subject.options subject.text rest i stop)) :
    subject.Sweeps holds (.globstar :: rest) start stop false ↔
      Piece.Derives subject.options subject.text (.globstar :: rest) start stop := by
  rw [sweeps_globstar, Piece.Derives]
  constructor
  · intro swept
    rcases swept with none | ⟨separates, _⟩ | ⟨middle, low, bound, rest⟩
    · subst none
      refine ⟨stop, ?_, ?_⟩
      · rw [Piece.Takes]
        exact inside
      · rw [Piece.Derives]
    · cases rest with
      | nil => cases separates
      | cons next rest =>
          cases next with
          | separator => simp [Piece.Apart, Piece.keepsApart] at apart
          | _ => cases separates
    · refine ⟨middle, ?_, (later bound).mp rest⟩
      rw [Piece.Takes]
      exact low
  · intro derived
    obtain ⟨middle, taken, rest⟩ := derived
    rw [Piece.Takes] at taken
    have bound := Piece.le_of_derives rest
    exact .inr (.inr ⟨middle, taken, bound, (later bound).mpr rest⟩)

theorem sweeps_list_iff_derives {quantifier : Quantifier} {alternatives : List (List Piece)}
    (judged : ∀ alternative ∈ alternatives, ∀ i j, i ≤ j → j ≤ stop →
      (holds alternative i j = true ↔
        Piece.Derives subject.options subject.text alternative i j))
    (later : ∀ {i}, i ≤ stop → (subject.Sweeps holds rest i stop false ↔
      Piece.Derives subject.options subject.text rest i stop)) :
    subject.Sweeps holds (.list quantifier alternatives :: rest) start stop false ↔
      Piece.Derives subject.options subject.text (.list quantifier alternatives :: rest) start
        stop := by
  have own {middle} (low : start ≤ middle) (bound : middle ≤ stop) :
      subject.TakesList holds alternatives quantifier start middle ↔
        (Piece.list quantifier alternatives).Takes subject.options subject.text start middle :=
    takesList_iff_takes low fun alternative member i j first final =>
      judged alternative member i j first (Nat.le_trans final bound)
  rw [sweeps_list, Piece.Derives]
  constructor
  · intro swept
    obtain ⟨middle, low, bound, taken, rest⟩ := swept
    exact ⟨middle, (own low bound).mp taken, (later bound).mp rest⟩
  · intro derived
    obtain ⟨middle, taken, rest⟩ := derived
    have low := Piece.le_of_takes taken
    have bound := Piece.le_of_derives rest
    exact ⟨middle, low, bound, (own low bound).mpr taken, (later bound).mpr rest⟩

end

theorem sweeps_iff_derives (periods : subject.options.explicitLeadingPeriods = false)
    (apart : Piece.Apart pieces)
    (judged : ∀ quantifier alternatives, .list quantifier alternatives ∈ pieces →
      ∀ alternative ∈ alternatives, ∀ i j, i ≤ j → j ≤ stop →
        (holds alternative i j = true ↔
          Piece.Derives subject.options subject.text alternative i j))
    (inside : start ≤ stop) :
    subject.Sweeps holds pieces start stop false ↔
      Piece.Derives subject.options subject.text pieces start stop := by
  induction pieces using Piece.sequence_induction generalizing start with
  | nil => simp [sweeps_nil, Piece.Derives]
  | trailing => simp [Piece.Apart, Piece.keepsApart] at apart
  | inner next rest _ _ => simp [Piece.Apart, Piece.keepsApart] at apart
  | fixed piece rest extent takes opens ih =>
      apply sweeps_fixed_iff_derives periods takes opens
      intro i bound
      apply ih (Piece.apart_tail apart) _ bound
      intro quantifier alternatives present
      exact judged quantifier alternatives (List.mem_cons_of_mem _ present)
  | star rest ih =>
      apply sweeps_star_iff_derives periods
      intro i bound
      apply ih (Piece.apart_tail apart) _ bound
      intro quantifier alternatives present
      exact judged quantifier alternatives (List.mem_cons_of_mem _ present)
  | globstar rest ih _ =>
      apply sweeps_globstar_iff_derives apart inside
      intro i bound
      apply ih (Piece.apart_tail apart) _ bound
      intro quantifier alternatives present
      exact judged quantifier alternatives (List.mem_cons_of_mem _ present)
  | list quantifier alternatives rest ih =>
      apply sweeps_list_iff_derives (judged quantifier alternatives List.mem_cons_self)
      intro i bound
      apply ih (Piece.apart_tail apart) _ bound
      intro quantifier alternatives present
      exact judged quantifier alternatives (List.mem_cons_of_mem _ present)

end Subject

namespace Piece

variable {options : Options} {placement : Placement} {last : Piece} {pieces before : List Piece}
  {atStart : Bool}

theorem globstarKeeps_of_apart (apart : Apart (pieces ++ [last])) :
    globstarKeeps options placement last atStart pieces = true := by
  fun_induction globstarKeeps options placement last atStart pieces with
  | case1 => rfl
  | case2 => simp [Apart, keepsApart] at apart
  | case3 =>
      cases last with
      | separator => simp [Apart, keepsApart] at apart
      | literal | anyChar | bracket | star | globstar | list => rfl
  | case4 atStart piece rest _ _ ih => exact ih (apart_tail apart)

theorem not_endsInGlobstar_of_apart (apart : Apart pieces) : endsInGlobstar pieces = false := by
  rw [← Bool.not_eq_true, endsInGlobstar_iff]
  intro ends
  obtain ⟨before, rfl⟩ := ends
  have trailing := (List.isChain_append.mp apart).2.1
  simp [keepsApart] at trailing

theorem endsDetach_of_apart (periods : options.explicitLeadingPeriods = false)
    (apart : Apart pieces) : endsDetach options options.placement atStart pieces = true := by
  fun_induction endsDetach options options.placement atStart pieces with
  | case1 => rfl
  | case2 => rfl
  | case3 => rfl
  | case4 atStart rest _ ih ihGlobstar => simp [Apart, keepsApart] at apart
  | case5 atStart piece rest _ _ _ extent takes ih => exact ih (apart_tail apart)
  | case6 => rfl
  | case7 atStart piece rest _ _ _ open_ last extent found before ih _ =>
      obtain ⟨_, _, ends⟩ := fixedLast?_some found
      rw [ends, ← List.cons_append] at apart
      have apartBefore := (List.isChain_append.mp apart).1
      have visible : options.placement.atHiddenPeriod last = false := by
        simp [Options.placement, periods]
      simp [detaches, visible, globstarKeeps_of_apart apart,
        not_endsInGlobstar_of_apart apartBefore, ih apartBefore, before]

end Piece

namespace Subject

variable {subject : Subject} {pieces : List Piece} {start stop : Nat}

theorem acceptsWindow_iff_derives (periods : subject.options.explicitLeadingPeriods = false)
    (apart : ∀ part ∈ Piece.sequences pieces, Piece.Apart part) (inside : start ≤ stop) :
    subject.acceptsWindow pieces start stop = true ↔
      Piece.Derives subject.options subject.text pieces start stop := by
  induction pieces using Piece.depth_induction generalizing start stop with
  | step pieces ih =>
      have whole := apart pieces Piece.mem_sequences_self
      have detach :
          Piece.endsDetach subject.options subject.options.placement true pieces = true :=
        Piece.endsDetach_of_apart periods whole
      rw [acceptsWindow,
        accepts_iff_sweeps (placed_options subject stop) detach (fun _ => rfl) inside]
      apply sweeps_iff_derives periods whole _ inside
      intro quantifier alternatives present alternative member i j low _
      apply ih quantifier alternatives present alternative member _ low
      intro part deep
      exact apart part (Piece.mem_sequences_of_alternative present member deep)

/-- A pattern matches a text up to `stop` if it derives all of it, or with leading directories the
part before a separator. -/
theorem accepts_iff_derives (periods : subject.options.explicitLeadingPeriods = false)
    (apart : ∀ part ∈ Piece.sequences pieces, Piece.Apart part) :
    subject.accepts pieces 0 stop subject.options.leadingDirectories = true ↔
      ∃ last ≤ stop,
        (last = stop ∨ subject.options.leadingDirectories = true ∧
          SeparatorAt subject.options subject.text last) ∧
        Piece.Derives subject.options subject.text pieces 0 last := by
  have derives : ∀ last, subject.accepts pieces 0 last false = true ↔
      Piece.Derives subject.options subject.text pieces 0 last :=
    fun last => acceptsWindow_iff_derives periods apart (Nat.zero_le last)
  cases subject.options.leadingDirectories with
  | false =>
      simp [derives]
  | true =>
      have whole := apart pieces Piece.mem_sequences_self
      have detach :
          Piece.endsDetach subject.options subject.options.placement true pieces = true :=
        Piece.endsDetach_of_apart periods whole
      have sees :
          Piece.seesSeparators subject.options subject.options.placement true pieces = true := by
        simp [Piece.seesSeparators, Options.placement, periods]
      rw [accepts_leading_iff_window (placed_options subject stop) detach sees (fun _ => rfl)
        (Nat.zero_le stop)]
      simp only [Nat.zero_le, true_and, MayEnd, isSeparatorAt_eq, derives, SeparatorAt]

end Subject

end Glob
