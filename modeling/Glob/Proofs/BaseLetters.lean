import Glob.Proofs.Crossing

/-!
Base letters in ranges only add matches. A bracket that has more members takes more, and where
nothing is negated, lists and whole sequences then do so too.
-/

namespace Glob

def Options.lending (options : Options) (baseLetters : Bool) : Options :=
  { options with baseLetterRanges := baseLetters }

namespace CharClass

variable {members : List CharClass} {c : Char}

/-- Whether a range has the character that `first` gives for `c`. -/
def lends (first : Char → Char) : CharClass → Char → Bool
  | range lower upper, c => lower ≤ first c && first c ≤ upper
  | named _, _ => false

/-- The members, and every character that one of their ranges is lent. -/
def withLent (first : Char → Char) (members : List CharClass) : List CharClass :=
  let every := (List.range 0x110000).map Char.ofNat
  members ++ (every.filter fun c => members.any (·.lends first c)).map single

theorem any_contains_lent : members.any (·.contains true c) = true ↔
    members.any (·.contains false c) = true ∨
      members.any (·.lends Unicode.baseLetter c) = true := by
  have either (member : CharClass) : member.contains true c =
      (member.contains false c || member.lends Unicode.baseLetter c) := by
    cases member <;> simp [contains, lends]
  simp only [either, List.any_eq_true, Bool.or_eq_true, and_or_left, exists_or]

theorem contains_single {d : Char} : (single d).contains false c = true ↔ c = d := by
  simp only [single, contains, Bool.false_and, Bool.or_false, Bool.and_eq_true, decide_eq_true_eq]
  constructor
  · exact fun both => Char.le_antisymm both.2 both.1
  · rintro rfl
    exact ⟨Char.le_refl c, Char.le_refl c⟩

theorem char_toNat_lt (c : Char) : c.toNat < 0x110000 := by
  rcases c.valid with low | ⟨_, high⟩
  · exact Nat.lt_trans low (by decide)
  · exact high

theorem any_contains_withLent {first : Char → Char} :
    (withLent first members).any (·.contains false c) = true ↔
      members.any (·.contains false c) = true ∨ members.any (·.lends first c) = true := by
  have listed : c ∈ (List.range 0x110000).map Char.ofNat :=
    List.mem_map.mpr ⟨c.toNat, List.mem_range.mpr (char_toNat_lt c), Char.ofNat_toNat c⟩
  simp only [withLent, List.any_append, Bool.or_eq_true, List.any_map]
  apply or_congr_right
  rw [List.any_eq_true]
  constructor
  · rintro ⟨d, lent, same⟩
    obtain rfl := contains_single.mp same
    exact (List.mem_filter.mp lent).2
  · intro lent
    exact ⟨c, List.mem_filter.mpr ⟨listed, lent⟩, contains_single.mpr rfl⟩

end CharClass

namespace Piece

variable (change : List CharClass → List CharClass)

mutual

def recast : Piece → Piece
  | bracket members negated => bracket (change members) negated
  | list quantifier alternatives => list quantifier (recastEach alternatives)
  | separator => separator
  | literal text => literal text
  | anyChar => anyChar
  | star => star
  | globstar => globstar

def recastAll : List Piece → List Piece
  | [] => []
  | piece :: rest => piece.recast :: recastAll rest

def recastEach : List (List Piece) → List (List Piece)
  | [] => []
  | pieces :: rest => recastAll pieces :: recastEach rest

end

def isPositive : Piece → Bool
  | bracket _ negated => !negated
  | list .negated _ => false
  | separator | literal _ | anyChar | star | globstar | list .. => true

variable {change} {piece : Piece} {pieces rest : List Piece} {alternatives : List (List Piece)}
  {leading : Bool}

theorem recastAll_eq_map : recastAll change pieces = pieces.map (recast change) := by
  induction pieces with
  | nil => rfl
  | cons piece rest ih => rw [recastAll, ih, List.map_cons]

theorem recastEach_eq_map :
    recastEach change alternatives = alternatives.map (recastAll change) := by
  induction alternatives with
  | nil => rfl
  | cons pieces rest ih => rw [recastEach, ih, List.map_cons]

theorem recastAll_dropLast :
    recastAll change pieces.dropLast = (recastAll change pieces).dropLast := by
  simp only [recastAll_eq_map, List.map_dropLast]

theorem recastAll_tail : recastAll change pieces.tail = (recastAll change pieces).tail := by
  simp only [recastAll_eq_map, List.map_tail]

theorem recastAll_eq_nil : recastAll change pieces = [] ↔ pieces = [] := by
  rw [recastAll_eq_map, List.map_eq_nil_iff]

theorem extent?_recast : (piece.recast change).extent? = piece.extent? := by
  cases piece <;> rfl

theorem recast_eq_separator : piece.recast change = .separator ↔ piece = .separator := by
  cases piece <;> simp [recast]

theorem recast_eq_globstar : piece.recast change = .globstar ↔ piece = .globstar := by
  cases piece <;> simp [recast]

theorem fixedLast?_recastAll : fixedLast? (recastAll change rest) leading =
    (fixedLast? rest leading).map fun (last, extent) => (last.recast change, extent) := by
  unfold fixedLast?
  rw [recastAll_eq_map, List.getLast?_map]
  cases leading with
  | true => rfl
  | false =>
      cases rest.getLast? with
      | none => rfl
      | some last => cases last <;> rfl

theorem fixedLast?_recastAll_of_kept (kept : fixedLast? rest leading = none) :
    fixedLast? (recastAll change rest) leading = none := by
  rw [fixedLast?_recastAll, kept]
  rfl

theorem fixedLast?_recastAll_of_found {last : Piece} {extent : Nat}
    (found : fixedLast? rest leading = some (last, extent)) :
    fixedLast? (recastAll change rest) leading = some (last.recast change, extent) := by
  rw [fixedLast?_recastAll, found]
  rfl

theorem opensGlobstar_recast :
    OpensGlobstar (piece.recast change) (recastAll change rest) ↔ OpensGlobstar piece rest := by
  apply and_congr recast_eq_separator
  cases rest with
  | nil => simp [recastAll]
  | cons first later => simp [recastAll, recast_eq_globstar]

mutual

theorem recastAll_id : ∀ pieces, recastAll id pieces = pieces
  | [] => rfl
  | piece :: rest => by rw [recastAll, recast_id piece, recastAll_id rest]

theorem recast_id : ∀ piece : Piece, piece.recast id = piece
  | separator | literal _ | anyChar | bracket .. | star | globstar => rfl
  | list _ alternatives => by rw [recast, recastEach_id alternatives]

theorem recastEach_id : ∀ alternatives, recastEach id alternatives = alternatives
  | [] => rfl
  | pieces :: rest => by rw [recastEach, recastAll_id pieces, recastEach_id rest]

end

end Piece

namespace Subject

/-- Another view of the same text, in which every bracket of `right` has what that of `left` has. -/
structure Grows (subject other : Subject) (left right : List CharClass → List CharClass) :
    Prop where
  text : subject.text = other.text
  separators : subject.options.isSeparator = other.options.isSeparator
  periods : subject.options.explicitLeadingPeriods = other.options.explicitLeadingPeriods
  trailing : subject.options.trailingGlobstarNeedsComponent =
    other.options.trailingGlobstarNeedsComponent
  members : ∀ members i, subject.isMemberAt (left members) i = true →
    other.isMemberAt (right members) i = true

variable {subject other : Subject} {left right : List CharClass → List CharClass}
  {pieces : List Piece} {start stop : Nat} {leading : Bool}

theorem grows_of_members {text : Array Char} {options : Options} {baseLetters more : Bool}
    (adds : ∀ members c, (left members).any (·.contains baseLetters c) = true →
      (right members).any (·.contains more c) = true) :
    (Subject.mk text (options.lending baseLetters)).Grows ⟨text, options.lending more⟩
      left right := by
  refine ⟨rfl, rfl, rfl, rfl, ?_⟩
  intro members i member
  obtain ⟨c, here, contained⟩ := (Option.any_eq_true _ _).mp member
  exact (Option.any_eq_true _ _).mpr ⟨c, here, adds members c contained⟩

theorem startsWithSeparator_recastAll {change : List CharClass → List CharClass} :
    startsWithSeparator (Piece.recastAll change pieces) = startsWithSeparator pieces := by
  rcases pieces with _ | ⟨piece, rest⟩
  · rfl
  · cases piece <;> rfl

theorem endsInZeroDirectories_recastAll {change : List CharClass → List CharClass} :
    subject.endsInZeroDirectories (Piece.recastAll change pieces) start =
      subject.endsInZeroDirectories pieces start := by
  unfold endsInZeroDirectories
  rw [Piece.recastAll_eq_map, ← List.map_reverse]
  -- No more than the last three pieces are looked at.
  rcases pieces.reverse with _ | ⟨first, _ | ⟨second, _ | ⟨third, rest⟩⟩⟩
  · rfl
  · cases first <;> rfl
  · cases first <;> first | rfl | cases second <;> rfl
  · cases first <;> first | rfl | cases second <;> first | rfl | cases third <;> rfl

namespace Grows

variable (grows : subject.Grows other left right)

include grows

theorem isSeparatorAt (i : Nat) : subject.isSeparatorAt i = other.isSeparatorAt i := by
  rw [Subject.isSeparatorAt, Subject.isSeparatorAt, grows.text, grows.separators]

theorem atSegmentStart (i : Nat) : subject.atSegmentStart i = other.atSegmentStart i := by
  rw [Subject.atSegmentStart, Subject.atSegmentStart, grows.isSeparatorAt]

theorem isHiddenPeriod (i : Nat) : subject.isHiddenPeriod i = other.isHiddenPeriod i := by
  rw [Subject.isHiddenPeriod, Subject.isHiddenPeriod, grows.text, grows.periods,
    grows.atSegmentStart]

theorem isPlainAt (i : Nat) : subject.isPlainAt i = other.isPlainAt i := by
  rw [Subject.isPlainAt, Subject.isPlainAt, grows.text, grows.isSeparatorAt, grows.isHiddenPeriod]

theorem unbroken (first last : Nat) : subject.Unbroken first last ↔ other.Unbroken first last := by
  simp only [Unbroken, grows.isSeparatorAt]

theorem acceptsTrailingGlobstar :
    subject.acceptsTrailingGlobstar start stop = other.acceptsTrailingGlobstar start stop := by
  simp only [Subject.acceptsTrailingGlobstar, grows.isSeparatorAt, grows.trailing]

theorem endsInZeroDirectories :
    subject.endsInZeroDirectories pieces start = other.endsInZeroDirectories pieces start := by
  simp only [Subject.endsInZeroDirectories, grows.atSegmentStart]

theorem standsAt {piece : Piece} {i : Nat} (positive : piece.isPositive = true)
    (stands : subject.standsAt i (piece.recast left) = true) :
    other.standsAt i (piece.recast right) = true := by
  cases piece with
  | separator => exact (grows.isSeparatorAt i).symm.trans stands
  | literal text =>
      rw [Piece.recast, Subject.standsAt, literalAt_iff] at stands ⊢
      rwa [← grows.text]
  | anyChar => exact (grows.isPlainAt i).symm.trans stands
  | bracket members negated =>
      obtain rfl : negated = false := by simpa [Piece.isPositive] using positive
      simp only [Piece.recast, Subject.standsAt, Bool.bne_false, Bool.and_eq_true] at stands ⊢
      exact ⟨(grows.isPlainAt i).symm.trans stands.1, grows.members members i stands.2⟩
  | star | globstar | list => cases stands

end Grows

theorem takesList_recastEach {quantifier : Quantifier}
    {alternatives : List (List Piece)} (positive : quantifier ≠ .negated)
    (within : ∀ alternative ∈ alternatives, ∀ i j, i ≤ j →
      subject.accepts (Piece.recastAll left alternative) i j false = true →
        other.accepts (Piece.recastAll right alternative) i j false = true)
    (takes : subject.TakesList subject.acceptsWindow (Piece.recastEach left alternatives)
      quantifier start stop) :
    other.TakesList other.acceptsWindow (Piece.recastEach right alternatives) quantifier
      start stop := by
  refine Quantifier.spans_mono positive ?_ takes
  intro i j found
  rw [Piece.recastEach_eq_map] at found
  obtain ⟨_, mapped, low, _, accepted⟩ := found
  obtain ⟨alternative, member, rfl⟩ := List.mem_map.mp mapped
  have grown := within alternative member i j low accepted
  -- The form is that of the new alternative, so it follows from the match itself.
  rw [Piece.recastEach_eq_map]
  exact ⟨_, List.mem_map_of_mem member, low, fitsForm_of_accepts low grown, grown⟩

theorem accepts_recastAll (grows : subject.Grows other left right)
    (positive : Piece.Everywhere (·.isPositive = true) pieces) (inside : start ≤ stop)
    (accepted : subject.accepts (Piece.recastAll left pieces) start stop leading = true) :
    other.accepts (Piece.recastAll right pieces) start stop leading = true := by
  induction leading, pieces using Piece.step_induction generalizing start stop with
  | nil leading =>
      rw [Piece.recastAll, accepts_nil] at accepted ⊢
      rwa [← grows.isSeparatorAt]
  | trailing leading =>
      have trails := grows.acceptsTrailingGlobstar.symm.trans (accepts_trailing.mp accepted)
      exact accepts_trailing.mpr trails
  | inner leading next rest ih ihGlobstar =>
      rcases accepts_inner.mp accepted with ⟨again, held⟩ | ⟨fits, separates, held⟩
      · refine accepts_inner.mpr (.inl ⟨?_, ih positive.tail.tail inside held⟩)
        rw [← Piece.recastAll, startsWithSeparator_recastAll] at again ⊢
        exact again
      · refine accepts_inner.mpr (.inr ⟨fits, ?_, ihGlobstar positive.tail fits held⟩)
        rwa [← grows.isSeparatorAt]
  | fixed leading piece rest extent takes apart ih =>
      have own := positive.mem List.mem_cons_self
      rw [Piece.recastAll, accepts_fixed (Piece.extent?_recast.trans takes)
        (mt Piece.opensGlobstar_recast.mp apart)] at accepted ⊢
      obtain ⟨fits, stands, held⟩ := accepted
      exact ⟨fits, grows.standsAt own stands, ih positive.tail fits held⟩
  | cut leading piece rest last extent open_ found ihCloser ih =>
      obtain ⟨_, takes, ends⟩ := Piece.fixedLast?_some found
      have kept : Piece.Everywhere (·.isPositive = true) (piece :: rest.dropLast) :=
        positive.subset (List.cons_subset_cons piece (List.dropLast_subset rest))
      have own : last.isPositive = true := by
        apply positive.mem
        rw [ends]
        simp
      rw [Piece.recastAll, accepts_cut (Piece.extent?_recast.trans open_)
          (Piece.fixedLast?_recastAll_of_found found),
        ← Piece.recastAll_dropLast, ← Piece.recastAll, ← Piece.recastAll,
        endsInZeroDirectories_recastAll, ← Piece.recastAll_dropLast] at accepted ⊢
      rcases accepted with ⟨zero, held⟩ | ⟨fits, stands, held⟩
      · refine .inl ⟨?_, ihCloser (kept.subset (List.dropLast_subset _)) inside held⟩
        rwa [← grows.endsInZeroDirectories]
      · exact .inr ⟨fits, grows.standsAt own stands, ih kept (by omega) held⟩
  | star leading rest kept ih =>
      rw [Piece.recastAll, Piece.recast,
        accepts_star (Piece.fixedLast?_recastAll_of_kept kept) inside] at accepted ⊢
      obtain ⟨visible, last, low, bound, clear, held⟩ := accepted
      rw [← grows.isHiddenPeriod]
      exact ⟨visible, last, low, bound, (grows.unbroken start last).mp clear,
        ih positive.tail bound held⟩
  | globstar leading rest kept ihTail ih =>
      have keptTail : Piece.Everywhere (·.isPositive = true) rest.tail :=
        positive.tail.subset fun _ => List.mem_of_mem_tail
      rw [Piece.recastAll, Piece.recast, accepts_globstar (Piece.fixedLast?_recastAll_of_kept kept),
        startsWithSeparator_recastAll, ← Piece.recastAll_tail, Piece.recastAll_eq_nil] at accepted ⊢
      rcases accepted with empty | ⟨again, opens, held⟩ | ⟨last, low, bound, held⟩
      · exact .inl empty
      · refine .inr (.inl ⟨again, ?_, ihTail keptTail inside held⟩)
        rwa [← grows.atSegmentStart]
      · exact .inr (.inr ⟨last, low, bound, ih positive.tail bound held⟩)
  | list leading quantifier alternatives rest kept ihAlternatives ih =>
      have listed : quantifier ≠ .negated := by
        rintro rfl
        cases positive.mem List.mem_cons_self
      rw [Piece.recastAll, Piece.recast,
        accepts_list (Piece.fixedLast?_recastAll_of_kept kept) inside] at accepted ⊢
      obtain ⟨last, low, bound, taken, held⟩ := accepted
      refine ⟨last, low, bound, ?_, ih positive.tail bound held⟩
      apply takesList_recastEach listed _ taken
      intro alternative member i j within accepted
      exact ihAlternatives alternative member
        (positive.of_alternative List.mem_cons_self member) within accepted

end Subject

namespace Pattern

def recast (pattern : Pattern) (change : List CharClass → List CharClass) (baseLetters : Bool) :
    Pattern where
  source := pattern.source
  alternatives := Piece.recastEach change pattern.alternatives
  options := pattern.options.lending baseLetters

/-- The pattern with the characters in its brackets whose base letter by `first` is in a range. -/
def lend (pattern : Pattern) (first : Char → Char) : Pattern :=
  pattern.recast (CharClass.withLent first) false

variable {pattern : Pattern} {left right : List CharClass → List CharClass}
  {baseLetters more : Bool}

theorem acceptsUpTo_recast {text : Array Char} {stop : Nat}
    (positive : ∀ pieces ∈ pattern.alternatives, Piece.Everywhere (·.isPositive = true) pieces)
    (adds : ∀ members c, (left members).any (·.contains baseLetters c) = true →
      (right members).any (·.contains more c) = true)
    (accepted : (pattern.recast left baseLetters).acceptsUpTo text stop = true) :
    (pattern.recast right more).acceptsUpTo text stop = true := by
  simp only [acceptsUpTo, recast, Piece.recastEach_eq_map, List.any_map, List.any_eq_true]
    at accepted ⊢
  obtain ⟨pieces, present, held⟩ := accepted
  exact ⟨pieces, present, Subject.accepts_recastAll (Subject.grows_of_members adds)
    (positive pieces present) (Nat.zero_le stop) held⟩

theorem recast_id (same : pattern.options.lending baseLetters = pattern.options) :
    pattern.recast id baseLetters = pattern := by
  rw [recast, Piece.recastEach_id, same]

theorem accepts_recast {text : String}
    (positive : ∀ pieces ∈ pattern.alternatives, Piece.Everywhere (·.isPositive = true) pieces)
    (adds : ∀ members c, (left members).any (·.contains baseLetters c) = true →
      (right members).any (·.contains more c) = true)
    (accepted : (pattern.recast left baseLetters).accepts text = true) :
    (pattern.recast right more).accepts text = true :=
  accepts_of_acceptsUpTo (fun _ => acceptsUpTo_recast positive adds) rfl rfl accepted

/-- Where nothing is negated, base letters in ranges only add matches, whatever character `first`
takes for the base letter of another. With the base letters of Unicode these are the matches that
the option adds. -/
theorem accepts_of_baseLetterRanges (options : Options) (source : String) (pattern : Pattern)
    (compiled : compile (options.lending false) source = .ok pattern)
    (positive : ∀ pieces ∈ pattern.alternatives, Piece.Everywhere (·.isPositive = true) pieces) :
    ∃ other, compile (options.lending true) source = .ok other ∧
      other.alternatives = pattern.alternatives ∧ ∀ text : String,
        (pattern.accepts text = true → other.accepts text = true) ∧
        (∀ first : Char → Char, pattern.accepts text = true →
          (pattern.lend first).accepts text = true) ∧
        (other.accepts text = true ↔ (pattern.lend Unicode.baseLetter).accepts text = true) := by
  have own := options_of_compile compiled
  have plain : pattern.recast id false = pattern := recast_id (by rw [own]; rfl)
  have read : compile (options.lending true) source = .ok (pattern.recast id true) := by
    have alike : (options.lending false).ReadAlike (options.lending true) :=
      ⟨⟨rfl, rfl, rfl, rfl, rfl, rfl, rfl, rfl⟩, rfl⟩
    rw [compile_congr alike, compiled, recast, Piece.recastEach_id, own]
    rfl
  refine ⟨pattern.recast id true, read, Piece.recastEach_id _, ?_⟩
  intro text
  -- Each part changes the members of brackets, the option, or one for the other.
  refine ⟨?_, ?_, ?_, ?_⟩
  · intro accepted
    rw [← plain] at accepted
    apply accepts_recast positive _ accepted
    intro members c own
    exact CharClass.any_contains_lent.mpr (.inl own)
  · intro first accepted
    rw [← plain] at accepted
    apply accepts_recast positive _ accepted
    intro members c own
    exact CharClass.any_contains_withLent.mpr (.inl own)
  · apply accepts_recast positive
    intro members c own
    exact CharClass.any_contains_withLent.mpr (CharClass.any_contains_lent.mp own)
  · apply accepts_recast positive
    intro members c own
    exact CharClass.any_contains_lent.mpr (CharClass.any_contains_withLent.mp own)

theorem accepts_of_baseLetterRanges_repeated :
    let source := "+([a-c]|x[[:digit:]e-g])"
    let pieces : List Piece := [.list .oneOrMore [[.bracket [.range 'a' 'c'] false],
      [.literal ['x'], .bracket [.named .digit, .range 'e' 'g'] false]]]
    let pattern : Pattern := ⟨source, [pieces], ({} : Options).lending false⟩
    compile (({} : Options).lending false) source = .ok pattern ∧
      (∀ pieces ∈ pattern.alternatives, Piece.Everywhere (·.isPositive = true) pieces) ∧
      pattern.accepts "bx7xf" = true ∧
      ∃ other, compile (({} : Options).lending true) source = .ok other ∧
        other.alternatives = pattern.alternatives ∧ other.accepts "bx7xf" = true ∧
        ∀ first : Char → Char, (pattern.lend first).accepts "bx7xf" = true := by
  have compiled : compile (({} : Options).lending false) "+([a-c]|x[[:digit:]e-g])" =
      .ok ⟨"+([a-c]|x[[:digit:]e-g])", [[.list .oneOrMore [[.bracket [.range 'a' 'c'] false],
        [.literal ['x'], .bracket [.named .digit, .range 'e' 'g'] false]]]],
        ({} : Options).lending false⟩ :=
    compile_of_ofText rfl (by with_unfolding_all rfl)
  have positive : ∀ pieces ∈ [[Piece.list .oneOrMore [[.bracket [.range 'a' 'c'] false],
      [.literal ['x'], .bracket [.named .digit, .range 'e' 'g'] false]]]],
      Piece.Everywhere (·.isPositive = true) pieces := by
    decide
  have accepted : Pattern.accepts ⟨"+([a-c]|x[[:digit:]e-g])",
      [[.list .oneOrMore [[.bracket [.range 'a' 'c'] false],
        [.literal ['x'], .bracket [.named .digit, .range 'e' 'g'] false]]]],
      ({} : Options).lending false⟩ "bx7xf" = true := by
    decide +kernel
  obtain ⟨other, read, same, grows⟩ := accepts_of_baseLetterRanges {} _ _ compiled positive
  obtain ⟨wider, lent, _⟩ := grows "bx7xf"
  exact ⟨compiled, positive, accepted, other, read, same, wider accepted,
    fun first => lent first accepted⟩

/-- An accented letter is taken with its base letter only. -/
example :
    let subject (baseLetters : Bool) : Subject :=
      ⟨"bxé".toList.toArray, ({} : Options).lending baseLetters⟩
    let pieces : List Piece := [.list .oneOrMore [[.bracket [.range 'a' 'c'] false],
      [.literal ['x'], .bracket [.named .digit, .range 'e' 'g'] false]]]
    (subject false).accepts pieces 0 3 false = false ∧
      (subject true).accepts pieces 0 3 false = true := by
  decide +kernel

end Pattern

end Glob
