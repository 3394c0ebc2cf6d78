import Glob.Proofs.Form
import Glob.Proofs.Reach

/-!
A single `*` that crosses separators. It matches all that a `*` within components does, with one
exception: right behind a separator it counts as a `**`, which at the end may need a component.
-/

namespace Glob

open Relation (ReflTransGen TransGen)

def Options.needing (options : Options) (needs : Bool) : Options :=
  { options with trailingGlobstarNeedsComponent := needs }

theorem Options.needing_self {options : Options} {needs : Bool}
    (same : options.trailingGlobstarNeedsComponent = needs) : options.needing needs = options := by
  rw [← same]
  rfl

namespace Piece

def isNegated : Piece → Bool
  | list .negated _ => true
  | _ => false

/-- Whether the pieces are a `*` that comes last when it is reached: there is nothing after it or,
where pieces are `taken` off the end, only pieces of fixed extent. -/
def isFinalStar (taken : Bool) : List Piece → Bool
  | star :: rest => rest.isEmpty || taken && rest.all (·.extent?.isSome)
  | _ => false

mutual

/-- The pieces with `?*` in place of each final `*` right behind a separator, if such a `*` `needs`
to match something. Pieces are `taken` off the end once a wildcard or a list is reached, but not
where the end is open. -/
def fillAll (needs leading taken : Bool) : List Piece → List Piece
  | [] => []
  | piece :: rest =>
    let later := fillAll needs leading (taken || !leading && piece.extent?.isNone) rest
    if needs && piece.isSeparator && isFinalStar taken rest then
      piece.fill needs :: anyChar :: later
    else
      piece.fill needs :: later

def fill (needs : Bool) : Piece → Piece
  | list quantifier alternatives => list quantifier (fillEach needs false alternatives)
  | separator => separator
  | literal text => literal text
  | anyChar => anyChar
  | bracket members negated => bracket members negated
  | star => star
  | globstar => globstar

def fillEach (needs leading : Bool) : List (List Piece) → List (List Piece)
  | [] => []
  | pieces :: rest => fillAll needs leading false pieces :: fillEach needs leading rest

end

variable {needs leading taken open_ : Bool} {piece last : Piece} {pieces rest before : List Piece}
  {alternatives : List (List Piece)} {extent : Nat}

theorem fillEach_eq_map :
    fillEach needs leading alternatives = alternatives.map (fillAll needs leading false) := by
  induction alternatives with
  | nil => rfl
  | cons pieces rest ih => rw [fillEach, List.map_cons, ih]

theorem fillAll_cons (kept : (needs && piece.isSeparator && isFinalStar taken rest) = false) :
    fillAll needs leading taken (piece :: rest) =
      piece.fill needs ::
        fillAll needs leading (taken || !leading && piece.extent?.isNone) rest := by
  simp only [fillAll, kept, Bool.false_eq_true, if_false]

theorem fill_of_extent (takes : piece.extent? = some extent) : piece.fill needs = piece := by
  cases piece with
  | star | globstar | list => cases takes
  | separator | literal | anyChar | bracket => rfl

theorem extent?_fill : (piece.fill needs).extent? = piece.extent? := by
  cases piece <;> rfl

theorem fillAll_of_open (opens : piece.extent? = none) :
    fillAll needs leading taken (piece :: rest) =
      piece.fill needs :: fillAll needs leading (taken || !leading) rest := by
  rw [fillAll_cons, opens, Option.isNone_none, Bool.and_true]
  cases piece with
  | separator | literal | anyChar | bracket => cases opens
  | star | globstar | list => simp [isSeparator]

theorem fillAll_of_extent (takes : piece.extent? = some extent)
    (kept : (needs && piece.isSeparator && isFinalStar taken rest) = false) :
    fillAll needs leading taken (piece :: rest) = piece :: fillAll needs leading taken rest := by
  rw [fillAll_cons kept, fill_of_extent takes, takes, Option.isNone_some, Bool.and_false,
    Bool.or_false]

theorem isFinalStar_concat (takes : last.extent? = some extent) :
    isFinalStar true (before ++ [last]) = isFinalStar true before := by
  cases before with
  | nil =>
      cases last with
      | star => cases takes
      | separator | literal | anyChar | bracket | globstar | list => rfl
  | cons piece before =>
      cases piece with
      | star => cases before <;> simp [isFinalStar, takes]
      | separator | literal | anyChar | bracket | globstar | list => rfl

theorem fillAll_concat (takes : last.extent? = some extent) :
    fillAll needs leading true (before ++ [last]) =
      fillAll needs leading true before ++ [last] := by
  induction before with
  | nil => exact fillAll_of_extent takes (by simp [isFinalStar])
  | cons piece before ih =>
      simp only [List.cons_append, fillAll, isFinalStar_concat takes, Bool.true_or, ih]
      split <;> rfl

theorem fillAll_of_fixed (fixed : ∀ piece ∈ pieces, piece.extent?.isSome = true) :
    fillAll needs leading taken pieces = pieces := by
  induction pieces with
  | nil => rfl
  | cons piece rest ih =>
      obtain ⟨own, later⟩ := List.forall_mem_cons.mp fixed
      obtain ⟨extent, takes⟩ := Option.isSome_iff_exists.mp own
      have plain : isFinalStar taken rest = false := by
        rcases rest with _ | ⟨next, rest⟩
        · rfl
        · cases next with
          | star => cases later .star List.mem_cons_self
          | separator | literal | anyChar | bracket | globstar | list => rfl
      rw [fillAll_of_extent takes (by rw [plain, Bool.and_false]), ih later]

theorem fixed_of_isFinalStar (final : isFinalStar taken (.star :: rest) = true) :
    ∀ piece ∈ rest, piece.extent?.isSome = true := by
  rcases Bool.or_eq_true_iff.mp final with alone | behind
  · simp [List.isEmpty_iff.mp alone]
  · exact List.all_eq_true.mp (Bool.and_eq_true_iff.mp behind).2

theorem fillAll_of_isFinalStar (final : isFinalStar taken pieces = true) :
    fillAll needs leading taken pieces = pieces := by
  rcases pieces with _ | ⟨piece, rest⟩
  · cases final
  cases piece with
  | star => rw [fillAll_of_open rfl, fillAll_of_fixed (fixed_of_isFinalStar final), fill]
  | separator | literal | anyChar | bracket | globstar | list => cases final

theorem getLast?_fillAll :
    (fillAll needs leading taken pieces).getLast? = pieces.getLast?.map (fill needs) := by
  induction pieces generalizing taken with
  | nil => rfl
  | cons piece rest ih =>
      cases rest with
      | nil =>
          rw [fillAll_cons (by simp [isFinalStar])]
          rfl
      | cons next rest =>
          have longer (behind : Bool) : ∃ first more,
              fillAll needs leading behind (next :: rest) = first :: more := by
            simp only [fillAll]
            split <;> exact ⟨_, _, rfl⟩
          have last (behind : Bool) :
              (fillAll needs leading behind (next :: rest)).getLast? =
                (next :: rest).getLast?.map (fill needs) :=
            ih
          rw [fillAll]
          obtain ⟨first, more, filled⟩ := longer (taken || !leading && piece.extent?.isNone)
          have same := filled ▸ last (taken || !leading && piece.extent?.isNone)
          simp only [filled]
          split <;> simpa [List.getLast?_cons_cons] using same

theorem fixedLast?_fillAll :
    fixedLast? (fillAll needs leading taken rest) open_ = fixedLast? rest open_ := by
  unfold fixedLast?
  rw [getLast?_fillAll]
  cases rest.getLast? with
  | none => rfl
  | some last => cases last <;> rfl

theorem globstar_notMem_fillAll (absent : .globstar ∉ pieces) :
    .globstar ∉ fillAll needs leading taken pieces := by
  induction pieces generalizing taken with
  | nil => exact absent
  | cons piece rest ih =>
      obtain ⟨apart, later⟩ := not_or.mp (mt List.mem_cons.mpr absent)
      have filled : .globstar ≠ piece.fill needs := by
        cases piece <;> simp [fill] at apart ⊢
      simp only [fillAll]
      split <;> simp [filled, ih later]

theorem fillAll_false (leading taken : Bool) (pieces : List Piece) :
    fillAll false leading taken pieces = pieces := by
  induction pieces using depth_induction generalizing leading taken with
  | step pieces ih =>
      induction pieces generalizing taken with
      | nil => rfl
      | cons piece rest ihRest =>
          rw [fillAll_cons rfl, ihRest fun _ _ present => ih _ _ (List.mem_cons_of_mem _ present)]
          cases piece with
          | list quantifier alternatives =>
              have same : alternatives.map (fillAll false false false) = alternatives :=
                (List.map_congr_left fun alternative member =>
                  ih quantifier alternatives List.mem_cons_self alternative member false
                    false).trans (List.map_id' alternatives)
              rw [fill, fillEach_eq_map, same]
          | separator | literal | anyChar | bracket | star | globstar => rfl

theorem fillEach_false (leading : Bool) (alternatives : List (List Piece)) :
    fillEach false leading alternatives = alternatives := by
  rw [fillEach_eq_map, funext (fillAll_false leading false), List.map_id']

end Piece

theorem Quantifier.spans_mono {unbroken unbroken' once once' any any' : Nat → Nat → Prop}
    {start last : Nat} {quantifier : Quantifier} (positive : quantifier ≠ .negated)
    (more : ∀ i j, once i j → once' i j)
    (spans : quantifier.Spans unbroken once any start last) :
    quantifier.Spans unbroken' once' any' start last := by
  have step : ∀ i j, (i < j ∧ once i j) → i < j ∧ once' i j :=
    fun i j taken => ⟨taken.1, more i j taken.2⟩
  cases quantifier with
  | exactlyOne => exact more start last spans
  | zeroOrOne => exact Or.imp_right (more start last) spans
  | zeroOrMore => exact ReflTransGen.mono step _ _ spans
  | oneOrMore => exact TransGen.mono step _ _ spans
  | negated => exact absurd rfl positive

namespace Subject

variable {subject : Subject} {pieces rest : List Piece} {quantifier : Quantifier}
  {alternatives : List (List Piece)} {start stop : Nat} {leading : Bool}

theorem accepts_star_of_kept (kept : Piece.fixedLast? rest leading = none)
    (plain : subject.isPlainAt start = true) (fits : start < stop)
    (accepted : subject.accepts (.star :: rest) (start + 1) stop leading = true) :
    subject.accepts (.star :: rest) start stop leading = true := by
  simp only [isPlainAt, Bool.and_eq_true, Bool.not_eq_true'] at plain
  obtain ⟨_, last, low, bound, clear, held⟩ := (accepts_star kept fits).mp accepted
  apply (accepts_star kept (Nat.le_of_lt fits)).mpr
  constructor
  · intro both
    rw [plain.2] at both
    exact Bool.false_ne_true both.2
  · refine ⟨last, by omega, bound, ?_, held⟩
    intro i since before
    by_cases first : i = start
    · rw [first]
      exact plain.1.2
    · exact clear i (by omega) before

theorem accepts_concat_single {piece last : Piece} {before : List Piece} {extent : Nat}
    (absent : .globstar ∉ piece :: before) (opens : piece.extent? = none)
    (takes : last.extent? = some extent) :
    subject.accepts (piece :: before ++ [last]) start stop false = true ↔
      start + extent ≤ stop ∧ subject.standsAt (stop - extent) last = true ∧
        subject.accepts (piece :: before) start (stop - extent) false = true := by
  apply accepts_concat opens takes
  rintro ⟨_, only | ends⟩
  · rw [only] at absent
    exact absent List.mem_cons_self
  · exact absent (List.mem_of_getLast? (Piece.getLast?_of_endsInGlobstar ends))

theorem accepts_star_of_plain (fixed : ∀ piece ∈ rest, piece.extent?.isSome = true)
    (plain : subject.isPlainAt start = true) (fits : start < stop)
    (accepted : subject.accepts (.star :: rest) (start + 1) stop leading = true) :
    subject.accepts (.star :: rest) start stop leading = true := by
  cases leading with
  | true => exact accepts_star_of_kept rfl plain fits accepted
  | false =>
      induction rest using List.reverseRecOn generalizing stop with
      | nil => exact accepts_star_of_kept rfl plain fits accepted
      | append_singleton before last ih =>
          obtain ⟨own, final⟩ := List.forall_mem_append.mp fixed
          obtain ⟨extent, takes⟩ := Option.isSome_iff_exists.mp (final last List.mem_cons_self)
          have absent : Piece.globstar ∉ Piece.star :: before := by
            intro present
            cases own .globstar (by simpa using present)
          rw [← List.cons_append] at accepted ⊢
          obtain ⟨bound, stands, held⟩ := (accepts_concat_single absent rfl takes).mp accepted
          exact (accepts_concat_single absent rfl takes).mpr
            ⟨by omega, stands, ih own (by omega) held⟩

theorem accepts_separator_globstar (fits : start < stop)
    (separates : subject.isSeparatorAt start = true)
    (trails : rest = [] → subject.acceptsTrailingGlobstar start stop = true)
    (accepted : subject.accepts (.globstar :: rest) (start + 1) stop leading = true) :
    subject.accepts (.separator :: .globstar :: rest) start stop leading = true := by
  cases rest with
  | nil => exact accepts_trailing.mpr (trails rfl)
  | cons next rest => exact accepts_inner.mpr (.inr ⟨fits, separates, accepted⟩)

def needing (subject : Subject) (needs : Bool) : Subject :=
  ⟨subject.text, subject.options.needing needs⟩

variable {needs taken : Bool}

@[simp]
theorem isSeparatorAt_needing :
    (subject.needing needs).isSeparatorAt start = subject.isSeparatorAt start :=
  rfl

@[simp]
theorem standsAt_needing {piece : Piece} :
    (subject.needing needs).standsAt start piece = subject.standsAt start piece := by
  cases piece with
  | literal text =>
      rw [standsAt, standsAt, Bool.eq_iff_iff, literalAt_iff, literalAt_iff]
      rfl
  | separator | anyChar | bracket | star | globstar | list => rfl

theorem takesList_widenEach_of_fillEach (positive : quantifier ≠ .negated)
    (within : ∀ alternative ∈ alternatives, ∀ i j, i ≤ j →
      subject.accepts (Piece.fillAll needs false false alternative) i j false = true →
        (subject.needing needs).accepts (Piece.widenAll alternative) i j false = true)
    (takes : subject.TakesList subject.acceptsWindow (Piece.fillEach needs false alternatives)
      quantifier start stop) :
    (subject.needing needs).TakesList (subject.needing needs).acceptsWindow
      (Piece.widenEach alternatives) quantifier start stop := by
  refine Quantifier.spans_mono positive ?_ takes
  intro i j found
  rw [Piece.fillEach_eq_map] at found
  obtain ⟨filled, mapped, low, _, accepted⟩ := found
  obtain ⟨alternative, member, rfl⟩ := List.mem_map.mp mapped
  have widened := within alternative member i j low accepted
  rw [Piece.widenEach_eq_map]
  exact ⟨_, List.mem_map_of_mem member, low, fitsForm_of_accepts low widened, widened⟩

theorem accepts_fillAll_cut {piece last : Piece} {before : List Piece} {extent : Nat}
    (absent : .globstar ∉ piece :: before) (opens : piece.extent? = none)
    (takes : last.extent? = some extent) :
    subject.accepts (Piece.fillAll needs false taken (piece :: before ++ [last])) start stop
        false = true ↔
      start + extent ≤ stop ∧ subject.standsAt (stop - extent) last = true ∧
        subject.accepts (Piece.fillAll needs false taken (piece :: before)) start (stop - extent)
          false = true := by
  have clear : .globstar ∉ Piece.fillAll needs false taken (piece :: before) :=
    Piece.globstar_notMem_fillAll absent
  rw [List.cons_append, Piece.fillAll_of_open opens, Bool.not_false, Bool.or_true,
    Piece.fillAll_concat takes]
  rw [Piece.fillAll_of_open opens, Bool.not_false, Bool.or_true] at clear ⊢
  exact accepts_concat_single clear (Piece.extent?_fill.trans opens) takes

theorem accepts_widenAll_of_filled (final : Piece.isFinalStar taken rest = true)
    (later : ∀ i ≤ stop, subject.accepts rest i stop leading = true →
      (subject.needing needs).accepts (Piece.widenAll rest) i stop leading = true)
    (accepted : subject.accepts (.separator :: .anyChar :: rest) start stop leading = true) :
    (subject.needing needs).accepts (Piece.widenAll (.separator :: rest)) start stop leading =
      true := by
  have apart : ¬Piece.OpensGlobstar .separator (.anyChar :: rest) := by
    simp [Piece.OpensGlobstar]
  obtain ⟨fits, separates, held⟩ := (accepts_fixed rfl apart).mp accepted
  have apart : ¬Piece.OpensGlobstar .anyChar rest := by
    simp [Piece.OpensGlobstar]
  obtain ⟨shorter, plain, held⟩ := (accepts_fixed rfl apart).mp held
  rcases rest with _ | ⟨piece, rest⟩
  · cases final
  cases piece with
  | star =>
      have fixed := Piece.fixed_of_isFinalStar final
      have held := later (start + 1) fits (accepts_star_of_plain fixed plain shorter held)
      have separator : (subject.needing needs).isSeparatorAt start = true := separates
      apply accepts_separator_globstar fits separator _ held
      intro _
      cases needs with
      | true => exact (acceptsTrailingGlobstar_needs rfl).mpr ⟨shorter, separates⟩
      | false => exact (acceptsTrailingGlobstar_free rfl).mpr (.inr ⟨fits, separates⟩)
  | separator | literal | anyChar | bracket | globstar | list => cases final

theorem accepts_widenAll_fixed {piece : Piece} {extent : Nat} (takes : piece.extent? = some extent)
    (absent : .globstar ∉ rest)
    (free : piece = .separator → rest = [.star] →
      subject.options.trailingGlobstarNeedsComponent = false)
    (fits : start + extent ≤ stop) (stands : subject.standsAt start piece = true)
    (held : subject.accepts (Piece.widenAll rest) (start + extent) stop leading = true) :
    subject.accepts (Piece.widenAll (piece :: rest)) start stop leading = true := by
  rw [Piece.widenAll, Piece.widen_of_extent takes]
  by_cases opens : Piece.OpensGlobstar piece (Piece.widenAll rest)
  · obtain ⟨rfl, more, widened⟩ := opens
    cases takes
    rcases rest with _ | ⟨next, rest⟩
    · cases widened
    cases next with
    | star =>
        apply accepts_separator_globstar fits stands _ held
        intro alone
        have only : rest = [] := by
          rw [Piece.widenAll_eq_map] at alone
          exact List.map_eq_nil_iff.mp alone
        exact (acceptsTrailingGlobstar_free (free rfl (by rw [only]))).mpr (.inr ⟨fits, stands⟩)
    | globstar => exact absurd List.mem_cons_self absent
    | separator | literal | anyChar | bracket | list => cases widened
  · exact (accepts_fixed takes opens).mpr ⟨fits, stands, held⟩

/-- Where no list is negated, `**` in place of `*` matches all that the pieces do when their final
`*` take what a final `/**` needs. -/
theorem accepts_widenAll_of_fillAll (needs taken : Bool)
    (single : Piece.Everywhere (· ≠ .globstar) pieces)
    (positive : Piece.Everywhere (·.isNegated = false) pieces) (inside : start ≤ stop)
    (accepted : subject.accepts (Piece.fillAll needs leading taken pieces) start stop leading =
      true) :
    (subject.needing needs).accepts (Piece.widenAll pieces) start stop leading = true := by
  induction leading, pieces using Piece.step_induction generalizing taken start stop with
  | nil leading =>
      have ends := accepts_nil.mp accepted
      rw [← isSeparatorAt_needing] at ends
      exact accepts_nil.mpr ends
  | trailing leading | inner leading next rest => exact absurd rfl (single.mem (by simp))
  | globstar leading rest kept => exact absurd rfl (single.mem List.mem_cons_self)
  | fixed leading piece rest extent takes apart ih =>
      have absent : .globstar ∉ rest := fun present => single.tail.mem present rfl
      -- The `?` was put in only behind a separator that a final `*` follows.
      by_cases filled : (needs && piece.isSeparator && Piece.isFinalStar taken rest) = true
      · rw [Piece.fillAll, if_pos filled, Piece.fill_of_extent takes, takes, Option.isNone_some,
          Bool.and_false, Bool.or_false] at accepted
        simp only [Bool.and_eq_true, Piece.isSeparator_iff] at filled
        obtain ⟨⟨_, rfl⟩, final⟩ := filled
        rw [Piece.fillAll_of_isFinalStar final] at accepted
        apply accepts_widenAll_of_filled final _ accepted
        intro i bound held
        apply ih taken single.tail positive.tail bound
        rw [Piece.fillAll_of_isFinalStar final]
        exact held
      · rw [Bool.not_eq_true] at filled
        rw [Piece.fillAll_of_extent takes filled] at accepted
        have opens : ¬Piece.OpensGlobstar piece (Piece.fillAll needs leading taken rest) := by
          rintro ⟨_, more, split⟩
          apply Piece.globstar_notMem_fillAll absent
          rw [split]
          exact List.mem_cons_self
        obtain ⟨fits, stands, held⟩ := (accepts_fixed takes opens).mp accepted
        rw [← standsAt_needing] at stands
        apply accepts_widenAll_fixed takes absent _ fits stands
        · exact ih taken single.tail positive.tail fits held
        · rintro rfl rfl
          have free : needs = false := by simpa [Piece.isSeparator, Piece.isFinalStar] using filled
          exact free
  | cut leading piece rest last extent opens found _ ih =>
      obtain ⟨closed, takes, ends⟩ := Piece.fixedLast?_some found
      subst closed
      have fewer : piece :: rest.dropLast ⊆ piece :: rest :=
        List.cons_subset_cons piece (List.dropLast_subset rest)
      have absent : .globstar ∉ piece :: rest.dropLast :=
        fun present => single.mem (fewer present) rfl
      rw [ends, ← List.cons_append] at accepted
      obtain ⟨fits, stands, held⟩ := (accepts_fillAll_cut absent opens takes).mp accepted
      have widened := ih taken (single.subset fewer) (positive.subset fewer) (by omega) held
      rw [Piece.widenAll, Piece.widenAll_dropLast] at widened
      rw [← standsAt_needing] at stands
      exact (accepts_cut (Piece.extent?_widen.trans opens)
        (Piece.fixedLast?_widenAll.trans found)).mpr (.inr ⟨fits, stands, widened⟩)
  | star leading rest kept ih =>
      rw [Piece.fillAll_of_open rfl] at accepted
      obtain ⟨_, last, low, bound, _, held⟩ :=
        (accepts_star (Piece.fixedLast?_fillAll.trans kept) inside).mp accepted
      apply (accepts_globstar (Piece.fixedLast?_widenAll.trans kept)).mpr
      exact .inr (.inr ⟨last, low, bound, ih _ single.tail positive.tail bound held⟩)
  | list leading quantifier alternatives rest kept ihAlternatives ih =>
      rw [Piece.fillAll_of_open rfl] at accepted
      obtain ⟨last, low, bound, takes, held⟩ :=
        (accepts_list (Piece.fixedLast?_fillAll.trans kept) inside).mp accepted
      apply (accepts_list (Piece.fixedLast?_widenAll.trans kept) inside).mpr
      have listed : quantifier ≠ .negated := by
        rintro rfl
        cases positive.mem List.mem_cons_self
      refine ⟨last, low, bound, takesList_widenEach_of_fillEach listed ?_ takes,
        ih _ single.tail positive.tail bound held⟩
      intro alternative member i j first held
      exact ihAlternatives alternative member false
        (single.of_alternative List.mem_cons_self member)
        (positive.of_alternative List.mem_cons_self member) first held

end Subject

namespace Pattern

def needing (pattern : Pattern) (needs : Bool) : Pattern :=
  { pattern with options := pattern.options.needing needs }

/-- The pattern with `?*` in place of the `*` that come last right behind a separator. -/
def filled (pattern : Pattern) (needs : Bool) : Pattern where
  source := pattern.source
  alternatives := Piece.fillEach needs pattern.options.leadingDirectories pattern.alternatives
  options := pattern.options

variable {options : Options} {source : String} {pattern : Pattern}

theorem filled_false : pattern.filled false = pattern := by
  rw [filled, Piece.fillEach_false]

theorem single_of_compile (within : options.wildcardReach = .withinComponents)
    (compiled : compile options source = .ok pattern) :
    ∀ pieces ∈ pattern.alternatives, Piece.Everywhere (· ≠ .globstar) pieces := by
  intro pieces present part deep piece member same
  have allowed := allAllowed_of_compile compiled pieces present part deep piece member
  rw [same, Piece.allowedBy, Options.wildcardsCross, within] at allowed
  cases allowed

theorem acceptsUpTo_widen_of_filled {text : Array Char} {stop : Nat} (needs : Bool)
    (single : ∀ pieces ∈ pattern.alternatives, Piece.Everywhere (· ≠ .globstar) pieces)
    (positive : ∀ pieces ∈ pattern.alternatives, Piece.Everywhere (·.isNegated = false) pieces)
    (accepted : (pattern.filled needs).acceptsUpTo text stop = true) :
    (pattern.widen.needing needs).acceptsUpTo text stop = true := by
  simp only [acceptsUpTo, filled, needing, widen, Piece.fillEach_eq_map, Piece.widenEach_eq_map,
    List.any_map, List.any_eq_true] at accepted ⊢
  obtain ⟨pieces, present, held⟩ := accepted
  refine ⟨pieces, present, ?_⟩
  have agrees : ((Subject.mk text pattern.options).needing needs).AgreesBelow
      ⟨text, (pattern.options.withReach .singleStarCrosses).needing needs⟩ stop :=
    ⟨fun _ _ => rfl, (pattern.options.needing needs).matchAlike_withReach .singleStarCrosses⟩
  have widened := Subject.accepts_widenAll_of_fillAll needs false (single pieces present)
    (positive pieces present) (Nat.zero_le stop) held
  exact (Subject.accepts_congr_of_seenAlike agrees.seenAlike (fun _ _ _ _ => trivial)
    (Nat.zero_le stop)).mp widened

theorem accepts_widen_of_filled {text : String} (needs : Bool)
    (single : ∀ pieces ∈ pattern.alternatives, Piece.Everywhere (· ≠ .globstar) pieces)
    (positive : ∀ pieces ∈ pattern.alternatives, Piece.Everywhere (·.isNegated = false) pieces)
    (accepted : (pattern.filled needs).accepts text = true) :
    (pattern.widen.needing needs).accepts text = true :=
  accepts_of_acceptsUpTo (fun _ => acceptsUpTo_widen_of_filled needs single positive) rfl rfl
    accepted

/-- Where no list is negated, a single `*` that crosses separators matches all that it does within
components, if a final `/**` needs no component, or else where each `*` that then counts as one
takes something. Nothing but that component can be missing. -/
theorem accepts_of_singleStarCrosses (options : Options) (source : String) (pattern : Pattern)
    (compiled : compile (options.withReach .withinComponents) source = .ok pattern)
    (positive : ∀ pieces ∈ pattern.alternatives, Piece.Everywhere (·.isNegated = false) pieces) :
    ∃ other, compile (options.withReach .singleStarCrosses) source = .ok other ∧
      ∀ text : String,
        (options.trailingGlobstarNeedsComponent = false →
          pattern.accepts text = true → other.accepts text = true) ∧
        (options.trailingGlobstarNeedsComponent = true →
          (pattern.filled true).accepts text = true → other.accepts text = true) ∧
        (pattern.accepts text = true → (other.needing false).accepts text = true) := by
  have single := single_of_compile rfl compiled
  have widened : compile (options.withReach .singleStarCrosses) source = .ok pattern.widen := by
    rw [← options.withReach_withReach .withinComponents .singleStarCrosses, compile_widen, compiled]
    rfl
  have own {needs : Bool} (same : options.trailingGlobstarNeedsComponent = needs) :
      pattern.widen.needing needs = pattern.widen := by
    have kept : pattern.widen.options.needing needs = pattern.widen.options := by
      apply Options.needing_self
      rw [widen, options_of_compile compiled]
      exact same
    rw [needing, kept]
  refine ⟨pattern.widen, widened, ?_⟩
  intro text
  have free (accepted : pattern.accepts text = true) :
      (pattern.widen.needing false).accepts text = true := by
    apply accepts_widen_of_filled false single positive
    rw [filled_false]
    exact accepted
  refine ⟨?_, ?_, free⟩
  · intro same accepted
    rw [← own same]
    exact free accepted
  · intro same accepted
    rw [← own same]
    exact accepts_widen_of_filled true single positive accepted

theorem accepts_of_singleStarCrosses_suffix :
    let options : Options := {}
    let pattern : Pattern := ⟨"*/+(a*|?b)/*.c", [[.star, .separator,
      .list .oneOrMore [[.literal ['a'], .star], [.anyChar, .literal ['b']]], .separator, .star,
      .literal ['.', 'c']]], options.withReach .withinComponents⟩
    compile (options.withReach .withinComponents) pattern.source = .ok pattern ∧
      (∀ pieces ∈ pattern.alternatives, Piece.Everywhere (·.isNegated = false) pieces) ∧
      options.trailingGlobstarNeedsComponent = true ∧
      (pattern.filled true).accepts "x/axb/y.c" = true ∧
      ∃ other, compile (options.withReach .singleStarCrosses) pattern.source = .ok other ∧
        other.accepts "x/axb/y.c" = true :=
  have compiled : compile (({} : Options).withReach .withinComponents) "*/+(a*|?b)/*.c" =
      .ok ⟨"*/+(a*|?b)/*.c", [[.star, .separator,
        .list .oneOrMore [[.literal ['a'], .star], [.anyChar, .literal ['b']]], .separator, .star,
        .literal ['.', 'c']]], ({} : Options).withReach .withinComponents⟩ := by
    cbv
  have positive : ∀ pieces ∈ [[.star, .separator,
      .list .oneOrMore [[.literal ['a'], .star], [.anyChar, .literal ['b']]], .separator, .star,
      .literal ['.', 'c']]], Piece.Everywhere (·.isNegated = false) pieces := by
    decide
  have taken : (Pattern.filled ⟨"*/+(a*|?b)/*.c", [[.star, .separator,
      .list .oneOrMore [[.literal ['a'], .star], [.anyChar, .literal ['b']]], .separator, .star,
      .literal ['.', 'c']]], ({} : Options).withReach .withinComponents⟩ true).accepts
      "x/axb/y.c" = true := by
    decide +kernel
  have wider := accepts_of_singleStarCrosses {} "*/+(a*|?b)/*.c" _ compiled positive
  ⟨compiled, positive, rfl, taken,
    wider.imp fun _ other => ⟨other.1, (other.2 "x/axb/y.c").2.1 rfl taken⟩⟩

/-- A `*` that matches nothing after the last separator is not a `**` that needs a component. -/
theorem singleStarCrosses_misses_empty_component :
    ∃ pattern other,
      compile (({} : Options).withReach .withinComponents) "a/*" = .ok pattern ∧
      compile (({} : Options).withReach .singleStarCrosses) "a/*" = .ok other ∧
      (∀ pieces ∈ pattern.alternatives, Piece.Everywhere (·.isNegated = false) pieces) ∧
      pattern.accepts "a/" = true ∧ other.accepts "a/" = false :=
  have within : compile (({} : Options).withReach .withinComponents) "a/*" =
      .ok ⟨"a/*", [[.literal ['a'], .separator, .star]],
        ({} : Options).withReach .withinComponents⟩ := by
    cbv
  have crossing : compile (({} : Options).withReach .singleStarCrosses) "a/*" =
      .ok ⟨"a/*", [[.literal ['a'], .separator, .globstar]],
        ({} : Options).withReach .singleStarCrosses⟩ := by
    cbv
  ⟨_, _, within, crossing, by decide, by decide +kernel, by decide +kernel⟩

end Pattern

end Glob
