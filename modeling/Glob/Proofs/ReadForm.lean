import Glob.Proofs.BraceProduct
import Glob.Proofs.NormalForm
import Glob.Proofs.Reading

/-!
What a reader makes of a pattern is in normal form, and its options exclude none of the pieces. The
reader joins a wildcard to the newest piece only, and letters when a sequence ends, so it is enough
that neighbours stay apart from token to token.
-/

namespace Glob

namespace Piece

def isReadUnder (options : Options) : Piece → Bool
  | separator => options.separator.isSome
  | star => options.wildcardReach != .singleStarCrosses
  | globstar => options.wildcardReach != .withinComponents
  | list .. => options.patternLists
  | literal _ | anyChar | bracket .. => true

/-- A sequence in normal form, all of whose pieces the options let a reader make. -/
structure Compact (options : Options) (pieces : List Piece) : Prop where
  normal : Normal pieces
  read : Everywhere (·.isReadUnder options = true) pieces

structure Sound (options : Options) (piece : Piece) : Prop where
  proper : piece.isProper = true
  read : piece.isReadUnder options = true
  inside : ∀ quantifier alternatives, piece = .list quantifier alternatives →
    ∀ alternative ∈ alternatives, Compact options alternative

variable {options : Options} {pieces : List Piece} {piece : Piece}

theorem compact_iff : Compact options pieces ↔
    (pieces.IsChain fun piece next => piece.staysApart next = true) ∧
      ∀ piece ∈ pieces, piece.Sound options := by
  constructor
  · intro compact
    refine ⟨compact.normal.chain, ?_⟩
    intro piece present
    refine ⟨compact.normal.proper.mem present, compact.read.mem present, ?_⟩
    rintro quantifier alternatives rfl alternative member
    exact ⟨compact.normal.of_alternative present member,
      compact.read.of_alternative present member⟩
  · intro ⟨chain, sound⟩
    refine ⟨⟨?_, ?_⟩, ?_⟩
    · intro part deep piece present
      rcases mem_sequences_iff.mp deep with rfl | ⟨_, _, list, _, member, deeper⟩
      · exact (sound piece present).proper
      · exact ((sound _ list).inside _ _ rfl _ member).normal.proper part deeper piece present
    · intro part deep
      rcases mem_sequences_iff.mp deep with rfl | ⟨_, _, list, _, member, deeper⟩
      · exact chain
      · exact ((sound _ list).inside _ _ rfl _ member).normal.apart part deeper
    · intro part deep piece present
      rcases mem_sequences_iff.mp deep with rfl | ⟨_, _, list, _, member, deeper⟩
      · exact (sound piece present).read
      · exact ((sound _ list).inside _ _ rfl _ member).read part deeper piece present

theorem sound_of_simple (proper : piece.isProper = true)
    (read : piece.isReadUnder options = true)
    (simple : ∀ quantifier alternatives, piece ≠ .list quantifier alternatives) :
    piece.Sound options :=
  ⟨proper, read, fun quantifier alternatives same => absurd same (simple quantifier alternatives)⟩

theorem sound_list {quantifier : Quantifier} {alternatives : List (List Piece)}
    (listed : options.patternLists = true) (nonempty : alternatives ≠ [])
    (filled : alternatives ≠ [[]])
    (inside : ∀ alternative ∈ alternatives, Compact options alternative) :
    (list quantifier alternatives).Sound options := by
  refine ⟨?_, listed, ?_⟩
  · unfold isProper
    split <;> simp_all
  · rintro _ _ ⟨⟩
    exact inside

end Piece

namespace Bracket

variable {options : Options} {members : List CharClass} {text after : List Char}

theorem inOrder_single (c : Char) : (CharClass.single c).inOrder = true := by
  simp [CharClass.single, CharClass.inOrder]

theorem inOrder_of_readMember (found : readMember options text = .ok (members, after)) :
    ∀ member ∈ members, member.inOrder = true := by
  unfold readMember halt at found
  split at found
  case h_1 =>
    split at found
    · cases found
    · split at found
      · cases found
      · cases found
        exact List.forall_mem_singleton.mpr rfl
  case h_2 =>
    split at found
    · cases found
      exact List.forall_mem_singleton.mpr (inOrder_single '-')
    · cases found
  case h_3 =>
    split at found
    · cases found
    · next lower _ _ =>
        split at found
        · cases found
          simp only [List.forall_mem_cons, List.not_mem_nil, false_implies, implies_true,
            inOrder_single, and_self]
        · cases found
    · split at found
      · cases found
      · split at found
        · next inOrder =>
            cases found
            exact List.forall_mem_singleton.mpr (decide_eq_true inOrder)
        · cases found
    · cases found
      exact List.forall_mem_singleton.mpr (inOrder_single _)

theorem inOrder_of_readMembers {first : Bool}
    (found : readMembers options first text = .ok (members, after)) :
    ∀ member ∈ members, member.inOrder = true := by
  fun_induction readMembers options first text generalizing members with
  | case1 => cases found
  | case2 =>
      cases found
      exact List.forall_mem_nil _
  | case3 => cases found
  | case4 => cases found
  | case5 first c rest stays own middle read later _ more ih =>
      cases found
      exact List.forall_mem_append.mpr ⟨inOrder_of_readMember read, ih more⟩

theorem inOrder_of_read {negated : Bool}
    (found : read options text = .ok (negated, members, after)) :
    ∀ member ∈ members, member.inOrder = true := by
  obtain ⟨inside, -, all⟩ := exists_readMembers_of_read found
  exact inOrder_of_readMembers all

end Bracket

namespace Token

def isReadUnder (options : Options) : Token → Bool
  | separator => options.separator.isSome
  | bracket members _ => !members.isEmpty && members.all CharClass.inOrder
  | opening _ => options.patternLists
  | literal _ | star | anyChar | nothing | divider | closing => true

variable {options : Options} {token : Token} {c : Char} {rest after : List Char}

theorem isReadUnder_of_ofBracket (found : ofBracket options rest = .ok (token, after)) :
    token.isReadUnder options = true := by
  cases ofBracket_iff.mp found with
  | empty | literal => rfl
  | closed read filled =>
      simp only [isReadUnder, Bool.and_eq_true, Bool.not_eq_true', List.isEmpty_eq_false_iff]
      exact ⟨filled, List.all_eq_true.mpr (Bracket.inOrder_of_read read)⟩

theorem isReadUnder_of_ofChar (found : ofChar options c rest = .ok (token, after)) :
    token.isReadUnder options = true := by
  cases ofChar_iff.mp found with
  | star | anyChar | literal => rfl
  | bracket _ found => exact isReadUnder_of_ofBracket found
  | separator _ separates => exact Option.isSome_of_eq_some separates

theorem isReadUnder_of_read {inList : Bool}
    (found : read options inList c rest = .ok (token, after)) :
    token.isReadUnder options = true := by
  cases read_iff.mp found with
  | divider | closing | escaped => rfl
  | opening _ _ found => exact (opening?_eq_some_iff.mp found).1
  | char _ _ _ found => exact isReadUnder_of_ofChar found

end Token

namespace Reader

/-- An unfinished sequence, whose pieces are kept with the newest first. -/
structure Unfinished (options : Options) (newestFirst : List Piece) : Prop where
  sound : ∀ piece ∈ newestFirst, piece.Sound options
  apart : newestFirst.IsChain fun newer older => (newer.isWildcard && older.isWildcard) = false

variable {options : Options} {piece : Piece} {rest current : List Piece}

theorem Unfinished.push (unfinished : Unfinished options current) (sound : piece.Sound options)
    (plain : piece.isWildcard = false) : Unfinished options (piece :: current) := by
  refine ⟨List.forall_mem_cons.mpr ⟨sound, unfinished.sound⟩, ?_⟩
  apply List.isChain_cons.mpr
  refine ⟨?_, unfinished.apart⟩
  intro _ _
  rw [plain, Bool.false_and]

theorem Unfinished.replace {newest : Piece} (unfinished : Unfinished options (newest :: rest))
    (sound : piece.Sound options) (alike : piece.isWildcard = newest.isWildcard) :
    Unfinished options (piece :: rest) := by
  refine ⟨List.forall_mem_cons.mpr ⟨sound, (List.forall_mem_cons.mp unfinished.sound).2⟩, ?_⟩
  have apart := unfinished.apart
  rw [List.isChain_cons] at apart ⊢
  rwa [alike]

theorem Unfinished.pushStar (unfinished : Unfinished options current) :
    Unfinished options (pushStar options.wildcardReach current) := by
  have globstar (crosses : options.wildcardReach ≠ .withinComponents) :
      Piece.globstar.Sound options :=
    Piece.sound_of_simple rfl (bne_iff_ne.mpr crosses) (by simp)
  unfold Reader.pushStar
  split
  · split
    · exact unfinished.replace (globstar (by simp_all)) rfl
    · exact unfinished
  · exact unfinished
  · rename_i other others
    have plain : ∀ older ∈ current.head?, older.isWildcard = false := by
      intro older newest
      obtain ⟨rest, rfl⟩ : ∃ rest, current = older :: rest := List.head?_eq_some_iff.mp newest
      cases older with
      | star => exact absurd rfl (other rest)
      | globstar => exact absurd rfl (others rest)
      | separator | literal | anyChar | bracket | list => rfl
    have fresh (wildcard : Piece) (sound : wildcard.Sound options) :
        Unfinished options (wildcard :: current) := by
      refine ⟨List.forall_mem_cons.mpr ⟨sound, unfinished.sound⟩, ?_⟩
      refine List.isChain_cons.mpr ⟨?_, unfinished.apart⟩
      intro older newest
      rw [plain older newest, Bool.and_false]
    split
    · exact fresh _ (globstar (by simp_all))
    · rename_i within
      exact fresh _ (Piece.sound_of_simple rfl (bne_iff_ne.mpr within) (by simp))

theorem head?_prepend {first : Piece} (begins : (prepend piece rest).head? = some first) :
    first.isWildcard = piece.isWildcard := by
  unfold prepend at begins
  split at begins <;> cases begins <;> rfl

theorem compact_prepend (sound : piece.Sound options) (compact : Piece.Compact options rest)
    (apart : ∀ next ∈ rest.head?, (piece.isWildcard && next.isWildcard) = false) :
    Piece.Compact options (prepend piece rest) := by
  obtain ⟨chain, each⟩ := Piece.compact_iff.mp compact
  apply Piece.compact_iff.mpr
  unfold prepend
  split
  · rename_i text later rest
    obtain ⟨next, others⟩ := List.forall_mem_cons.mp each
    rw [List.isChain_cons] at chain ⊢
    refine ⟨chain, List.forall_mem_cons.mpr ⟨?_, others⟩⟩
    have filled : (Piece.literal (text ++ later)).isProper = true := by
      have proper := sound.proper
      simp_all [Piece.isProper]
    exact Piece.sound_of_simple filled rfl (by simp)
  · rename_i separate
    refine ⟨List.isChain_cons.mpr ⟨?_, chain⟩, List.forall_mem_cons.mpr ⟨sound, each⟩⟩
    intro next first
    obtain ⟨more, rfl⟩ := List.head?_eq_some_iff.mp first
    have letters : (piece.isLiteral && next.isLiteral) = false := by
      cases piece with
      | literal text =>
          cases next with
          | literal later => exact absurd rfl (separate text later more rfl)
          | separator | anyChar | bracket | star | globstar | list => rfl
      | separator | anyChar | bracket | star | globstar | list => rfl
    rw [Piece.staysApart, letters, apart next first]
    rfl

theorem Unfinished.assemble (unfinished : Unfinished options current) :
    Piece.Compact options (assemble current) := by
  have general : ∀ later, Piece.Compact options later →
      (∀ newest ∈ current.head?, ∀ next ∈ later.head?,
        (newest.isWildcard && next.isWildcard) = false) →
      Piece.Compact options (current.foldl (fun later piece => prepend piece later) later) := by
    induction current with
    | nil => exact fun later compact _ => compact
    | cons newest older ih =>
        intro later compact apart
        obtain ⟨sound, others⟩ := List.forall_mem_cons.mp unfinished.sound
        obtain ⟨next, chain⟩ := List.isChain_cons.mp unfinished.apart
        apply ih ⟨others, chain⟩ _ (compact_prepend sound compact (apart newest rfl))
        intro piece first following begins
        rw [head?_prepend begins, Bool.and_comm]
        exact next piece first
  refine general [] ?_ (by simp)
  exact Piece.compact_iff.mpr ⟨.nil, by simp⟩

end Reader

/-- A list that is still open, for which everything before its current alternative is settled. -/
structure OpenList.Tidy (options : Options) (list : OpenList) : Prop where
  listed : options.patternLists = true
  before : Reader.Unfinished options list.before
  alternatives : ∀ alternative ∈ list.alternatives, Piece.Compact options alternative

namespace Reader

structure Tidy (options : Options) (reader : Reader) : Prop where
  current : Unfinished options reader.current
  lists : ∀ list ∈ reader.lists, list.Tidy options

variable {reader next : Reader} {token : Token} {text : List Char} {list : OpenList}
  {lists : List OpenList} {quantifier : Quantifier}

theorem unfinished_nil : Unfinished options [] :=
  ⟨by simp, .nil⟩

theorem Tidy.push (tidy : reader.Tidy options) (proper : piece.isProper = true)
    (read : piece.isReadUnder options = true)
    (simple : ∀ quantifier alternatives, piece ≠ .list quantifier alternatives)
    (plain : piece.isWildcard = false) :
    Tidy options { reader with current := piece :: reader.current } :=
  ⟨tidy.current.push (Piece.sound_of_simple proper read simple) plain, tidy.lists⟩

theorem Tidy.opening (tidy : reader.Tidy options) (listed : options.patternLists = true) :
    Tidy options ⟨⟨text, quantifier, reader.current, []⟩ :: reader.lists, []⟩ :=
  ⟨unfinished_nil, List.forall_mem_cons.mpr ⟨⟨listed, tidy.current, by simp⟩, tidy.lists⟩⟩

theorem Tidy.alternatives (tidy : reader.Tidy options) (within : reader.lists = list :: lists) :
    ∀ alternative ∈ Reader.assemble reader.current :: list.alternatives,
      Piece.Compact options alternative := by
  have innermost := tidy.lists list (within ▸ List.mem_cons_self)
  exact List.forall_mem_cons.mpr ⟨tidy.current.assemble, innermost.alternatives⟩

theorem Tidy.divider (tidy : reader.Tidy options) (within : reader.lists = list :: lists) :
    Tidy options
      ⟨{ list with alternatives := Reader.assemble reader.current :: list.alternatives } :: lists,
        []⟩ := by
  have complete := tidy.alternatives within
  obtain ⟨innermost, outer⟩ := List.forall_mem_cons.mp (within ▸ tidy.lists)
  exact ⟨unfinished_nil,
    List.forall_mem_cons.mpr ⟨⟨innermost.listed, innermost.before, complete⟩, outer⟩⟩

theorem Tidy.closing (tidy : reader.Tidy options) (within : reader.lists = list :: lists)
    (filled : (Reader.assemble reader.current :: list.alternatives).reverse ≠ [[]]) :
    Tidy options ⟨lists, .list list.quantifier
      (Reader.assemble reader.current :: list.alternatives).reverse :: list.before⟩ := by
  have complete := tidy.alternatives within
  obtain ⟨innermost, outer⟩ := List.forall_mem_cons.mp (within ▸ tidy.lists)
  refine ⟨innermost.before.push (Piece.sound_list innermost.listed (by simp) filled ?_) rfl, outer⟩
  intro alternative member
  exact complete alternative (List.mem_reverse.mp member)

theorem take_tidy (tidy : reader.Tidy options) (read : token.isReadUnder options = true)
    (taken : reader.take options token text = .ok next) : next.Tidy options := by
  unfold take at taken
  split at taken
  · cases taken
    exact tidy.push rfl rfl (by simp) rfl
  · cases taken
    exact ⟨tidy.current.pushStar, tidy.lists⟩
  · cases taken
    exact tidy.push rfl rfl (by simp) rfl
  · cases taken
    exact tidy.push rfl read (by simp) rfl
  · cases taken
    exact tidy.push read rfl (by simp) rfl
  · cases taken
    exact tidy
  · cases taken
    exact tidy.opening read
  · rename_i list lists within
    cases taken
    exact tidy.divider within
  · rename_i list lists within
    split at taken
    · cases taken
    · rename_i filled
      cases taken
      exact tidy.closing within filled
  · cases taken
    exact tidy
  · cases taken
    exact tidy

theorem compact_of_run {pieces : List Piece} (tidy : reader.Tidy options)
    (done : reader.run options text = .ok pieces) : Piece.Compact options pieces := by
  fun_induction run options reader text with
  | case1 reader =>
      unfold finish at done
      split at done
      · cases done
        exact tidy.current.assemble
      · cases done
  | case2 => cases done
  | case3 => cases done
  | case4 reader c rest token after found next taken ih =>
      exact ih (take_tidy tidy (Token.isReadUnder_of_read found) taken) done

end Reader

theorem Piece.compact_of_ofText {options : Options} {text : List Char} {pieces : List Piece}
    (read : Piece.ofText options text = .ok pieces) : Compact options pieces :=
  Reader.compact_of_run ⟨Reader.unfinished_nil, by simp⟩ read

namespace Pattern

variable {options : Options} {source : String} {pattern : Pattern}

/-- What a pattern is compiled to is in normal form, and only has pieces that the options let a
pattern have. -/
theorem normal_of_compile (compiled : compile options source = .ok pattern) :
    pattern.alternatives ≠ [] ∧ ∀ pieces ∈ pattern.alternatives,
      Piece.Normal pieces ∧ Piece.Everywhere (·.isReadUnder options = true) pieces := by
  constructor
  · intro none
    have read := map_ofText_of_compile compiled
    rw [none, List.map_nil, List.map_eq_nil_iff, expansions] at read
    split at read
    · exact Braces.expand_ne_nil _ _ read
    · cases read
  · intro pieces present
    obtain ⟨text, found⟩ := exists_ofText_of_compile compiled present
    have compact := Piece.compact_of_ofText found
    exact ⟨compact.normal, compact.read⟩

theorem normal_of_compile_dropped_brackets :
    let options : Options := { emptyBracket := .drop, unclosedBracket := .literal }
    let pattern : Pattern := ⟨"a[]\\*/*[!]*[]*@(|[b-d]?(x[]y)))[x",
      [[.literal ['a', '*'], .separator, .globstar, .list .exactlyOne [[],
        [.bracket [.range 'b' 'd'] false, .list .zeroOrOne [[.literal ['x', 'y']]]]],
        .literal [')', '[', 'x']]], options⟩
    compile options pattern.source = .ok pattern ∧ pattern.alternatives ≠ [] ∧
      ∀ pieces ∈ pattern.alternatives,
        Piece.Normal pieces ∧ Piece.Everywhere (·.isReadUnder options = true) pieces :=
  have compiled : compile { emptyBracket := .drop, unclosedBracket := .literal }
      "a[]\\*/*[!]*[]*@(|[b-d]?(x[]y)))[x" =
      .ok ⟨"a[]\\*/*[!]*[]*@(|[b-d]?(x[]y)))[x",
        [[.literal ['a', '*'], .separator, .globstar, .list .exactlyOne [[],
          [.bracket [.range 'b' 'd'] false, .list .zeroOrOne [[.literal ['x', 'y']]]]],
          .literal [')', '[', 'x']]], { emptyBracket := .drop, unclosedBracket := .literal }⟩ := by
    with_unfolding_all rfl
  ⟨compiled, normal_of_compile compiled⟩

end Pattern

end Glob
