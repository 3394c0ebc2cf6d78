import Glob.Proofs.Compiled
import Glob.Proofs.Escaped
import Glob.Proofs.Reading
import Glob.Proofs.Widening

/-!
How far wildcards reach, where no character is a separator. The options then decide which wildcard a
run of `*` is read as, and the widened pieces are the same for all of them.
-/

namespace Glob

def Options.withReach (options : Options) (reach : WildcardReach) : Options :=
  { options with wildcardReach := reach }

@[simp]
theorem Options.withReach_withReach (options : Options) (reach other : WildcardReach) :
    (options.withReach reach).withReach other = options.withReach other :=
  rfl

theorem Options.writtenAlike_withReach (options : Options) (reach : WildcardReach) :
    options.WrittenAlike (options.withReach reach) :=
  ⟨rfl, rfl, rfl, rfl, rfl, rfl, rfl, rfl⟩

theorem Options.matchAlike_withReach (options : Options) (reach : WildcardReach) :
    options.MatchAlike (options.withReach reach) :=
  ⟨rfl, rfl, rfl, rfl⟩

def OpenList.widen (list : OpenList) : OpenList where
  sigil := list.sigil
  quantifier := list.quantifier
  before := Piece.widenAll list.before
  alternatives := Piece.widenEach list.alternatives

def Reader.widen (reader : Reader) : Reader where
  lists := reader.lists.map OpenList.widen
  current := Piece.widenAll reader.current

namespace Reader

variable {options other : Options} {reader : Reader}

theorem prepend_widen (piece : Piece) (rest : List Piece) :
    prepend piece.widen (Piece.widenAll rest) = Piece.widenAll (prepend piece rest) := by
  cases rest with
  | nil => cases piece <;> rfl
  | cons next rest => cases piece <;> cases next <;> rfl

theorem assemble_widenAll (newestFirst : List Piece) :
    assemble (Piece.widenAll newestFirst) = Piece.widenAll (assemble newestFirst) := by
  have general : ∀ later, (Piece.widenAll newestFirst).foldl
      (fun later piece => prepend piece later) (Piece.widenAll later) =
        Piece.widenAll (newestFirst.foldl (fun later piece => prepend piece later) later) := by
    induction newestFirst with
    | nil => exact fun later => rfl
    | cons newest older ih =>
        intro later
        rw [Piece.widenAll, List.foldl_cons, List.foldl_cons, prepend_widen]
        exact ih (prepend newest later)
  exact general []

theorem pushStar_widenAll (reach : WildcardReach) (pieces : List Piece) :
    pushStar .singleStarCrosses (Piece.widenAll pieces) =
      Piece.widenAll (pushStar reach pieces) := by
  cases pieces with
  | nil => cases reach <;> rfl
  | cons piece rest => cases piece <;> cases reach <;> rfl

theorem widenEach_reverse (alternatives : List (List Piece)) :
    (Piece.widenEach alternatives).reverse = Piece.widenEach alternatives.reverse := by
  simp only [Piece.widenEach_eq_map, List.map_reverse]

theorem take_widen (crosses : other.wildcardReach = .singleStarCrosses) (token : Token)
    (text : List Char) :
    reader.widen.take other token text = (reader.take options token text).map Reader.widen := by
  rcases reader with ⟨lists, current⟩
  cases token with
  | star =>
      simp only [take, widen, crosses, pushStar_widenAll options.wildcardReach]
      rfl
  | literal | anyChar | separator | bracket | nothing | opening => rfl
  | divider =>
      cases lists with
      | nil => rfl
      | cons list outer =>
          simp only [take, widen, List.map_cons, OpenList.widen, assemble_widenAll]
          rfl
  | closing =>
      cases lists with
      | nil => rfl
      | cons list outer =>
          simp only [take, widen, List.map_cons, OpenList.widen, assemble_widenAll]
          rw [← Piece.widenEach, widenEach_reverse]
          -- Only a list whose one alternative is empty is refused, and it stays empty.
          generalize (assemble current :: list.alternatives).reverse = alternatives
          rcases alternatives with _ | ⟨_ | ⟨piece, first⟩, _ | ⟨second, rest⟩⟩ <;> rfl

theorem finish_widen : reader.widen.finish = reader.finish.map Piece.widenAll := by
  rcases reader with ⟨_ | ⟨list, outer⟩, current⟩
  · exact congrArg Except.ok (assemble_widenAll current)
  · rfl

theorem run_widen (alike : options.WrittenAlike other)
    (crosses : other.wildcardReach = .singleStarCrosses) (reader : Reader) (text : List Char) :
    reader.widen.run other text = (reader.run options text).map Piece.widenAll := by
  have nested (reader : Reader) : reader.widen.lists.isEmpty = reader.lists.isEmpty :=
    List.isEmpty_map
  fun_induction run options reader text with
  | case1 reader => rw [run, finish_widen]
  | case2 reader c rest failure found =>
      rw [run, nested, ← Token.read_congr alike, found]
      rfl
  | case3 reader c rest token after found failure taken =>
      rw [run, nested, ← Token.read_congr alike, found]
      simp only
      rw [take_widen crosses, taken]
      rfl
  | case4 reader c rest token after found next taken ih =>
      rw [run, nested, ← Token.read_congr alike, found]
      simp only
      rw [take_widen crosses, taken]
      exact ih

end Reader

namespace Pattern

/-- The pattern that is compiled where a single `*` crosses separators. -/
def widen (pattern : Pattern) : Pattern where
  source := pattern.source
  alternatives := Piece.widenEach pattern.alternatives
  options := pattern.options.withReach .singleStarCrosses

/-- Whether a wildcard may stand at the start of what the pattern matches. -/
def opensWithWildcard (pattern : Pattern) : Bool :=
  Piece.someOpensWithWildcard pattern.alternatives

variable {options : Options} {pattern other : Pattern} {source : String}

theorem mapM_eq_map {α β γ ε : Type} {read : α → Except ε β} {reread : α → Except ε γ} {f : β → γ}
    (same : ∀ input, reread input = (read input).map f) (inputs : List α) :
    inputs.mapM reread = (inputs.mapM read).map (List.map f) := by
  induction inputs with
  | nil => rfl
  | cons input rest ih =>
      rw [List.mapM_cons, List.mapM_cons, same, ih]
      cases read input with
      | error failure => rfl
      | ok first => cases rest.mapM read <;> rfl

theorem except_cases_of_map_eq {α β ε : Type} {left right : Except ε α} {f : α → β}
    (same : left.map f = right.map f) :
    (∀ failure, left = .error failure ↔ right = .error failure) ∧
      ∀ result, left = .ok result → ∃ other, right = .ok other ∧ f result = f other := by
  cases left with
  | error failure =>
      cases right with
      | error other =>
          cases same
          exact ⟨fun _ => Iff.rfl, nofun⟩
      | ok other => cases same
  | ok result =>
      cases right with
      | error failure => cases same
      | ok other =>
          refine ⟨fun _ => iff_of_false nofun nofun, ?_⟩
          intro found here
          cases here
          exact ⟨other, rfl, Except.ok.inj same⟩

theorem compile_widen (options : Options) (source : String) :
    compile (options.withReach .singleStarCrosses) source =
      (compile options source).map widen := by
  have alike := options.writtenAlike_withReach .singleStarCrosses
  have read (text : List Char) :
      readAlternative (options.withReach .singleStarCrosses) text =
        (readAlternative options text).map Piece.widenAll := by
    have run : Piece.ofText (options.withReach .singleStarCrosses) text =
        (Piece.ofText options text).map Piece.widenAll := Reader.run_widen alike rfl ⟨[], []⟩ text
    unfold readAlternative
    rw [run]
    cases Piece.ofText options text <;> rfl
  unfold compile expansions
  rw [mapM_eq_map read, ← alike.braces, ← alike.escapes]
  cases (if options.braces then Braces.expand options.escapes source.toList
      else [source.toList]).mapM (readAlternative options) with
  | error mistake => rfl
  | ok alternatives =>
      have each : alternatives.map Piece.widenAll = Piece.widenEach alternatives :=
        Piece.widenEach_eq_map.symm
      exact congrArg (fun widened => Except.ok (Pattern.mk source widened
        (options.withReach .singleStarCrosses))) each

theorem opensWithWildcard_widen : pattern.widen.opensWithWildcard = pattern.opensWithWildcard :=
  Piece.someOpensWithWildcard_widenEach pattern.alternatives

theorem opensWithWildcard_of_mem {pieces : List Piece} (closed : pattern.opensWithWildcard = false)
    (present : pieces ∈ pattern.alternatives) : Piece.opensWithWildcard pieces = false := by
  apply Bool.eq_false_iff.mpr
  intro opens
  exact Bool.eq_false_iff.mp closed (Piece.someOpensWithWildcard_iff.mpr ⟨pieces, present, opens⟩)

structure Unseparated (pattern : Pattern) : Prop where
  text : ∀ c, pattern.options.isSeparator c = false
  pieces : ∀ pieces ∈ pattern.alternatives, Piece.Everywhere (· ≠ .separator) pieces

theorem unseparated_of_compile (whole : options.separator = none)
    (plain : options.extraSeparators = []) (compiled : compile options source = .ok pattern) :
    pattern.Unseparated := by
  constructor
  · intro c
    rw [options_of_compile compiled, Options.isSeparator, whole, plain]
    rfl
  · intro pieces present part deep piece member same
    have allowed := allAllowed_of_compile compiled pieces present part deep piece member
    rw [same, Piece.allowedBy, whole] at allowed
    cases allowed

theorem accepts_widen {text : String} (whole : pattern.Unseparated)
    (visible : pattern.options.explicitLeadingPeriods = true → text.toList.head? = some '.' →
      pattern.opensWithWildcard = false) : pattern.accepts text = pattern.widen.accepts text := by
  have separates (i : Nat) :
      (Subject.mk text.toList.toArray pattern.options).isSeparatorAt i = false := by
    cases found : text.toList.toArray[i]? <;> simp [Subject.isSeparatorAt, found, whole.text]
  have upTo (stop : Nat) : pattern.acceptsUpTo text.toList.toArray stop =
      pattern.widen.acceptsUpTo text.toList.toArray stop := by
    apply Bool.eq_iff_iff.mpr
    simp only [acceptsUpTo, widen, Piece.widenEach_eq_map, List.any_map, List.any_eq_true]
    apply exists_congr
    intro pieces
    apply and_congr_right
    intro present
    have agrees : (Subject.mk text.toList.toArray pattern.options).AgreesBelow
        ⟨text.toList.toArray, pattern.widen.options⟩ stop :=
      ⟨fun _ _ => rfl, pattern.options.matchAlike_withReach .singleStarCrosses⟩
    have widens : (Subject.mk text.toList.toArray pattern.options).Widens pieces 0 stop := by
      intro _ hidden
      obtain ⟨explicit, period, _⟩ := Subject.isHiddenPeriod_iff.mp hidden
      have begins : text.toList.head? = some '.' := by simpa [List.head?_eq_getElem?] using period
      exact opensWithWildcard_of_mem (visible explicit begins) present
    rw [Subject.accepts_widenAll separates (whole.pieces pieces present) (Nat.zero_le stop) widens]
    exact Subject.accepts_congr_of_seenAlike agrees.seenAlike (fun _ _ _ _ => trivial)
      (Nat.zero_le stop)
  rw [accepts, accepts, acceptsChars, acceptsChars, upTo, upTo]
  rfl

/-- Where there are no separators, how far wildcards reach changes nothing, except for a text that
begins with a hidden period and a pattern that can begin with a wildcard. -/
theorem accepts_eq_of_reach (whole : options.separator = none)
    (plain : options.extraSeparators = []) (reach : WildcardReach) (source : String) :
    (∀ mistake, compile options source = .error mistake ↔
      compile (options.withReach reach) source = .error mistake) ∧
    ∀ pattern, compile options source = .ok pattern →
      ∃ other, compile (options.withReach reach) source = .ok other ∧
        ∀ text : String, (options.explicitLeadingPeriods = true → text.toList.head? = some '.' →
          pattern.opensWithWildcard = false) → pattern.accepts text = other.accepts text := by
  have both : (compile options source).map widen =
      (compile (options.withReach reach) source).map widen := by
    rw [← compile_widen, ← compile_widen, Options.withReach_withReach]
  obtain ⟨mistakes, patterns⟩ := except_cases_of_map_eq both
  refine ⟨mistakes, ?_⟩
  intro pattern compiled
  obtain ⟨other, again, same⟩ := patterns pattern compiled
  refine ⟨other, again, ?_⟩
  intro text visible
  have unseparated : other.Unseparated := by
    apply unseparated_of_compile _ _ again
    · exact whole
    · exact plain
  have opens : other.opensWithWildcard = pattern.opensWithWildcard := by
    rw [← opensWithWildcard_widen, ← same, opensWithWildcard_widen]
  calc
    pattern.accepts text = pattern.widen.accepts text := by
      apply accepts_widen (unseparated_of_compile whole plain compiled)
      rw [options_of_compile compiled]
      exact visible
    _ = other.widen.accepts text := by rw [same]
    _ = other.accepts text := by
      symm
      apply accepts_widen unseparated
      rw [options_of_compile again, opens]
      exact visible

theorem accepts_eq_of_reach_after_period :
    let options : Options := { separator := none }
    let pattern : Pattern := ⟨".*?(!(a)|?**)", [[.literal ['.'], .star, .list .zeroOrOne
      [[.list .negated [[.literal ['a']]]], [.anyChar, .globstar]]]], options⟩
    compile options pattern.source = .ok pattern ∧ pattern.opensWithWildcard = false ∧
      ∃ other, compile (options.withReach .withinComponents) pattern.source = .ok other ∧
        pattern.accepts ".x/c" = other.accepts ".x/c" ∧ pattern.accepts ".x/c" = true :=
  have compiled : compile { separator := none } ".*?(!(a)|?**)" =
      .ok ⟨".*?(!(a)|?**)", [[.literal ['.'], .star, .list .zeroOrOne
        [[.list .negated [[.literal ['a']]]], [.anyChar, .globstar]]]], { separator := none }⟩ := by
    cbv
  have agree := (accepts_eq_of_reach rfl rfl .withinComponents ".*?(!(a)|?**)").2 _ compiled
  ⟨compiled, by decide, agree.imp fun _ other =>
    ⟨other.1, other.2 ".x/c" fun _ _ => by decide, by decide +kernel⟩⟩

end Pattern

namespace Subject

variable {subject : Subject} {start stop : Nat} {leading : Bool}

theorem accepts_wildcard_of_hiddenPeriod (shorter : start < stop)
    (hidden : subject.isHiddenPeriod start = true) :
    subject.accepts [.star] start stop leading = false ∧
      subject.accepts [.globstar] start stop leading = true := by
  have kept : Piece.fixedLast? [] leading = none := by cases leading <;> rfl
  constructor
  · apply Bool.eq_false_iff.mpr
    intro accepted
    exact ((accepts_star kept (Nat.le_of_lt shorter)).mp accepted).1 ⟨shorter, hidden⟩
  · exact (accepts_globstar kept).mpr (.inl rfl)

end Subject

namespace Pattern

variable {options : Options}

theorem compile_single_star (options : Options) :
    compile options "*" = .ok ⟨"*", [[if options.wildcardReach = .singleStarCrosses then .globstar
      else .star]], options⟩ := by
  have read : Token.read options false '*' [] = .ok (.star, []) :=
    Token.read_iff.mpr (.char nofun (fun _ => by decide) rfl rfl)
  have run : Piece.ofText options ['*'] = .ok [if options.wildcardReach = .singleStarCrosses then
      .globstar else .star] := by
    rw [Piece.ofText, Reader.run_step read rfl, Reader.run]
    cases options.wildcardReach <;> rfl
  apply compile_of_ofText _ run
  unfold expansions
  cases options.braces <;> cases options.escapes <;> decide +kernel

/-- A text that begins with a hidden period is matched by a `*` alone if that crosses separators,
and not otherwise: there it does make a difference how far wildcards reach. -/
theorem accepts_single_star_of_hiddenPeriod {text : String} (whole : options.separator = none)
    (plain : options.extraSeparators = []) (explicit : options.explicitLeadingPeriods = true)
    (begins : text.toList.head? = some '.') (reach : WildcardReach) :
    ∃ pattern, compile (options.withReach reach) "*" = .ok pattern ∧
      (pattern.accepts text = true ↔ reach = .singleStarCrosses) := by
  refine ⟨_, compile_single_star (options.withReach reach), ?_⟩
  obtain ⟨rest, chars⟩ := List.head?_eq_some_iff.mp begins
  let subject : Subject := ⟨text.toList.toArray, options.withReach reach⟩
  -- The text does not end with a separator, so it is matched once.
  have once (pieces : List Piece) :
      (Pattern.mk "*" [pieces] (options.withReach reach)).accepts text =
        subject.accepts pieces 0 text.toList.length options.leadingDirectories := by
    have apart (c : Char) : (options.withReach reach).isSeparator c = false := by
      simp [Options.isSeparator, Options.withReach, whole, plain]
    have whole : text.toList.getLast?.any (options.withReach reach).isSeparator = false := by
      cases text.toList.getLast? <;> simp [apart]
    simp only [accepts, acceptsChars, whole, Bool.and_false, Bool.false_and, Bool.or_false]
    exact Bool.or_false _
  have hidden : subject.isHiddenPeriod 0 = true :=
    Subject.isHiddenPeriod_iff.mpr ⟨explicit, by simp [subject, chars], rfl⟩
  have inside : 0 < text.toList.length := by simp [chars]
  obtain ⟨kept, passed⟩ := Subject.accepts_wildcard_of_hiddenPeriod inside hidden
  by_cases crosses : reach = .singleStarCrosses
  · subst crosses
    exact iff_of_true ((once _).trans passed) rfl
  · have star : (if (options.withReach reach).wildcardReach = .singleStarCrosses then
        Piece.globstar else .star) = .star := if_neg crosses
    rw [star, once, kept]
    exact iff_of_false Bool.false_ne_true crosses

end Pattern

end Glob
