import Glob.Pattern

/-! How a pattern is read depends on some of the options only. -/

namespace Glob

/-- The tokens of a pattern depend on no other options. -/
structure Options.WrittenAlike (options other : Options) : Prop where
  separator : options.separator = other.separator
  escapes : options.escapes = other.escapes
  negation : options.negation = other.negation
  emptyBracket : options.emptyBracket = other.emptyBracket
  unclosedBracket : options.unclosedBracket = other.unclosedBracket
  edgeHyphens : options.edgeHyphens = other.edgeHyphens
  patternLists : options.patternLists = other.patternLists
  braces : options.braces = other.braces

structure Options.ReadAlike (options other : Options) : Prop extends
    options.WrittenAlike other where
  reach : options.wildcardReach = other.wildcardReach

variable {options other : Options}

namespace Bracket

theorem readMember_congr (alike : options.WrittenAlike other) (text : List Char) :
    readMember options text = readMember other text := by
  unfold readMember
  rw [alike.edgeHyphens, alike.escapes]

theorem readMembers_congr (alike : options.WrittenAlike other) (first : Bool) (text : List Char) :
    readMembers options first text = readMembers other first text := by
  fun_induction readMembers options first text with
  | case1 first => rw [readMembers]
  | case2 first c rest closes =>
      rw [readMembers, ← alike.emptyBracket, if_pos closes]
  | case3 first c rest stays reason read =>
      rw [readMembers, ← alike.emptyBracket, if_neg stays, ← readMember_congr alike, read]
  | case4 first c rest stays members middle read reason later ih =>
      rw [readMembers, ← alike.emptyBracket, if_neg stays, ← readMember_congr alike, read]
      simp only
      rw [← ih, later]
  | case5 first c rest stays members middle read later after more ih =>
      rw [readMembers, ← alike.emptyBracket, if_neg stays, ← readMember_congr alike, read]
      simp only
      rw [← ih, more]

theorem read_congr (alike : options.WrittenAlike other) (text : List Char) :
    read options text = read other text := by
  unfold read
  rw [alike.negation]
  simp only [readMembers_congr alike]

end Bracket

namespace Token

theorem ofBracket_congr (alike : options.WrittenAlike other) (rest : List Char) :
    ofBracket options rest = ofBracket other rest := by
  unfold ofBracket
  rw [alike.emptyBracket, alike.unclosedBracket, Bracket.read_congr alike]

theorem read_congr (alike : options.WrittenAlike other) (inList : Bool) (c : Char)
    (rest : List Char) : read options inList c rest = read other inList c rest := by
  unfold read ofChar opening?
  rw [alike.escapes, alike.patternLists, alike.separator, ofBracket_congr alike]

end Token

namespace Reader

theorem take_congr (alike : options.ReadAlike other) (reader : Reader) (token : Token)
    (text : List Char) : reader.take options token text = reader.take other token text := by
  unfold take
  rw [alike.reach]

theorem run_congr (alike : options.ReadAlike other) (reader : Reader) (text : List Char) :
    reader.run options text = reader.run other text := by
  fun_induction run options reader text with
  | case1 reader => rw [run]
  | case2 reader c rest failure found =>
      rw [run, ← Token.read_congr alike.toWrittenAlike, found]
  | case3 reader c rest token after found failure taken =>
      rw [run, ← Token.read_congr alike.toWrittenAlike, found]
      simp only
      rw [← take_congr alike, taken]
  | case4 reader c rest token after found next taken ih =>
      rw [run, ← Token.read_congr alike.toWrittenAlike, found]
      simp only
      rw [← take_congr alike, taken]
      exact ih

end Reader

namespace Pattern

variable {source : String} {pattern : Pattern}

theorem eq_of_compile (compiled : compile options source = .ok pattern) :
    ∃ alternatives, (expansions options source).mapM (readAlternative options) = .ok alternatives ∧
      pattern = ⟨source, alternatives, options⟩ := by
  unfold compile at compiled
  cases read : (expansions options source).mapM (readAlternative options) with
  | error mistake =>
      rw [read] at compiled
      cases compiled
  | ok alternatives =>
      rw [read] at compiled
      cases compiled
      exact ⟨alternatives, rfl, rfl⟩

theorem options_of_compile (compiled : compile options source = .ok pattern) :
    pattern.options = options := by
  obtain ⟨alternatives, _, rfl⟩ := eq_of_compile compiled
  rfl

theorem ofText_of_readAlternative {text : List Char} {pieces : List Piece}
    (read : readAlternative options text = .ok pieces) :
    Piece.ofText options text = .ok pieces := by
  unfold readAlternative at read
  cases result : Piece.ofText options text with
  | error failure =>
      rw [result] at read
      cases read
  | ok pieces =>
      rw [result] at read
      cases read
      rfl

theorem map_ofText_of_mapM {texts : List (List Char)} {alternatives : List (List Piece)}
    (done : texts.mapM (readAlternative options) = .ok alternatives) :
    texts.map (Piece.ofText options) = alternatives.map Except.ok := by
  induction texts generalizing alternatives with
  | nil =>
      cases done
      rfl
  | cons text rest ih =>
      rw [List.mapM_cons] at done
      cases first : readAlternative options text with
      | error mistake =>
          rw [first] at done
          cases done
      | ok pieces =>
          rw [first] at done
          cases others : rest.mapM (readAlternative options) with
          | error mistake =>
              rw [others] at done
              cases done
          | ok later =>
              rw [others] at done
              cases done
              rw [List.map_cons, ofText_of_readAlternative first, ih others, List.map_cons]

theorem map_ofText_of_compile (compiled : compile options source = .ok pattern) :
    (expansions options source).map (Piece.ofText options) =
      pattern.alternatives.map Except.ok := by
  obtain ⟨alternatives, read, rfl⟩ := eq_of_compile compiled
  exact map_ofText_of_mapM read

theorem exists_ofText_of_compile {pieces : List Piece}
    (compiled : compile options source = .ok pattern) (present : pieces ∈ pattern.alternatives) :
    ∃ text, Piece.ofText options text = .ok pieces := by
  have read : Except.ok pieces ∈ pattern.alternatives.map (Except.ok (ε := Failure)) :=
    List.mem_map_of_mem present
  rw [← map_ofText_of_compile compiled] at read
  obtain ⟨text, _, found⟩ := List.mem_map.mp read
  exact ⟨text, found⟩

theorem compile_of_ofText {pieces : List Piece}
    (single : expansions options source = [source.toList])
    (read : Piece.ofText options source.toList = .ok pieces) :
    compile options source = .ok ⟨source, [pieces], options⟩ := by
  have parsed : readAlternative options source.toList = .ok pieces := by
    rw [readAlternative, read]
    rfl
  rw [compile, single, List.mapM_cons, parsed]
  rfl

theorem compile_unbraced (unbraced : options.braces = false) (source : String) :
    compile options source =
      match Piece.ofText options source.toList with
      | .ok pieces => .ok ⟨source, [pieces], options⟩
      | .error failure => .error (failure.within source.toList) := by
  have single : expansions options source = [source.toList] := by simp [expansions, unbraced]
  cases read : Piece.ofText options source.toList with
  | ok pieces => exact compile_of_ofText single read
  | error failure =>
      rw [compile, single, List.mapM_cons, readAlternative, read]
      rfl

theorem compile_congr (alike : options.ReadAlike other) (source : String) :
    compile other source = (compile options source).map fun pattern =>
      { pattern with options := other } := by
  have read : readAlternative options = readAlternative other := by
    funext text
    unfold readAlternative Piece.ofText
    rw [Reader.run_congr alike]
  unfold compile expansions
  rw [← alike.braces, ← alike.escapes, ← read]
  cases (if options.braces then Braces.expand options.escapes source.toList
    else [source.toList]).mapM (readAlternative options) <;> rfl

end Pattern

end Glob
