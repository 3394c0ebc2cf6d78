import Mathlib.Data.List.Nodup
import Mathlib.Data.List.Perm.Basic
import Glob.Options.Config

/-!
Options come back from any part of their configuration form, in whatever order its fields stand and
whatever other fields stand between them. What the part leaves out has its default. Each field is
found by its key alone, so what is said of one field is said once, for any key and decoder.
-/

namespace Glob

namespace Config

variable {fields whole others : Fields} {key : String} {value : Value} {named : String → Bool}

theorem filter_key (distinct : (fields.map (·.1)).Nodup) (present : (key, value) ∈ fields) :
    fields.filter (·.1 == key) = [(key, value)] := by
  induction fields with
  | nil => cases present
  | cons field rest ih =>
      obtain ⟨fresh, later⟩ := List.nodup_cons.mp distinct
      rcases List.mem_cons.mp present with rfl | member
      · have none : rest.filter (·.1 == key) = [] := by
          apply List.filter_eq_nil_iff.mpr
          intro other elsewhere same
          exact fresh (List.mem_map.mpr ⟨other, elsewhere, eq_of_beq same⟩)
        simp [none]
      · have apart : (field.1 == key) = false := by
          apply beq_eq_false_iff_ne.mpr
          intro same
          exact fresh (List.mem_map.mpr ⟨(key, value), member, same.symm⟩)
        simp [apart, ih later member]

theorem filter_key_of_part (distinct : (whole.map (·.1)).Nodup)
    (unknown : ∀ field ∈ others, field.1 ∉ whole.map (·.1))
    (part : fields.Perm (whole.filter (fun field => named field.1) ++ others))
    (present : (key, value) ∈ whole) :
    fields.filter (·.1 == key) = if named key then [(key, value)] else [] := by
  have none : others.filter (·.1 == key) = [] := by
    apply List.filter_eq_nil_iff.mpr
    intro field member same
    apply unknown field member
    rw [eq_of_beq same]
    exact List.mem_map_of_mem present
  have kept := part.filter (·.1 == key)
  rw [List.filter_append, none, List.append_nil, List.filter_comm,
    filter_key distinct present, List.filter_singleton] at kept
  cases chosen : named key with
  | false => simpa [chosen] using kept
  | true => simpa [chosen] using kept

theorem field?_of_part {α : Type} {decode? : Value → Option α} {choice absent : α}
    (distinct : (whole.map (·.1)).Nodup) (unknown : ∀ field ∈ others, field.1 ∉ whole.map (·.1))
    (part : fields.Perm (whole.filter (fun field => named field.1) ++ others))
    (present : (key, value) ∈ whole) (decodes : decode? value = some choice) :
    field? fields key decode? absent = some (if named key then choice else absent) := by
  rw [field?, filter_key_of_part distinct unknown part present]
  cases named key with
  | false => rfl
  | true => exact decodes

namespace Value

theorem toChar?_ofChar (c : Char) : (ofChar c).toChar? = some c := by
  simp [ofChar, toChar?]

theorem toOptionalChar?_ofOptionalChar (c : Option Char) :
    (ofOptionalChar c).toOptionalChar? = some c := by
  cases c with
  | none => rfl
  | some c => exact congrArg (Option.map some) (toChar?_ofChar c)

theorem toChars?_ofChars (chars : List Char) : (ofChars chars).toChars? = some chars := by
  rw [ofChars, toChars?]
  induction chars with
  | nil => rfl
  | cons c rest ih => simp [toChar?_ofChar, ih]

theorem toChoice?_name {α : Type} {choices : List α} {name : α → String} {choice : α}
    (distinct : (choices.map name).Nodup) (present : choice ∈ choices) :
    toChoice? choices name (.string (name choice)) = some choice := by
  cases found : choices.find? (name · == name choice) with
  | none => exact absurd (beq_self_eq_true _) (List.find?_eq_none.mp found choice present)
  | some other =>
      have same : (name other == name choice) = true :=
        List.find?_some (p := fun option => name option == name choice) found
      have member := List.mem_of_find?_eq_some found
      rw [toChoice?, found, List.inj_on_of_nodup_map distinct member present (eq_of_beq same)]

end Value

end Config

theorem WildcardReach.mem_all (reach : WildcardReach) : reach ∈ all := by
  cases reach <;> decide

theorem NegationMark.mem_all (mark : NegationMark) : mark ∈ all := by
  cases mark <;> decide

theorem EmptyBracket.mem_all (treatment : EmptyBracket) : treatment ∈ all := by
  cases treatment <;> decide

theorem UnclosedBracket.mem_all (treatment : UnclosedBracket) : treatment ∈ all := by
  cases treatment <;> decide

open Config

namespace Options

def keys : List String :=
  (toConfig {}).map (·.1)

theorem keys_nodup : keys.Nodup := by
  decide

/-- The options in the fields whose keys are named, and the default in all others. -/
def only (named : String → Bool) (options : Options) : Options :=
  let absent : Options := {}
  { wildcardReach := if named "wildcard-behavior" then options.wildcardReach
      else absent.wildcardReach
    separator := if named "path-separator" then options.separator else absent.separator
    extraSeparators := if named "additional-path-separators" then options.extraSeparators
      else absent.extraSeparators
    escapes := if named "supports-escaped-characters" then options.escapes else absent.escapes
    explicitLeadingPeriods := if named "requires-explicit-leading-periods" then
      options.explicitLeadingPeriods else absent.explicitLeadingPeriods
    ignoresTrailingSeparator := if named "matches-trailing-path-separator" then
      options.ignoresTrailingSeparator else absent.ignoresTrailingSeparator
    leadingDirectories := if named "match-leading-directories" then options.leadingDirectories
      else absent.leadingDirectories
    negation := if named "range-negation-character" then options.negation else absent.negation
    emptyBracket := if named "empty-range-behavior" then options.emptyBracket
      else absent.emptyBracket
    unclosedBracket := if named "unclosed-bracket-behavior" then options.unclosedBracket
      else absent.unclosedBracket
    edgeHyphens := if named "supports-range-separator-at-beginning-and-end" then
      options.edgeHyphens else absent.edgeHyphens
    patternLists := if named "supports-pattern-lists" then options.patternLists
      else absent.patternLists
    braces := if named "supports-brace-expansion" then options.braces else absent.braces
    trailingGlobstarNeedsComponent := if named "trailing-path-wildcard-requires-component" then
      options.trailingGlobstarNeedsComponent else absent.trailingGlobstarNeedsComponent
    baseLetterRanges := if named "diacritic-insensitive-ranges" then options.baseLetterRanges
      else absent.baseLetterRanges }

variable {options : Options} {named : String → Bool} {others fields : Fields}

theorem only_all (all : ∀ key ∈ keys, named key = true) :
    options.only named = options := by
  simp [only, keys, toConfig] at all ⊢
  simp [all]

theorem ofConfig?_of_part (unknown : ∀ field ∈ others, field.1 ∉ keys)
    (part : fields.Perm (options.toConfig.filter (fun field => named field.1) ++ others)) :
    ofConfig? fields = some (options.only named) := by
  have distinct : (options.toConfig.map (·.1)).Nodup := keys_nodup
  have read {α : Type} {value : Value} {decode? : Value → Option α} {choice absent : α}
      (key : String) (decodes : decode? value = some choice)
      (present : (key, value) ∈ options.toConfig) :
      field? fields key decode? absent = some (if named key then choice else absent) :=
    field?_of_part distinct unknown part present decodes
  have flag (b : Bool) {absent : Bool} (key : String)
      (present : (key, .bool b) ∈ options.toConfig) :
      field? fields key Value.toBool? absent = some (if named key then b else absent) :=
    read key rfl present
  -- Only flags are read as they are; the other values have to be found by how they are written.
  have reach := Value.toChoice?_name (by decide : (WildcardReach.all.map WildcardReach.name).Nodup)
    options.wildcardReach.mem_all
  have mark := Value.toChoice?_name (by decide : (NegationMark.all.map NegationMark.name).Nodup)
    options.negation.mem_all
  have empty := Value.toChoice?_name (by decide : (EmptyBracket.all.map EmptyBracket.name).Nodup)
    options.emptyBracket.mem_all
  have unclosed := Value.toChoice?_name
    (by decide : (UnclosedBracket.all.map UnclosedBracket.name).Nodup)
    options.unclosedBracket.mem_all
  have separator := Value.toOptionalChar?_ofOptionalChar options.separator
  have extra := Value.toChars?_ofChars options.extraSeparators
  simp only [ofConfig?, read "wildcard-behavior" reach (by simp [toConfig]),
    read "path-separator" separator (by simp [toConfig]),
    read "additional-path-separators" extra (by simp [toConfig]),
    flag options.escapes "supports-escaped-characters" (by simp [toConfig]),
    flag options.explicitLeadingPeriods "requires-explicit-leading-periods" (by simp [toConfig]),
    flag options.ignoresTrailingSeparator "matches-trailing-path-separator" (by simp [toConfig]),
    flag options.leadingDirectories "match-leading-directories" (by simp [toConfig]),
    read "range-negation-character" mark (by simp [toConfig]),
    read "empty-range-behavior" empty (by simp [toConfig]),
    read "unclosed-bracket-behavior" unclosed (by simp [toConfig]),
    flag options.edgeHyphens "supports-range-separator-at-beginning-and-end"
      (by simp [toConfig]),
    flag options.patternLists "supports-pattern-lists" (by simp [toConfig]),
    flag options.braces "supports-brace-expansion" (by simp [toConfig]),
    flag options.trailingGlobstarNeedsComponent "trailing-path-wildcard-requires-component"
      (by simp [toConfig]),
    flag options.baseLetterRanges "diacritic-insensitive-ranges" (by simp [toConfig])]
  rfl

/-- Any part of what is written of options gives back the options in the fields that it has, and the
defaults in all others. The fields may stand in any order, and fields with other keys between them.
From all of its fields the form gives back the options. -/
theorem reads_back_any_part (options : Options) (named : String → Bool) (others fields : Fields)
    (unknown : ∀ field ∈ others, field.1 ∉ keys)
    (part : fields.Perm (options.toConfig.filter (fun field => named field.1) ++ others)) :
    ofConfig? fields = some (options.only named) ∧
      ((∀ key ∈ keys, named key = true) → ofConfig? fields = some options) := by
  have read := ofConfig?_of_part unknown part
  refine ⟨read, fun all => ?_⟩
  rw [read, only_all all]

theorem reads_back_any_part_reversed :
    let options : Options :=
      { separator := none, extraSeparators := ['\\', ':'], negation := .both, braces := true }
    let named := fun key =>
      ["path-separator", "additional-path-separators", "range-negation-character"].contains key
    let others : Fields := [("Supports-Brace-Expansion", .bool true), ("comment", .array [.null])]
    let fields : Fields := [("comment", .array [.null]), ("Supports-Brace-Expansion", .bool true),
      ("range-negation-character", .string "both"),
      ("additional-path-separators", .ofChars ['\\', ':']), ("path-separator", .null)]
    (∀ field ∈ others, field.1 ∉ keys) ∧
      fields.Perm (options.toConfig.filter (fun field => named field.1) ++ others) ∧
      ofConfig? fields =
        some { separator := none, extraSeparators := ['\\', ':'], negation := .both } := by
  intro options named others fields
  have unknown : ∀ field ∈ others, field.1 ∉ keys := by decide
  have reversed : fields =
      (options.toConfig.filter (fun field => named field.1) ++ others).reverse := rfl
  have part : fields.Perm (options.toConfig.filter (fun field => named field.1) ++ others) :=
    reversed ▸ List.reverse_perm _
  have only : options.only named =
      { separator := none, extraSeparators := ['\\', ':'], negation := .both } := by decide
  exact ⟨unknown, part, only ▸ (reads_back_any_part options named others fields unknown part).1⟩

end Options

end Glob
