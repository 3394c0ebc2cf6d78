import Glob.Pattern

/-!
What a reader leaves over, and what a mistake points at, is an end of the text it was given. So a
mistake has its place in the pattern, and the place moves with the text that stands before it.
-/

namespace Glob

theorem foldl_utf8Size (text : List Char) (before : Nat) :
    text.foldl (fun size c => size + c.utf8Size) before = before + byteSize text := by
  induction text generalizing before with
  | nil => rfl
  | cons c rest ih =>
      rw [byteSize, List.foldl_cons, List.foldl_cons, ih, ih (0 + c.utf8Size)]
      omega

theorem byteSize_append (left right : List Char) :
    byteSize (left ++ right) = byteSize left + byteSize right := by
  rw [byteSize, List.foldl_append, foldl_utf8Size]
  rfl

theorem byteSize_pos {text : List Char} (nonempty : text ≠ []) : 0 < byteSize text := by
  obtain ⟨c, rest, rfl⟩ := List.exists_cons_of_ne_nil nonempty
  have whole := byteSize_append [c] rest
  have first : byteSize [c] = c.utf8Size := Nat.zero_add _
  have positive := c.utf8Size_pos
  rw [List.singleton_append] at whole
  omega

theorem byteSize_toList (text : String) : byteSize text.toList = text.utf8ByteSize := by
  have general (chars : List Char) : byteSize chars = (String.ofList chars).utf8ByteSize := by
    induction chars with
    | nil => rfl
    | cons c rest ih =>
        calc
          byteSize ([c] ++ rest) = c.utf8Size + (String.ofList rest).utf8ByteSize := by
            rw [byteSize_append, ih, byteSize, List.foldl_cons, List.foldl_nil, Nat.zero_add]
          _ = (String.singleton c ++ String.ofList rest).utf8ByteSize := by
            rw [String.utf8ByteSize_append, String.utf8ByteSize_singleton]
          _ = (String.ofList (c :: rest)).utf8ByteSize := by
            congr 1
            rw [← String.toList_inj]
            simp
  rw [general, String.ofList_toList]

theorem Failure.location_append {failure : Failure} {text : List Char} (before : List Char)
    (inside : failure.rest <:+ text) :
    (failure.within (before ++ text)).location =
      (failure.within text).location + byteSize before := by
  obtain ⟨read, rfl⟩ := inside
  simp only [within, byteSize_append]
  omega

namespace Bracket

variable {options : Options} {mark : Char} {text name : List Char} {α : Type}

/-- What is left over, or pointed at as a mistake, is an end of the text. -/
def Ends (text : List Char) : Except Halt (α × List Char) → Prop
  | .ok (_, after) => after <:+ text
  | .error (.failure failure) => failure.rest <:+ text
  | .error .unclosed => True

@[simp] theorem ends_ok {found : α} {after : List Char} :
    Ends text (.ok (found, after)) ↔ after <:+ text :=
  Iff.rfl

@[simp] theorem ends_failure {failure : Failure} :
    Ends text (.error (.failure failure) : Except Halt (α × List Char)) ↔ failure.rest <:+ text :=
  Iff.rfl

@[simp] theorem ends_halt {mistake : Mistake} {rest : List Char} :
    Ends text (halt mistake rest : Except Halt (α × List Char)) ↔ rest <:+ text :=
  Iff.rfl

@[simp] theorem ends_unclosed : Ends text (.error .unclosed : Except Halt (α × List Char)) :=
  trivial

/-- What goes wrong does not depend on what would have been read. -/
theorem Ends.error {β : Type} {reason : Halt} {longer : List Char}
    (ends : Ends text (.error reason : Except Halt (α × List Char))) (inside : text <:+ longer) :
    Ends longer (.error reason : Except Halt (β × List Char)) := by
  cases reason with
  | unclosed => exact ends_unclosed
  | failure failure => exact ends_failure.mpr ((ends_failure.mp ends).trans inside)

theorem suffix_of_splitAtMark {after : List Char}
    (found : splitAtMark? mark text = some (name, after)) : after <:+ text := by
  fun_induction splitAtMark? mark text generalizing name with
  | case1 c d rest closes =>
      cases found
      exact (List.suffix_cons d after).trans (List.suffix_cons c (d :: after))
  | case2 c d rest _ ih =>
      obtain ⟨⟨later, _⟩, found, same⟩ := Option.map_eq_some_iff.mp found
      cases same
      exact (ih found).trans (List.suffix_cons c (d :: rest))
  | case3 => cases found

theorem readBound_ends (escapes : Bool) (text : List Char) :
    Ends text (readBound escapes text) := by
  unfold readBound
  split
  case h_1 => exact ends_unclosed
  case h_2 mark rest =>
    split
    · split
      · exact ends_unclosed
      · next named =>
          have inner := suffix_of_splitAtMark named
          exact (inner.trans (List.suffix_cons mark rest)).trans (List.suffix_cons '[' _)
      · exact ends_halt.mpr List.suffix_rfl
    · exact ends_ok.mpr (List.suffix_cons '[' _)
  case h_3 rest =>
    split
    · split
      · exact ends_halt.mpr List.suffix_rfl
      · next c after => exact (List.suffix_cons c after).trans (List.suffix_cons '\\' _)
    · exact ends_ok.mpr (List.suffix_cons '\\' rest)
  case h_4 c rest _ _ => exact ends_ok.mpr (List.suffix_cons c rest)

theorem readMember_ends (options : Options) (text : List Char) :
    Ends text (readMember options text) := by
  have bound := readBound_ends options.escapes
  unfold readMember
  split
  case h_1 rest =>
    split
    · exact ends_unclosed
    · next name after found =>
        have inner := suffix_of_splitAtMark found
        split
        · exact ends_halt.mpr List.suffix_rfl
        · exact (inner.trans (List.suffix_cons ':' rest)).trans (List.suffix_cons '[' _)
  case h_2 rest =>
    split
    · exact List.suffix_cons '-' rest
    · exact ends_halt.mpr List.suffix_rfl
  case h_3 =>
    have first := bound text
    split
    · next reason failed => exact (failed ▸ first).error List.suffix_rfl
    · next lower rest found =>
        rw [found, ends_ok] at first
        split
        · exact ends_ok.mpr ((List.suffix_cons '-' _).trans first)
        · exact ends_halt.mpr first
    · next lower rest _ found =>
        rw [found, ends_ok] at first
        have second := bound rest
        have inner := (List.suffix_cons '-' rest).trans first
        split
        · next reason failed => exact (failed ▸ second).error inner
        · next upper after found =>
            rw [found, ends_ok] at second
            split
            · exact ends_ok.mpr (second.trans inner)
            · exact ends_halt.mpr List.suffix_rfl
    · next lower rest _ _ found =>
        rw [found, ends_ok] at first
        exact ends_ok.mpr first

theorem readMembers_ends (options : Options) (first : Bool) (text : List Char) :
    Ends text (readMembers options first text) := by
  fun_induction readMembers options first text with
  | case1 => exact ends_unclosed
  | case2 first c rest closes => exact List.suffix_cons c rest
  | case3 first c rest _ reason failed =>
      exact (failed ▸ readMember_ends options (c :: rest)).error List.suffix_rfl
  | case4 first c rest _ members middle found reason failed ih =>
      have inner := readMember_ends options (c :: rest)
      rw [found, ends_ok] at inner
      exact (failed ▸ ih).error inner
  | case5 first c rest _ members middle found later after more ih =>
      have inner := readMember_ends options (c :: rest)
      rw [found, ends_ok] at inner
      rw [more, ends_ok] at ih
      exact ih.trans inner

theorem suffix_of_read {negated : Bool} {members : List CharClass} {after : List Char}
    (found : read options text = .ok (negated, members, after)) : after <:+ text := by
  obtain ⟨inside, least, all⟩ := exists_readMembers_of_read found
  have ends := readMembers_ends options true inside
  rw [all, ends_ok] at ends
  exact ends.trans least

theorem suffix_of_read_failure {failure : Failure}
    (failed : read options text = .error (.failure failure)) : failure.rest <:+ text := by
  obtain ⟨inside, least, mistaken⟩ := exists_readMembers_of_read_failure failed
  have ends := readMembers_ends options true inside
  rw [mistaken, ends_failure] at ends
  exact ends.trans least

end Bracket

namespace Token

variable {options : Options} {inList : Bool} {c : Char} {rest after : List Char} {token : Token}
variable {failure : Failure}

theorem suffix_of_opening {quantifier : Quantifier}
    (found : opening? options c rest = some (quantifier, after)) : after <:+ rest := by
  obtain ⟨-, -, rfl⟩ := opening?_eq_some_iff.mp found
  exact List.suffix_cons '(' after

theorem suffix_of_ofBracket (found : ofBracket options rest = .ok (token, after)) :
    after <:+ rest := by
  cases ofBracket_iff.mp found with
  | empty read => exact Bracket.suffix_of_read read
  | closed read => exact Bracket.suffix_of_read read
  | literal => exact List.suffix_rfl

theorem suffix_of_ofBracket_error (failed : ofBracket options rest = .error failure) :
    failure.rest <:+ '[' :: rest := by
  cases ofBracket_iff.mp failed with
  | refused | unclosed => exact List.suffix_rfl
  | mistaken read => exact (Bracket.suffix_of_read_failure read).trans (List.suffix_cons '[' rest)

theorem suffix_of_ofChar (found : ofChar options c rest = .ok (token, after)) :
    after <:+ rest := by
  cases ofChar_iff.mp found with
  | bracket _ found => exact suffix_of_ofBracket found
  | star | anyChar | separator | literal => exact List.suffix_rfl

theorem suffix_of_ofChar_error (failed : ofChar options c rest = .error failure) :
    failure.rest <:+ c :: rest := by
  cases ofChar_iff.mp failed with
  | bracket mark failed => exact mark ▸ suffix_of_ofBracket_error failed

theorem suffix_of_read (found : read options inList c rest = .ok (token, after)) :
    after <:+ rest := by
  cases read_iff.mp found with
  | divider | closing => exact List.suffix_rfl
  | escaped _ _ next => exact next ▸ List.suffix_cons _ after
  | opening _ _ found => exact suffix_of_opening found
  | char _ _ _ found => exact suffix_of_ofChar found

theorem suffix_of_read_error (failed : read options inList c rest = .error failure) :
    failure.rest <:+ c :: rest := by
  cases read_iff.mp failed with
  | dangling _ _ last => exact last ▸ List.suffix_rfl
  | char _ _ _ failed => exact suffix_of_ofChar_error failed

end Token

namespace Reader

variable {options : Options} {reader next : Reader} {token : Token} {text whole : List Char}
variable {failure : Failure}

def OpenIn (whole : List Char) (reader : Reader) : Prop :=
  ∀ list ∈ reader.lists, list.sigil <:+ whole

/-- What is said of the place where a list begins stays true of all lists that are open if it is
true where a token begins a list. -/
theorem forall_sigil_of_take (holds : List Char → Prop)
    (opened : ∀ list ∈ reader.lists, holds list.sigil)
    (begins : ∀ quantifier, token = .opening quantifier → holds text)
    (taken : reader.take options token text = .ok next) :
    ∀ list ∈ next.lists, holds list.sigil := by
  obtain ⟨lists, current⟩ := reader
  cases token with
  | literal | star | anyChar | separator | bracket | nothing =>
      cases taken
      exact opened
  | opening quantifier =>
      cases taken
      exact List.forall_mem_cons.mpr ⟨begins quantifier rfl, opened⟩
  | divider =>
      cases lists with
      | nil =>
          cases taken
          exact opened
      | cons innermost outer =>
          cases taken
          exact List.forall_mem_cons.mpr (List.forall_mem_cons.mp opened)
  | closing =>
      cases lists with
      | nil =>
          cases taken
          exact opened
      | cons innermost outer =>
          simp only [take] at taken
          split at taken
          · cases taken
          · cases taken
            exact (List.forall_mem_cons.mp opened).2

theorem exists_list_of_take_error (failed : reader.take options token text = .error failure) :
    ∃ list ∈ reader.lists, failure = ⟨.listEmpty, list.sigil⟩ := by
  unfold take at failed
  split at failed
  case h_9 list lists within =>
    split at failed
    · cases failed
      exact ⟨list, within ▸ List.mem_cons_self, rfl⟩
    · cases failed
  all_goals cases failed

theorem exists_list_of_finish_error (failed : reader.finish = .error failure) :
    ∃ list ∈ reader.lists, failure = ⟨.listNotClosed, list.sigil⟩ := by
  unfold finish at failed
  split at failed
  · cases failed
  · next list lists within =>
      cases failed
      exact ⟨list, within ▸ List.mem_cons_self, rfl⟩

theorem suffix_of_run_error (failed : reader.run options text = .error failure)
    (opened : reader.OpenIn whole) (inside : text <:+ whole) : failure.rest <:+ whole := by
  -- What is left to read and where the open lists begin are ends of the whole pattern throughout.
  fun_induction run options reader text with
  | case1 reader =>
      obtain ⟨list, member, rfl⟩ := exists_list_of_finish_error failed
      exact opened list member
  | case2 reader c rest reason found =>
      cases failed
      exact (Token.suffix_of_read_error found).trans inside
  | case3 reader c rest token after found reason taken =>
      cases failed
      obtain ⟨list, member, rfl⟩ := exists_list_of_take_error taken
      exact opened list member
  | case4 reader c rest token after found next taken ih =>
      have left := (Token.suffix_of_read found).trans (List.suffix_cons c rest)
      have starts := forall_sigil_of_take (· <:+ whole) opened (fun _ _ => inside) taken
      exact ih failed starts (left.trans inside)

end Reader

theorem Piece.suffix_of_ofText_error {options : Options} {text : List Char} {failure : Failure}
    (failed : ofText options text = .error failure) : failure.rest <:+ text :=
  Reader.suffix_of_run_error failed (List.forall_mem_nil _) List.suffix_rfl

end Glob
