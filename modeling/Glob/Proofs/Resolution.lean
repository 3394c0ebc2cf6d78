import Glob.FileTree
import Glob.FileTree.Path

/-!
Where paths lead in a file tree by its links alone. Lookups give up after some links; a path leads
somewhere if it does not matter how many there are.
-/

namespace Glob

namespace FileTree

/-- Where steps lead from a location on, however many links are followed. -/
inductive LeadsTo (tree : FileTree) : Location → List String → Location → Prop where
  | done (here : Location) : LeadsTo tree here [] here
  | stay {here there : Location} {step : String} {rest : List String}
      (directory : tree.isDirectoryAt here) (idle : step = "" ∨ step = ".")
      (onward : LeadsTo tree here rest there) : LeadsTo tree here (step :: rest) there
  | up {here there : Location} {rest : List String} (directory : tree.isDirectoryAt here)
      (onward : LeadsTo tree here.dropLast rest there) : LeadsTo tree here (".." :: rest) there
  | down {here there : Location} {step : String} {rest : List String} {node : Node}
      (directory : tree.isDirectoryAt here) (proper : step ∉ ["", ".", ".."])
      (short : step.utf8ByteSize ≤ longestName) (found : tree.node? (here ++ [step]) = some node)
      (solid : ∀ target, node ≠ .link target) (onward : LeadsTo tree (here ++ [step]) rest there) :
      LeadsTo tree here (step :: rest) there
  | link {here there : Location} {step : String} {rest target : List String}
      (directory : tree.isDirectoryAt here) (proper : step ∉ ["", ".", ".."])
      (short : step.utf8ByteSize ≤ longestName)
      (found : tree.node? (here ++ [step]) = some (.link target))
      (onward : LeadsTo tree [] (target ++ rest) there) : LeadsTo tree here (step :: rest) there

variable {tree : FileTree} {here middle there other : Location} {steps rest target : List String}
  {step name : String} {jump : List String → Except PathError Location} {path : Path} {node : Node}

theorem follow_stay (directory : tree.isDirectoryAt here) (idle : step = "" ∨ step = ".") :
    tree.follow jump here (step :: rest) = tree.follow jump here rest := by
  rw [follow]
  simp [directory, idle]

theorem follow_up (directory : tree.isDirectoryAt here) :
    tree.follow jump here (".." :: rest) = tree.follow jump here.dropLast rest := by
  rw [follow]
  simp [directory]

section

variable (directory : tree.isDirectoryAt here) (proper : step ∉ ["", ".", ".."])
  (short : step.utf8ByteSize ≤ longestName)

include directory proper short

theorem follow_down (found : tree.node? (here ++ [step]) = some node)
    (solid : ∀ target, node ≠ .link target) :
    tree.follow jump here (step :: rest) = tree.follow jump (here ++ [step]) rest := by
  simp only [List.mem_cons, List.not_mem_nil, or_false, not_or] at proper
  rw [follow]
  simp only [directory, proper, Nat.not_lt.mpr short, found]
  cases node with
  | link target => exact absurd rfl (solid target)
  | directory | file => rfl

theorem follow_link (found : tree.node? (here ++ [step]) = some (.link target)) :
    tree.follow jump here (step :: rest) = jump (target ++ rest) := by
  simp only [List.mem_cons, List.not_mem_nil, or_false, not_or] at proper
  rw [follow]
  simp only [directory, proper, Nat.not_lt.mpr short, found]
  rfl

end

theorem leadsTo_of_follow
    (honest : ∀ steps there, jump steps = .ok there → tree.LeadsTo [] steps there)
    (followed : tree.follow jump here steps = .ok there) : tree.LeadsTo here steps there := by
  fun_induction follow tree jump here steps with
  | case1 here =>
      cases followed
      exact .done _
  | case2 => cases followed
  | case3 here step rest directory idle ih =>
      exact .stay (by simpa using directory) (by simpa using idle) (ih followed)
  | case4 here rest directory proper ih => exact .up (by simpa using directory) (ih followed)
  | case5 => cases followed
  | case6 => cases followed
  | case7 here step rest directory idle above short target found =>
      exact .link (by simpa using directory) (by simp_all) (by simpa using short) found
        (honest _ there followed)
  | case8 here step rest directory idle above short found ih =>
      exact .down (by simpa using directory) (by simp_all) (by simpa using short) found nofun
        (ih followed)
  | case9 here step rest directory idle above short size found ih =>
      exact .down (by simpa using directory) (by simp_all) (by simpa using short) found nofun
        (ih followed)

theorem leadsTo_of_resolveWithin {links : Nat}
    (resolved : tree.resolveWithin links steps = .ok there) : tree.LeadsTo [] steps there := by
  induction links generalizing steps there with
  | zero =>
      apply leadsTo_of_follow _ resolved
      intro steps there impossible
      cases impossible
  | succ links ih => exact leadsTo_of_follow (fun _ _ => ih) resolved

theorem exists_follow_of_leadsTo (leads : tree.LeadsTo here steps there) :
    ∃ links, tree.follow (tree.resolveWithin links) here steps = .ok there := by
  induction leads with
  | done here => exact ⟨0, rfl⟩
  | stay directory idle _ ih =>
      obtain ⟨links, followed⟩ := ih
      exact ⟨links, (follow_stay directory idle).trans followed⟩
  | up directory _ ih =>
      obtain ⟨links, followed⟩ := ih
      exact ⟨links, (follow_up directory).trans followed⟩
  | down directory proper short found solid _ ih =>
      obtain ⟨links, followed⟩ := ih
      exact ⟨links, (follow_down directory proper short found solid).trans followed⟩
  | link directory proper short found _ ih =>
      obtain ⟨links, followed⟩ := ih
      exact ⟨links + 1, (follow_link directory proper short found).trans followed⟩

theorem leadsTo_iff : tree.LeadsTo here steps there ↔
    ∃ links, tree.follow (tree.resolveWithin links) here steps = .ok there := by
  constructor
  · exact exists_follow_of_leadsTo
  · intro ⟨links, followed⟩
    exact leadsTo_of_follow (fun _ _ => leadsTo_of_resolveWithin) followed

theorem leadsTo_of_resolve (resolved : tree.resolve steps = .ok there) :
    tree.LeadsTo [] steps there := by
  unfold resolve at resolved
  split at resolved
  · cases resolved
  · exact leadsTo_of_resolveWithin resolved

namespace LeadsTo

theorem append (first : tree.LeadsTo here steps middle) (second : tree.LeadsTo middle rest there) :
    tree.LeadsTo here (steps ++ rest) there := by
  induction first with
  | done here => exact second
  | stay directory idle _ ih => exact .stay directory idle (ih second)
  | up directory _ ih => exact .up directory (ih second)
  | down directory proper short found solid _ ih =>
      exact .down directory proper short found solid (ih second)
  | link directory proper short found _ ih =>
      have onward := ih second
      rw [List.append_assoc] at onward
      exact .link directory proper short found onward

theorem split (leads : tree.LeadsTo here (steps ++ rest) there) :
    ∃ middle, tree.LeadsTo here steps middle ∧ tree.LeadsTo middle rest there := by
  generalize whole : steps ++ rest = all at leads
  induction leads generalizing steps with
  | done here =>
      obtain ⟨rfl, rfl⟩ := List.append_eq_nil_iff.mp whole
      exact ⟨here, .done here, .done here⟩
  | stay directory idle onward ih =>
      rcases List.append_eq_cons_iff.mp whole with ⟨rfl, rfl⟩ | ⟨later, rfl, rfl⟩
      · exact ⟨_, .done _, .stay directory idle onward⟩
      · obtain ⟨middle, begins, ends⟩ := ih rfl
        exact ⟨middle, .stay directory idle begins, ends⟩
  | up directory onward ih =>
      rcases List.append_eq_cons_iff.mp whole with ⟨rfl, rfl⟩ | ⟨later, rfl, rfl⟩
      · exact ⟨_, .done _, .up directory onward⟩
      · obtain ⟨middle, begins, ends⟩ := ih rfl
        exact ⟨middle, .up directory begins, ends⟩
  | down directory proper short found solid onward ih =>
      rcases List.append_eq_cons_iff.mp whole with ⟨rfl, rfl⟩ | ⟨later, rfl, rfl⟩
      · exact ⟨_, .done _, .down directory proper short found solid onward⟩
      · obtain ⟨middle, begins, ends⟩ := ih rfl
        exact ⟨middle, .down directory proper short found solid begins, ends⟩
  | link directory proper short found onward ih =>
      rcases List.append_eq_cons_iff.mp whole with ⟨rfl, rfl⟩ | ⟨later, rfl, rfl⟩
      · exact ⟨_, .done _, .link directory proper short found onward⟩
      · obtain ⟨middle, begins, ends⟩ := ih (List.append_assoc ..)
        exact ⟨middle, .link directory proper short found begins, ends⟩

theorem eq_of_nil (leads : tree.LeadsTo here [] there) : here = there := by
  cases leads
  rfl

theorem not_proper_of_idle (idle : step = "" ∨ step = ".") : ¬step ∉ ["", ".", ".."] := by
  rcases idle with rfl | rfl <;> simp

theorem of_idle (leads : tree.LeadsTo here (step :: rest) there) (idle : step = "" ∨ step = ".") :
    tree.LeadsTo here rest there := by
  cases leads with
  | stay _ _ onward => exact onward
  | up => simp at idle
  | down _ proper => exact absurd proper (not_proper_of_idle idle)
  | link _ proper => exact absurd proper (not_proper_of_idle idle)

theorem of_up (leads : tree.LeadsTo here (".." :: rest) there) :
    tree.LeadsTo here.dropLast rest there := by
  cases leads with
  | stay _ idle => simp at idle
  | up _ onward => exact onward
  | down _ proper => simp at proper
  | link _ proper => simp at proper

section

variable (leads : tree.LeadsTo here (step :: rest) there) (proper : step ∉ ["", ".", ".."])

include leads proper

theorem of_down (found : tree.node? (here ++ [step]) = some node)
    (solid : ∀ target, node ≠ .link target) : tree.LeadsTo (here ++ [step]) rest there := by
  cases leads with
  | stay _ idle => exact absurd proper (not_proper_of_idle idle)
  | up => simp at proper
  | down _ _ _ _ _ onward => exact onward
  | link _ _ _ again =>
      rw [found] at again
      exact absurd (Option.some.inj again) (solid _)

theorem of_link (found : tree.node? (here ++ [step]) = some (.link target)) :
    tree.LeadsTo [] (target ++ rest) there := by
  cases leads with
  | stay _ idle => exact absurd proper (not_proper_of_idle idle)
  | up => simp at proper
  | down _ _ _ again solid =>
      rw [found] at again
      exact absurd (Option.some.inj again).symm (solid _)
  | link _ _ _ again onward =>
      rw [found] at again
      cases again
      exact onward

end

theorem eq_of_idle (leads : tree.LeadsTo here [step] there) (idle : step = "" ∨ step = ".") :
    here = there :=
  (leads.of_idle idle).eq_of_nil

theorem unique (first : tree.LeadsTo here steps there) (second : tree.LeadsTo here steps other) :
    there = other := by
  induction first with
  | done here => exact second.eq_of_nil
  | stay directory idle _ ih => exact ih (second.of_idle idle)
  | up directory _ ih => exact ih second.of_up
  | down directory proper short found solid _ ih => exact ih (second.of_down proper found solid)
  | link directory proper short found _ ih => exact ih (second.of_link proper found)

/-- A name that is looked up in a directory leads to the same place below every path to it. -/
theorem join (first : tree.LeadsTo [] path.steps middle)
    (second : tree.LeadsTo middle [name] there) :
    tree.LeadsTo [] (path.join name).steps there := by
  unfold Path.join
  split
  · rename_i ends
    obtain ⟨before, same⟩ : ∃ before, path.steps = before ++ [""] :=
      List.getLast?_eq_some_iff.mp ends
    rw [same] at first
    obtain ⟨place, begins, idle⟩ := first.split
    obtain rfl := idle.eq_of_idle (.inl rfl)
    rw [same, List.dropLast_concat]
    exact begins.append second
  · exact first.append second

theorem of_join (first : tree.LeadsTo [] path.steps middle)
    (whole : tree.LeadsTo [] (path.join name).steps there) : tree.LeadsTo middle [name] there := by
  unfold Path.join at whole
  split at whole
  · rename_i ends
    obtain ⟨before, same⟩ : ∃ before, path.steps = before ++ [""] :=
      List.getLast?_eq_some_iff.mp ends
    rw [same] at first whole
    rw [List.dropLast_concat] at whole
    obtain ⟨place, begins, idle⟩ := first.split
    obtain rfl := idle.eq_of_idle (.inl rfl)
    obtain ⟨other, again, last⟩ := whole.split
    rwa [begins.unique again]
  · obtain ⟨other, again, last⟩ := whole.split
    rwa [first.unique again]

end LeadsTo

end FileTree

end Glob
