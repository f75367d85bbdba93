import SaveTree.Proofs.Key.Steps
import SaveTree.Proofs.Store.Tree

namespace SaveTree
namespace Catalog

open Key

/-!
# Subtrees of a save tree

What a catalog holds after a place was taken out of it with all below it, and
after a file or a directory was moved.  Keys are given by their steps, so that the
answer is the one a disk gives for places.
-/

variable {catalog after : Catalog} {steps others source target : List String} {name key : String}
  {node : Node} {content : Content}

/-- Catalogs that find the same are trees together. -/
theorem IsSaveTree.congr (tree : catalog.IsSaveTree) (same : ∀ key, after.get? key = catalog.get? key) :
    after.IsSaveTree where
  canonical := by
    intro key node stored
    exact tree.canonical (same key ▸ stored)
  rooted := by
    intro key above node stored below
    rw [same]
    exact tree.rooted (same key ▸ stored) below

/-- Nothing is stored under more steps than lead to a file, or to nothing. -/
theorem IsSaveTree.get?_beyond (tree : catalog.IsSaveTree)
    (leaf : catalog.get? (text steps) ≠ some .directory) (nonempty : steps ≠ [])
    (areNames : AreNames others) (beginning : steps <+: others) (proper : steps ≠ others) :
    catalog.get? (text others) = none := by
  apply Option.eq_none_iff_forall_ne_some.mpr
  intro node stored
  have below := (isBelow_text_text_iff (areNames.of_beginning beginning) areNames nonempty).mpr
    ⟨beginning, proper⟩
  exact leaf (tree.rooted stored below)

/-- Whatever is stored, each step on the way to it is stored. -/
theorem IsSaveTree.exists_step (tree : catalog.IsSaveTree)
    (areNames : AreNames (steps ++ name :: others))
    (stored : catalog.get? (text (steps ++ name :: others)) = some node) :
    ∃ top, catalog.get? (text (steps ++ [name])) = some top := by
  by_cases last : others = []
  · rw [last] at stored
    exact ⟨node, stored⟩
  · rw [List.append_cons] at stored areNames
    exact ⟨.directory, tree.rooted stored (isBelow_text_append areNames (by simp) last)⟩

/-- A tree with nothing in its root is empty. -/
theorem IsSaveTree.get?_eq_none (tree : catalog.IsSaveTree)
    (free : ∀ name, AreNames [name] → catalog.get? name = none) (key : String) :
    catalog.get? key = none := by
  apply Option.eq_none_iff_forall_ne_some.mpr
  intro node stored
  rcases (tree.canonical stored).exists_steps with ⟨steps, nonempty, areNames, rfl⟩
  rcases List.exists_cons_of_ne_nil nonempty with ⟨first, rest, rfl⟩
  rw [← List.nil_append (first :: rest)] at stored
  rcases tree.exists_step areNames stored with ⟨top, found⟩
  have isFirst := areNames.of_beginning (List.prefix_append [first] rest)
  rw [List.nil_append, text_singleton, free first isFirst] at found
  cases found

/-- A directory is empty if nothing is stored right below it. -/
theorem IsSaveTree.below_eq_nil_iff_children (tree : catalog.IsSaveTree) (areNames : AreNames steps)
    (nonempty : steps ≠ []) :
    catalog.below (text steps) = [] ↔
      ∀ name, AreNames [name] → catalog.get? (text (steps ++ [name])) = none := by
  rw [below_eq_nil_iff]
  constructor
  · intro free name isName
    apply Option.eq_none_iff_forall_ne_some.mpr
    intro node stored
    have below := isBelow_text_append (areNames_append_iff.mpr ⟨areNames, isName⟩) nonempty
      (List.cons_ne_nil name [])
    rw [free _ node stored] at below
    cases below
  · intro free key node stored
    apply Bool.eq_false_iff.mpr
    intro below
    rcases exists_steps_of_isBelow areNames nonempty (tree.canonical stored) below with
      ⟨rest, some, areLower, rfl⟩
    rcases List.exists_cons_of_ne_nil some with ⟨first, rest, rfl⟩
    have isFirst : AreNames [first] := by
      intro step member
      exact areLower step (List.mem_append_right _ (List.mem_singleton.mp member ▸ List.mem_cons_self))
    rcases tree.exists_step areLower stored with ⟨top, found⟩
    rw [free first isFirst] at found
    cases found

/-! ## A place that is taken out -/

/-- Without a key and all below it. -/
def uproot (catalog : Catalog) (key : String) : Catalog :=
  catalog.eraseAll ((catalog.below key).map Entry.path ++ [key])

theorem get?_uproot (areSteps : AreNames steps) (nonempty : steps ≠ []) (areNames : AreNames others) :
    (catalog.uproot (text steps)).get? (text others) =
      if steps <+: others then none else catalog.get? (text others) := by
  rw [uproot, get?_eraseAll]
  by_cases whole : others = steps
  · rw [whole, if_pos (List.mem_append_right _ (List.mem_singleton_self _)),
      if_pos (List.prefix_refl steps)]
  have below_iff := isBelow_text_text_iff areSteps areNames nonempty
  by_cases inside : steps <+: others
  · rw [if_pos inside]
    split
    · rfl
    · rename_i kept
      apply Option.eq_none_iff_forall_ne_some.mpr
      intro node stored
      apply kept
      apply List.mem_append_left
      have below := below_iff.mpr ⟨inside, Ne.symm whole⟩
      exact List.mem_map.mpr ⟨⟨text others, node⟩, mem_below_iff.mpr ⟨stored, below⟩, rfl⟩
  · rw [if_neg inside, if_neg]
    intro gone
    rcases List.mem_append.mp gone with listed | top
    · rcases List.mem_map.mp listed with ⟨entry, member, path_eq⟩
      have below := (mem_below_iff.mp member).2
      rw [path_eq] at below
      exact inside (below_iff.mp below).1
    · exact whole (text_injective areNames areSteps (List.mem_singleton.mp top))

theorem IsSaveTree.uproot (tree : catalog.IsSaveTree) (key : String) :
    (catalog.uproot key).IsSaveTree := by
  apply tree.eraseAll
  intro above gone other found stored below
  have underKey : isBelow key other = true := by
    rcases List.mem_append.mp gone with inside | top
    · rcases List.mem_map.mp inside with ⟨entry, member, rfl⟩
      exact isBelow_trans (mem_below_iff.mp member).2 below
    · exact List.mem_singleton.mp top ▸ below
  apply List.mem_append_left
  exact List.mem_map.mpr ⟨⟨other, found⟩, mem_below_iff.mpr ⟨stored, underKey⟩, rfl⟩

/-! ## A place that is moved -/

/-- What was stored from the source on is stored from the target on. -/
def Moved (source target : List String) (before after : Catalog) : Prop :=
  ∀ others, AreNames others → after.get? (text others) =
    if target <+: others then before.get? (text (source ++ others.drop target.length))
    else if source <+: others then none else before.get? (text others)

section Moving

variable (tree : catalog.IsSaveTree) (areSource : AreNames source) (nonemptySource : source ≠ [])
  (areTarget : AreNames target) (nonemptyTarget : target ≠ [])

include tree areSource nonemptySource areTarget nonemptyTarget

/-- A file that takes the place of no directory. -/
theorem moved_file (file : catalog.get? (text source) = some (.file content))
    (free : catalog.get? (text target) ≠ some .directory) (different : source ≠ target) :
    Moved source target catalog
      (Table.erase (catalog.put ⟨text target, .file content⟩) (text source)) := by
  have leaf : catalog.get? (text source) ≠ some .directory := by
    rw [file]
    nofun
  have differentText : text target ≠ text source :=
    fun same => different (text_injective areTarget areSource same).symm
  intro others areNames
  rw [Table.get?_erase]
  by_cases atTarget : others = target
  · rw [atTarget, if_neg differentText, get?_put, if_pos rfl, if_pos (List.prefix_refl target),
      List.drop_length, List.append_nil, file]
  by_cases atSource : others = source
  · have outside : ¬ target <+: others := by
      intro inside
      have missing := tree.get?_beyond free nonemptyTarget areSource (atSource ▸ inside)
        (Ne.symm different)
      rw [file] at missing
      cases missing
    rw [if_neg outside, atSource, if_pos rfl, if_pos (List.prefix_refl source)]
  rw [if_neg (fun same => atSource (text_injective areNames areSource same)), get?_put,
    if_neg (fun same => atTarget (text_injective areNames areTarget same))]
  by_cases belowTarget : target <+: others
  · rw [if_pos belowTarget,
      tree.get?_beyond free nonemptyTarget areNames belowTarget (Ne.symm atTarget)]
    rcases belowTarget with ⟨rest, rfl⟩
    have some : rest ≠ [] := by
      rintro rfl
      exact atTarget (List.append_nil target)
    rw [List.drop_left]
    refine (tree.get?_beyond leaf nonemptySource ?_ (List.prefix_append source rest) ?_).symm
    · exact areNames_append_iff.mpr ⟨areSource, (areNames_append_iff.mp areNames).2⟩
    · exact fun whole => some (List.append_right_eq_self.mp whole.symm)
  · rw [if_neg belowTarget]
    split
    · rename_i belowSource
      exact tree.get?_beyond leaf nonemptySource areNames belowSource (Ne.symm atSource)
    · rfl

omit areTarget in
/-- What a copy of a directory holds is what the directory holds. -/
theorem get?_copied_append {rest : List String} (areNames : AreNames (target ++ rest))
    (directory : catalog.get? (text source) = some .directory)
    (free : catalog.below (text target) = []) :
    (catalog.putAll (copied (text source) (text target) (catalog.below (text source)))).get?
      (text (target ++ rest)) = catalog.get? (text (source ++ rest)) := by
  rcases areNames_append_iff.mp areNames with ⟨areTarget, areRest⟩
  have areLower : AreNames (source ++ rest) := areNames_append_iff.mpr ⟨areSource, areRest⟩
  by_cases whole : rest = []
  · rw [whole, List.append_nil, List.append_nil, get?_copied_target, directory]
  cases stored : catalog.get? (text (source ++ rest)) with
  | some node =>
    rw [← rebase_text nonemptySource nonemptyTarget rest]
    exact get?_copied_rebase stored (isBelow_text_append areLower nonemptySource whole)
  | none =>
    have below := isBelow_text_append areNames nonemptyTarget whole
    apply Option.eq_none_iff_forall_ne_some.mpr
    intro node found
    rcases get?_copied_cases free found with ⟨same, _⟩ | ⟨old, inside, before, same⟩ | ⟨_, outside, _⟩
    · exact ne_of_isBelow below same
    · rcases exists_steps_of_isBelow areSource nonemptySource (tree.canonical before) inside with
        ⟨oldRest, _, areOld, rfl⟩
      rw [rebase_text nonemptySource nonemptyTarget] at same
      have areOldTarget : AreNames (target ++ oldRest) :=
        areNames_append_iff.mpr ⟨areTarget, (areNames_append_iff.mp areOld).2⟩
      cases List.append_cancel_left (text_injective areNames areOldTarget same)
      rw [stored] at before
      cases before
    · rw [outside] at below
      cases below

/-- A directory that is put at a free place and then taken out at the old one. -/
theorem moved_directory (directory : catalog.get? (text source) = some .directory)
    (free : catalog.below (text target) = []) (notBelow : ¬ source <+: target) :
    Moved source target catalog
      ((catalog.putAll (copied (text source) (text target) (catalog.below (text source)))).eraseAll
        ((catalog.below (text source)).map Entry.path ++ [text source])) := by
  intro others areNames
  have below_iff := isBelow_text_text_iff areSource areNames nonemptySource
  have gone_iff : text others ∈ (catalog.below (text source)).map Entry.path ++ [text source] ↔
      source <+: others ∧ ∃ node, catalog.get? (text others) = some node := by
    rw [List.mem_append, List.mem_map, List.mem_singleton]
    constructor
    · rintro (⟨entry, member, path_eq⟩ | same)
      · rcases mem_below_iff.mp member with ⟨stored, below⟩
        rw [path_eq] at stored below
        exact ⟨(below_iff.mp below).1, entry.node, stored⟩
      · rw [text_injective areNames areSource same]
        exact ⟨List.prefix_refl source, .directory, directory⟩
    · rintro ⟨inside, node, stored⟩
      by_cases whole : source = others
      · exact .inr (congrArg text whole.symm)
      · exact .inl ⟨⟨text others, node⟩, mem_below_iff.mpr ⟨stored, below_iff.mpr ⟨inside, whole⟩⟩, rfl⟩
  rw [get?_eraseAll]
  by_cases belowTarget : target <+: others
  · have stays : text others ∉ (catalog.below (text source)).map Entry.path ++ [text source] := by
      intro gone
      rcases List.prefix_or_prefix_of_prefix (gone_iff.mp gone).1 belowTarget with inside | inside
      · exact notBelow inside
      · -- the source itself would stand below the target
        have below := (isBelow_text_text_iff areTarget areSource nonemptyTarget).mpr
          ⟨inside, fun same => notBelow (same ▸ List.prefix_refl source)⟩
        rw [below_eq_nil_iff.mp free _ _ directory] at below
        cases below
    rw [if_neg stays, if_pos belowTarget]
    rcases belowTarget with ⟨rest, rfl⟩
    rw [List.drop_left]
    exact get?_copied_append tree areSource nonemptySource nonemptyTarget areNames directory free
  · have outside : isBelow (text target) (text others) = false := by
      apply Bool.eq_false_iff.mpr
      intro below
      exact belowTarget ((isBelow_text_text_iff areTarget areNames nonemptyTarget).mp below).1
    have different : text others ≠ text target := by
      intro same
      exact belowTarget (text_injective areNames areTarget same ▸ List.prefix_refl others)
    rw [if_neg belowTarget, get?_copied_outside different outside]
    by_cases inside : source <+: others
    · rw [if_pos inside]
      cases stored : catalog.get? (text others) with
      | none => rw [ite_self]
      | some node => rw [if_pos (gone_iff.mpr ⟨inside, node, stored⟩)]
    · rw [if_neg inside, if_neg (fun gone => inside (gone_iff.mp gone).1)]

end Moving

end Catalog
end SaveTree
