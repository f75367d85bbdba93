import SaveTree.Proofs.Key.Steps
import SaveTree.Proofs.Store.Memory
import SaveTree.Proofs.Store.Subtree
import SaveTree.Virtual.Listing

namespace SaveTree
namespace Virtual

open Catalog Key

/-!
# What a listing shows

In a save tree every path below a directory goes through a stored child of it, and
all paths through one child show it with the same kind.  So the children of a
directory are what is stored right below it, in the strict order of names.
-/

variable {catalog : Catalog} {entry : Entry} {children shown : List (String × Kind)}
  {child : String × Kind} {steps rest : List String} {name : String} {kind : Kind} {node : Node}

/-! ## Children that are collected -/

/-- In the strict order of names. -/
def Ordered (children : List (String × Kind)) : Prop :=
  children.Pairwise fun first second => first.1 < second.1

/-- A name has one kind only. -/
def Consistent (children : List (String × Kind)) : Prop :=
  ∀ first ∈ children, ∀ second ∈ children, first.1 = second.1 → first.2 = second.2

theorem name_of_mem_addChild (member : child ∈ addChild name kind children) :
    child.1 = name ∨ ∃ old ∈ children, child.1 = old.1 := by
  induction children with
  | nil => exact .inl (congrArg Prod.fst (List.mem_singleton.mp member))
  | cons head rest ih =>
    rcases head with ⟨other, old⟩
    rw [addChild] at member
    split at member
    · rcases List.mem_cons.mp member with first | behind
      · exact .inr ⟨(other, old), List.mem_cons_self, by rw [first]⟩
      · exact .inr ⟨child, .tail _ behind, rfl⟩
    · split at member
      · rcases List.mem_cons.mp member with first | behind
        · exact .inl (congrArg Prod.fst first)
        · exact .inr ⟨child, behind, rfl⟩
      · rcases List.mem_cons.mp member with first | behind
        · exact .inr ⟨(other, old), List.mem_cons_self, congrArg Prod.fst first⟩
        · rcases ih behind with new | ⟨known, inside, same⟩
          · exact .inl new
          · exact .inr ⟨known, .tail _ inside, same⟩

theorem ordered_addChild (ordered : Ordered children) : Ordered (addChild name kind children) := by
  induction children with
  | nil => exact List.pairwise_singleton _ _
  | cons head rest ih =>
    rcases head with ⟨other, old⟩
    rcases List.pairwise_cons.mp ordered with ⟨first, behind⟩
    rw [addChild]
    split
    · exact List.pairwise_cons.mpr ⟨first, behind⟩
    · rename_i different
      split
      · rename_i smaller
        refine List.pairwise_cons.mpr ⟨?_, ordered⟩
        intro child member
        rcases List.mem_cons.mp member with same | later
        · rw [same]
          exact smaller
        · exact String.lt_trans smaller (first child later)
      · rename_i notSmaller
        refine List.pairwise_cons.mpr ⟨?_, ih behind⟩
        intro child member
        rcases name_of_mem_addChild member with new | ⟨known, inside, same⟩
        · rw [new]
          exact String.not_le.mp fun reached =>
            different (String.le_antisymm (String.not_lt.mp notSmaller) reached).symm
        · rw [same]
          exact first known inside

/-- A child whose name has the same kind wherever it is found. -/
theorem mem_addChild_iff (known : ∀ old ∈ children, old.1 = name → old.2 = kind) :
    child ∈ addChild name kind children ↔ child = (name, kind) ∨ child ∈ children := by
  induction children with
  | nil => simp [addChild]
  | cons head rest ih =>
    rcases head with ⟨other, old⟩
    rw [addChild]
    split
    · rename_i same
      subst same
      have kind_eq : old = kind := known (name, old) List.mem_cons_self rfl
      subst kind_eq
      cases old <;> simp
    · split
      · simp
      · rw [List.mem_cons, List.mem_cons, ih fun child member => known child (.tail _ member)]
        exact or_left_comm

theorem ordered_foldl_addChild (ordered : Ordered children) :
    Ordered (shown.foldl (fun found child => addChild child.1 child.2 found) children) := by
  induction shown generalizing children with
  | nil => exact ordered
  | cons child rest ih => exact ih (ordered_addChild ordered)

theorem mem_foldl_addChild_iff (consistent : Consistent (children ++ shown)) :
    child ∈ shown.foldl (fun found child => addChild child.1 child.2 found) children ↔
      child ∈ children ∨ child ∈ shown := by
  induction shown generalizing children with
  | nil => simp
  | cons head rest ih =>
    have known : ∀ old ∈ children, old.1 = head.1 → old.2 = head.2 := fun old member =>
      consistent old (List.mem_append_left _ member) head
        (List.mem_append_right _ List.mem_cons_self)
    have inside : ∀ child, child ∈ addChild head.1 head.2 children ++ rest →
        child ∈ children ++ head :: rest := by
      intro child member
      rcases List.mem_append.mp member with added | behind
      · rcases (mem_addChild_iff known).mp added with new | old
        · exact List.mem_append_right _ (new ▸ List.mem_cons_self)
        · exact List.mem_append_left _ old
      · exact List.mem_append_right _ (.tail _ behind)
    have later : Consistent (addChild head.1 head.2 children ++ rest) := fun first member second other =>
      consistent first (inside first member) second (inside second other)
    rw [List.foldl_cons, ih later, mem_addChild_iff known, List.mem_cons]
    exact or_assoc.trans or_left_comm

/-! ## The children of a directory -/

/-- A text of steps goes on behind the stem of every beginning. -/
theorem toList_text_stem (areNames : AreNames steps) (nonempty : rest ≠ []) :
    (text (steps ++ rest)).toList = stem (text steps) ++ (text rest).toList := by
  have empty_iff := text_eq_empty_iff areNames.ne_empty
  by_cases top : steps = []
  · rw [stem, if_pos (empty_iff.mpr top), top, List.nil_append, List.nil_append]
  · rw [stem, if_neg (fun empty => top (empty_iff.mp empty)), toList_text_append top nonempty,
      List.append_assoc]
    rfl

theorem ofList_stem_append (areNames : AreNames steps) :
    String.ofList (stem (text steps) ++ name.toList) = text (steps ++ [name]) := by
  apply String.toList_inj.mp
  rw [String.toList_ofList, toList_text_stem areNames (List.cons_ne_nil name []), text_singleton]

theorem firstName_eq (noSlash : '/' ∉ name.toList) : firstName name.toList = (name, false) := by
  have clean := decide_ne_of_not_mem noSlash
  rw [firstName, List.takeWhile_eq_self_iff.mpr clean, String.ofList_toList]
  simpa using noSlash

theorem firstName_append (noSlash : '/' ∉ name.toList) (rest : List Char) :
    firstName (name.toList ++ '/' :: rest) = (name, true) := by
  have clean := decide_ne_of_not_mem noSlash
  rw [firstName, List.takeWhile_append_of_pos clean, List.takeWhile_cons_of_neg (by simp),
    List.append_nil, String.ofList_toList]
  simp

theorem firstName_text (areNames : AreNames (name :: rest)) :
    firstName (text (name :: rest)).toList = (name, decide (rest ≠ [])) := by
  have noSlash := (areNames name List.mem_cons_self).no_slash
  by_cases alone : rest = []
  · subst alone
    rw [text_singleton, firstName_eq noSlash]
    simp
  · have split : (text (name :: rest)).toList = name.toList ++ '/' :: (text rest).toList := by
      have parts := toList_text_append (List.cons_ne_nil name []) alone
      rwa [text_singleton] at parts
    rw [split, firstName_append noSlash]
    simp [alone]

/-- The child that a path below a directory shows. -/
theorem child?_text (areNames : AreNames (steps ++ name :: rest)) :
    child? (stem (text steps)) ⟨text (steps ++ name :: rest), node⟩ =
      some (name, if rest = [] then node.kind else .directory) := by
  rcases areNames_append_iff.mp areNames with ⟨areSteps, areRest⟩
  have path_eq := toList_text_stem areSteps (List.cons_ne_nil name rest)
  have inside : (stem (text steps)).isPrefixOf (text (steps ++ name :: rest)).toList = true := by
    rw [path_eq, List.isPrefixOf_iff_prefix]
    exact List.prefix_append _ _
  rw [child?, if_pos inside, path_eq, List.drop_left]
  cases chars : (text (name :: rest)).toList with
  | nil =>
    have empty := String.toList_inj.mp (chars.trans String.toList_empty.symm)
    rw [text_eq_empty_iff areRest.ne_empty] at empty
    cases empty
  | cons first others =>
    dsimp only
    rw [← chars, firstName_text areRest]
    by_cases alone : rest = [] <;> simp [alone]

/-- An entry that shows a child lies below the directory. -/
theorem exists_of_child? (areNames : AreNames steps) (canonical : Canonical entry.path)
    (shown : child? (stem (text steps)) entry = some child) :
    ∃ name rest, AreNames (steps ++ name :: rest) ∧ entry.path = text (steps ++ name :: rest) := by
  apply (isInside_text_iff areNames canonical).mp
  by_cases top : text steps = ""
  · exact .inl top
  · rw [child?] at shown
    split at shown
    · rename_i inside
      rw [stem, if_neg top] at inside
      exact .inr inside
    · cases shown

/-- What is shown of a directory of a save tree is what is stored right below it. -/
theorem mem_shown_iff (tree : catalog.IsSaveTree) (areNames : AreNames steps) :
    (name, kind) ∈ catalog.entries.filterMap (child? (stem (text steps))) ↔
      AreNames [name] ∧ (catalog.get? (text (steps ++ [name]))).map Node.kind = some kind := by
  rw [List.mem_filterMap]
  constructor
  · rintro ⟨entry, member, shown⟩
    have stored := mem_entries_iff.mp member
    rcases exists_of_child? areNames (tree.canonical stored) shown with ⟨first, rest, areLower, path_eq⟩
    have entry_eq : entry = ⟨text (steps ++ first :: rest), entry.node⟩ := by rw [← path_eq]
    rw [entry_eq, child?_text areLower] at shown
    rw [path_eq] at stored
    rcases Prod.mk.inj (Option.some.inj shown) with ⟨rfl, rfl⟩
    have split : steps ++ first :: rest = (steps ++ [first]) ++ rest := List.append_cons steps first rest
    rw [split] at areLower stored
    rcases areNames_append_iff.mp areLower with ⟨areUpper, _⟩
    refine ⟨(areNames_append_iff.mp areUpper).2, ?_⟩
    by_cases alone : rest = []
    · rw [if_pos alone]
      rw [alone, List.append_nil] at stored
      rw [stored]
      rfl
    · rw [if_neg alone, tree.rooted stored (isBelow_text_append areLower (by simp) alone)]
      rfl
  · rintro ⟨isName, stored⟩
    rcases Option.map_eq_some_iff.mp stored with ⟨node, found, rfl⟩
    refine ⟨⟨text (steps ++ [name]), node⟩, mem_entries_iff.mpr found, ?_⟩
    exact child?_text (areNames_append_iff.mpr ⟨areNames, isName⟩)

theorem consistent_shown (tree : catalog.IsSaveTree) (areNames : AreNames steps) :
    Consistent (catalog.entries.filterMap (child? (stem (text steps)))) := by
  rintro ⟨name, kind⟩ member ⟨other, otherKind⟩ memberOther same
  cases same
  have first := ((mem_shown_iff tree areNames).mp member).2
  have second := ((mem_shown_iff tree areNames).mp memberOther).2
  exact Option.some.inj (first.symm.trans second)

theorem ordered_childrenBelow (stem : List Char) (entries : List Entry) :
    Ordered (childrenBelow stem entries) :=
  ordered_foldl_addChild List.Pairwise.nil

/-- The children of a directory of a save tree are what is stored right below it. -/
theorem mem_childrenBelow_iff (tree : catalog.IsSaveTree) (areNames : AreNames steps) :
    (name, kind) ∈ childrenBelow (stem (text steps)) catalog.entries ↔
      AreNames [name] ∧ (catalog.get? (text (steps ++ [name]))).map Node.kind = some kind := by
  have consistent := consistent_shown tree areNames
  rw [← List.nil_append (catalog.entries.filterMap _)] at consistent
  rw [childrenBelow, mem_foldl_addChild_iff consistent, ← mem_shown_iff tree areNames]
  simp

/-! ## The longest path -/

theorem le_foldl_max {lengths : List Nat} {start length : Nat}
    (inside : length ≤ start ∨ length ∈ lengths) : length ≤ lengths.foldl max start := by
  induction lengths generalizing start with
  | nil => exact inside.resolve_right (List.not_mem_nil)
  | cons first rest ih =>
    apply ih
    rcases inside with small | member
    · exact .inl (Nat.le_trans small (Nat.le_max_left _ _))
    · rcases List.mem_cons.mp member with same | later
      · exact .inl (same ▸ Nat.le_max_right _ _)
      · exact .inr later

theorem length_le_longest_of_mem {entries : List Entry} (member : entry ∈ entries) :
    entry.path.length ≤ longest entries := by
  apply le_foldl_max
  exact .inr (List.mem_map_of_mem member)

theorem length_le_longest {key : String} (stored : catalog.get? key = some node) :
    key.length ≤ longest catalog.entries := by
  have member : ⟨key, node⟩ ∈ catalog.entries := mem_entries_iff.mpr stored
  exact length_le_longest_of_mem member

/-! ## Maps that may give nothing -/

theorem mapM_eq_some_map {α β : Type} {items : List α} {f : α → Option β} {g : α → β}
    (each : ∀ item ∈ items, f item = some (g item)) : items.mapM f = some (items.map g) := by
  induction items with
  | nil => rfl
  | cons item rest ih =>
    rw [List.mapM_cons, each item List.mem_cons_self,
      ih fun other member => each other (List.mem_cons_of_mem _ member)]
    rfl

theorem mapM_eq_none {α β : Type} {items : List α} {f : α → Option β} {item : α}
    (member : item ∈ items) (fails : f item = none) : items.mapM f = none := by
  induction items with
  | nil => cases member
  | cons first rest ih =>
    rw [List.mapM_cons]
    rcases List.mem_cons.mp member with rfl | later
    · rw [fails]
      rfl
    · cases f first with
      | none => rfl
      | some found =>
        rw [ih later]
        rfl

theorem map_eq_map_of_mapM {α β γ : Type} {items : List α} {found : List β} {f : α → Option β}
    {g : β → γ} {h : α → γ} (all : items.mapM f = some found)
    (each : ∀ item other, f item = some other → g other = h item) : found.map g = items.map h := by
  induction items generalizing found with
  | nil =>
    cases all
    rfl
  | cons first rest ih =>
    rw [List.mapM_cons] at all
    rcases Option.bind_eq_some_iff.mp all with ⟨other, found_eq, more⟩
    rcases Option.bind_eq_some_iff.mp more with ⟨others, rest_eq, last⟩
    cases last
    rw [List.map_cons, List.map_cons, each _ _ found_eq, ih rest_eq]

/-! ## The levels of a listing -/

/-- The path of the child with the given name. -/
def childPath (base name : String) : String :=
  String.ofList (stem base ++ name.toList)

theorem childPath_text (areNames : AreNames steps) : childPath (text steps) name =
    text (steps ++ [name]) :=
  ofList_stem_append areNames

variable {entries : List Entry} {recursive : Bool} {levels : Nat} {base : String}

/-- One level of a listing, if the child directories that are listed in turn come to an end. -/
theorem listLevels_succ (below : String → List Listed)
    (ends : recursive = true → ∀ name, (name, .directory) ∈ childrenBelow (stem base) entries →
      listLevels entries recursive levels (childPath base name) =
        some (below (childPath base name))) :
    listLevels entries recursive (levels + 1) base =
      some ((childrenBelow (stem base) entries).map fun child =>
        .mk (childPath base child.1) child.1 child.2
          (if recursive ∧ child.2 = .directory then some (below (childPath base child.1))
          else none)) := by
  rw [listLevels]
  apply mapM_eq_some_map
  rintro ⟨name, kind⟩ member
  dsimp only
  by_cases nested : recursive = true ∧ kind = .directory
  · rw [if_pos nested, if_pos nested, ← childPath, ends nested.1 name (nested.2 ▸ member)]
    rfl
  · rw [if_neg nested, if_neg nested]
    rfl

/-- The same if it is known what the child directories show. -/
theorem exists_listLevels_succ (shows : String → List Listed → Prop)
    (ends : recursive = true → ∀ name, (name, .directory) ∈ childrenBelow (stem base) entries →
      ∃ nodes, listLevels entries recursive levels (childPath base name) = some nodes ∧
        shows (childPath base name) nodes) :
    ∃ below : String → List Listed,
      listLevels entries recursive (levels + 1) base =
        some ((childrenBelow (stem base) entries).map fun child =>
          .mk (childPath base child.1) child.1 child.2
            (if recursive ∧ child.2 = .directory then some (below (childPath base child.1))
            else none)) ∧
      (recursive = true → ∀ name, (name, .directory) ∈ childrenBelow (stem base) entries →
        shows (childPath base name) (below (childPath base name))) := by
  let below (path : String) := (listLevels entries recursive levels path).getD []
  have found {path : String} {nodes : List Listed}
      (lists : listLevels entries recursive levels path = some nodes) : below path = nodes := by
    dsimp only [below]
    rw [lists]
    rfl
  refine ⟨below, listLevels_succ below fun whole name child => ?_, fun whole name child => ?_⟩
  · rcases ends whole name child with ⟨nodes, lists, _⟩
    rw [found lists, lists]
  · rcases ends whole name child with ⟨nodes, lists, shown⟩
    rw [found lists]
    exact shown

/-- A file is listed with nothing in it. -/
theorem listing_of_file {content : Content} {key : String} (tree : catalog.IsSaveTree)
    (stored : catalog.get? key = some (.file content)) (recursive : Bool) :
    listing key catalog.entries recursive = some [] := by
  rcases (tree.canonical stored).exists_steps with ⟨steps, nonempty, areNames, rfl⟩
  have leaf : catalog.get? (text steps) ≠ some .directory := by simp [stored]
  have none : childrenBelow (stem (text steps)) catalog.entries = [] := by
    apply List.eq_nil_iff_forall_not_mem.mpr
    rintro ⟨name, kind⟩ member
    rcases (mem_childrenBelow_iff tree areNames).mp member with ⟨isName, shown⟩
    have areLower := areNames_append_iff.mpr ⟨areNames, isName⟩
    rw [tree.get?_beyond leaf nonempty areLower (List.prefix_append steps [name]) (by simp)] at shown
    cases shown
  rw [listing, listLevels, none]
  rfl

theorem attempt_listingAt (catalog : Catalog) (key : String) (recursive : Bool) :
    Program.attempt Store.memory (listingAt key recursive) catalog =
      ((listing key catalog.entries recursive).elim (.error .endless) .ok, catalog) := by
  rw [listingAt, Program.attempt_bind_of_ok (Store.attempt_list catalog)]
  cases listing key catalog.entries recursive with
  | none => rfl
  | some nodes => rfl

end Virtual
end SaveTree
