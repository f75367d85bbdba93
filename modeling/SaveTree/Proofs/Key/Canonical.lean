import Mathlib.Data.List.TakeWhile
import SaveTree.Key
import SaveTree.Proofs.Path.Names

namespace SaveTree
namespace Key

open Path

/-!
# Canonical keys

A canonical key is the text of some names.  `require` admits a path exactly with
such a key, whatever the path looks like.

A canonical key is its list of names: what lies above it are the proper
beginnings of that list, its parent has one name less, and its chain are all its
beginnings.  So facts about places in the tree can be stated with texts and
proved with lists of names.
-/

/-- The text of names. -/
def ofNames (names : List (List Char)) : String :=
  String.ofList (['/'].intercalate names)

/-- The one spelling of a place below the root: names between slashes. -/
structure Canonical (key : String) : Prop where
  nonempty : key ≠ ""
  names : ∀ segment ∈ key.toList.splitOn '/', IsName segment

@[simp]
theorem toList_ofNames (names : List (List Char)) :
    (ofNames names).toList = ['/'].intercalate names :=
  String.toList_ofList

@[simp]
theorem ofNames_nil : ofNames [] = "" :=
  rfl

theorem splitOn_ofNames {names : List (List Char)} (nonempty : names ≠ [])
    (noSlash : ∀ name ∈ names, '/' ∉ name) : (ofNames names).toList.splitOn '/' = names := by
  rw [toList_ofNames, List.splitOn_intercalate '/' noSlash nonempty]

theorem ofNames_eq_empty_iff {names : List (List Char)} (nonempty : ∀ name ∈ names, name ≠ []) :
    ofNames names = "" ↔ names = [] := by
  rw [← intercalate_eq_nil_iff nonempty, ← toList_ofNames, String.toList_eq_nil_iff]

theorem canonical_ofNames {names : List (List Char)} (nonempty : names ≠ [])
    (areNames : ∀ name ∈ names, IsName name) : Canonical (ofNames names) where
  nonempty := by
    intro empty
    exact nonempty ((ofNames_eq_empty_iff fun name member => (areNames name member).nonempty).mp empty)
  names := by
    rw [splitOn_ofNames nonempty fun name member => (areNames name member).no_slash]
    exact areNames

/-- A canonical key is the text of its names. -/
theorem Canonical.exists_names {key : String} (canonical : Canonical key) :
    ∃ names, names ≠ [] ∧ (∀ name ∈ names, IsName name) ∧ key = ofNames names := by
  refine ⟨key.toList.splitOn '/', List.splitOn_ne_nil '/' key.toList, canonical.names, ?_⟩
  rw [ofNames, List.intercalate_splitOn, String.ofList_toList]

/-! ## Paths and their keys -/

theorem dropTrailing_eq_self {text : List Char} (last : text.getLast? ≠ some '/') :
    dropTrailing text = text := by
  rw [dropTrailing]
  have clean : text.reverse.dropWhile (· = '/') = text.reverse := by
    rw [List.getLast?_eq_head?_reverse] at last
    cases backwards : text.reverse with
    | nil => rfl
    | cons c rest =>
      rw [backwards, List.head?_cons] at last
      apply List.dropWhile_cons_of_neg
      intro slash
      exact last (congrArg some (of_decide_eq_true slash))
  rw [clean, List.reverse_reverse]

/-- Names have no slash at either end of their text. -/
theorem dropAround_intercalate {names : List (List Char)} (nonempty : ∀ name ∈ names, name ≠ [])
    (noSlash : ∀ name ∈ names, '/' ∉ name) :
    dropAround (['/'].intercalate names) = ['/'].intercalate names := by
  have first : (['/'].intercalate names).dropWhile (· = '/') = ['/'].intercalate names := by
    cases names with
    | nil => rfl
    | cons name rest =>
      cases name with
      | nil => exact absurd rfl (nonempty [] List.mem_cons_self)
      | cons c name =>
        rw [List.intercalate_cons_cons_left]
        apply List.dropWhile_cons_of_neg
        intro slash
        have equal : c = '/' := of_decide_eq_true slash
        exact noSlash _ List.mem_cons_self (equal ▸ List.mem_cons_self)
  have last : (['/'].intercalate names).getLast? ≠ some '/' := by
    rcases List.eq_nil_or_concat names with empty | ⟨initial, name, rfl⟩
    · rw [empty]
      exact nofun
    · have final : name ∈ initial.concat name := by simp
      rw [List.concat_eq_append, getLast?_intercalate_concat initial (nonempty name final)]
      intro slash
      exact noSlash name final (List.mem_of_getLast? slash)
  rw [dropAround, first, dropTrailing_eq_self last]

/-- The key of a path is the text of the names that the path leaves. -/
theorem ofPath_eq (path : String) : ofPath path = ofNames (namesOf path.toList) := by
  have nonempty : ∀ name ∈ namesOf path.toList, name ≠ [] :=
    fun name member => (of_mem_namesOf member).1
  have trimmed := dropAround_intercalate nonempty fun name member => (of_mem_namesOf member).2.2
  have notDot : ['/'].intercalate (namesOf path.toList) ≠ ['.'] := by
    intro equal
    have inside : ['.'] ∈ namesOf path.toList := by
      have some : namesOf path.toList ≠ [] := by
        intro empty
        rw [empty, List.intercalate_nil] at equal
        cases equal
      have noSlash : ∀ name ∈ namesOf path.toList, '/' ∉ name :=
        fun name member => (of_mem_namesOf member).2.2
      have split := List.splitOn_intercalate '/' noSlash some
      rw [equal] at split
      rw [← split, List.splitOn_eq_singleton (by decide)]
      exact List.mem_singleton_self _
    exact (of_mem_namesOf inside).2.1 rfl
  rw [ofPath, normal_eq, spell]
  cases startsAtRoot (slashed path.toList) with
  | true =>
    have leading : dropAround ('/' :: ['/'].intercalate (namesOf path.toList)) =
        dropAround (['/'].intercalate (namesOf path.toList)) := rfl
    rw [if_pos rfl, leading, trimmed]
    exact if_neg notDot
  | false =>
    rw [if_neg Bool.false_ne_true]
    by_cases empty : ['/'].intercalate (namesOf path.toList) = []
    · rw [if_pos empty, ofNames, empty]
      rfl
    · rw [if_neg empty, trimmed]
      exact if_neg notDot

/-- A key climbs if the first of its names is `..`. -/
theorem climbs_ofNames_cons (rest : List (List Char)) : climbs (ofNames (dots :: rest)) = true := by
  rw [climbs, Bool.or_eq_true]
  cases rest with
  | nil => exact Or.inl (decide_eq_true rfl)
  | cons second others =>
    refine Or.inr ?_
    rw [toList_ofNames, List.intercalate_cons_cons]
    apply List.isPrefixOf_iff_prefix.mpr
    exact List.prefix_append _ _

/-- An admitted path has a canonical key. -/
theorem canonical_of_require {path key : String} (admitted : require path = .ok key) :
    Canonical key := by
  unfold require at admitted
  rcases namesOf_eq path.toList with ⟨climbed, rest, names_eq, areNames, _⟩
  rw [ofPath_eq, names_eq] at admitted
  dsimp only at admitted
  split at admitted
  · cases admitted
  · rename_i nonempty
    split at admitted
    · cases admitted
    · rename_i stays
      cases climbed with
      | succ more =>
        rw [List.replicate_succ, List.cons_append] at stays
        exact absurd (climbs_ofNames_cons _) stays
      | zero =>
        rw [List.replicate_zero, List.nil_append] at admitted nonempty
        injection admitted with same
        subst same
        apply canonical_ofNames _ areNames
        intro empty
        rw [empty] at nonempty
        exact nonempty rfl

/-! ## Keys above and below each other -/

theorem isBelow_iff {above below : String} :
    isBelow above below = true ↔ ∃ rest, below.toList = above.toList ++ '/' :: rest := by
  rw [isBelow, List.isPrefixOf_iff_prefix]
  constructor
  · rintro ⟨rest, equal⟩
    exact ⟨rest, by rw [← equal]; simp⟩
  · rintro ⟨rest, equal⟩
    exact ⟨rest, by rw [equal]; simp⟩

theorem isBelow_trans {top middle bottom : String} (first : isBelow top middle = true)
    (second : isBelow middle bottom = true) : isBelow top bottom = true := by
  rcases isBelow_iff.mp first with ⟨upper, middle_eq⟩
  rcases isBelow_iff.mp second with ⟨lower, bottom_eq⟩
  apply isBelow_iff.mpr
  exact ⟨upper ++ '/' :: lower, by rw [bottom_eq, middle_eq]; simp⟩

theorem not_isBelow_self (key : String) : isBelow key key = false := by
  apply Bool.eq_false_iff.mpr
  intro below
  rcases isBelow_iff.mp below with ⟨rest, equal⟩
  have lengths := congrArg List.length equal
  rw [List.length_append, List.length_cons] at lengths
  omega

/-- Two keys above the same key lie one above the other. -/
theorem isBelow_or_isBelow {left right below : String} (first : isBelow left below = true)
    (second : isBelow right below = true) :
    left = right ∨ isBelow left right = true ∨ isBelow right left = true := by
  rcases isBelow_iff.mp first with ⟨leftRest, left_eq⟩
  rcases isBelow_iff.mp second with ⟨rightRest, right_eq⟩
  rcases List.append_eq_append_iff.mp (left_eq.symm.trans right_eq) with
    ⟨between, right_is, rest_is⟩ | ⟨between, left_is, rest_is⟩
  · cases between with
    | nil => exact Or.inl (String.toList_inj.mp (by simpa using right_is.symm))
    | cons c between =>
      injection rest_is with slash
      subst slash
      exact Or.inr (Or.inl (isBelow_iff.mpr ⟨between, right_is⟩))
  · cases between with
    | nil => exact Or.inl (String.toList_inj.mp (by simpa using left_is))
    | cons c between =>
      injection rest_is with slash
      subst slash
      exact Or.inr (Or.inr (isBelow_iff.mpr ⟨between, left_is⟩))

/-- A canonical key below another one keeps its names when it is moved. -/
theorem Canonical.rebase {source target key : String} (canonicalKey : Canonical key)
    (canonicalTarget : Canonical target) (below : isBelow source key = true) :
    Canonical (rebase source target key) ∧ isBelow target (rebase source target key) = true := by
  rcases isBelow_iff.mp below with ⟨rest, equal⟩
  have areNames := canonicalKey.names
  rw [equal, List.splitOn_append_cons_self] at areNames
  have moved : (Key.rebase source target key).toList = target.toList ++ '/' :: rest := by
    rw [Key.rebase, String.toList_ofList, equal, List.drop_left]
  refine ⟨⟨?_, ?_⟩, isBelow_iff.mpr ⟨rest, moved⟩⟩
  · intro empty
    rw [empty] at moved
    simp at moved
  · rw [moved, List.splitOn_append_cons_self]
    intro segment member
    rcases List.mem_append.mp member with upper | lower
    · exact canonicalTarget.names segment upper
    · exact areNames segment (List.mem_append_right _ lower)

/-! ## Keys as lists of names -/

/-- The keys above a key are the proper beginnings of its names. -/
theorem isBelow_ofNames_iff {above : String} {names : List (List Char)}
    (areNames : ∀ name ∈ names, IsName name) :
    isBelow above (ofNames names) = true ↔
      ∃ upper, upper ≠ [] ∧ upper <+: names ∧ upper ≠ names ∧ above = ofNames upper := by
  constructor
  · intro below
    rcases isBelow_iff.mp below with ⟨rest, equal⟩
    have nonempty : names ≠ [] := by
      intro empty
      rw [empty] at equal
      simp at equal
    have split := splitOn_ofNames nonempty fun name member => (areNames name member).no_slash
    rw [equal, List.splitOn_append_cons_self] at split
    have lower := List.splitOn_ne_nil '/' rest
    refine ⟨_, List.splitOn_ne_nil '/' above.toList, ⟨_, split⟩, ?_, ?_⟩
    · intro whole
      rw [← whole] at split
      exact lower (List.append_right_eq_self.mp split)
    · rw [ofNames, List.intercalate_splitOn, String.ofList_toList]
  · rintro ⟨upper, nonempty, ⟨lower, rfl⟩, proper, rfl⟩
    have lowerNonempty : lower ≠ [] := by
      intro empty
      exact proper (by rw [empty, List.append_nil])
    apply isBelow_iff.mpr
    refine ⟨['/'].intercalate lower, ?_⟩
    rw [toList_ofNames, toList_ofNames, intercalate_append nonempty lowerNonempty]

/-- What lies above a canonical key is canonical. -/
theorem Canonical.of_isBelow {above key : String} (canonical : Canonical key)
    (below : isBelow above key = true) : Canonical above := by
  rcases canonical.exists_names with ⟨names, _, areNames, rfl⟩
  rcases (isBelow_ofNames_iff areNames).mp below with ⟨upper, nonempty, beginning, _, rfl⟩
  exact canonical_ofNames nonempty fun name member => areNames name (beginning.subset member)

/-- The keys above the last of some names are the beginnings of the others. -/
theorem isBelow_ofNames_concat_iff {above : String} {names : List (List Char)} {name : List Char}
    (areNames : ∀ other ∈ names ++ [name], IsName other) :
    isBelow above (ofNames (names ++ [name])) = true ↔
      ∃ upper, upper ≠ [] ∧ upper <+: names ∧ above = ofNames upper := by
  rw [isBelow_ofNames_iff areNames]
  constructor
  · rintro ⟨upper, nonempty, beginning, proper, rfl⟩
    rcases List.prefix_concat_iff.mp beginning with whole | shorter
    · exact absurd whole proper
    · exact ⟨upper, nonempty, shorter, rfl⟩
  · rintro ⟨upper, nonempty, beginning, rfl⟩
    refine ⟨upper, nonempty, beginning.trans (List.prefix_append _ _), ?_, rfl⟩
    intro whole
    have bound := beginning.length_le
    rw [whole, List.length_append, List.length_singleton] at bound
    omega

theorem decide_ne_of_not_mem {mark : Char} {text : List Char} (absent : mark ∉ text) :
    ∀ c ∈ text, decide (c ≠ mark) = true := by
  intro c member
  apply decide_eq_true
  rintro rfl
  exact absent member

theorem splitLast_append {mark : Char} {before after : List Char} (absent : mark ∉ after) :
    splitLast mark (before ++ mark :: after) = some (before, after) := by
  have passes : ∀ c ∈ after.reverse, decide (c ≠ mark) = true :=
    decide_ne_of_not_mem (by rwa [List.mem_reverse])
  rw [splitLast, List.reverse_append, List.reverse_cons, List.append_assoc, List.singleton_append,
    List.dropWhile_append_of_pos passes, List.takeWhile_append_of_pos passes,
    List.dropWhile_cons_of_neg (by simp), List.takeWhile_cons_of_neg (by simp)]
  simp

theorem splitLast_eq_none {mark : Char} {text : List Char} (absent : mark ∉ text) :
    splitLast mark text = none := by
  have gone : text.reverse.dropWhile (· ≠ mark) = [] := by
    rw [List.dropWhile_eq_nil_iff]
    exact decide_ne_of_not_mem (by rwa [List.mem_reverse])
  rw [splitLast, gone]

/-- The parent has one name less. -/
theorem parent_ofNames_concat {names : List (List Char)} {name : List Char}
    (isName : IsName name) : parent (ofNames (names ++ [name])) = ofNames names := by
  by_cases top : names = []
  · subst top
    rw [parent, toList_ofNames, List.nil_append, List.intercalate_singleton,
      splitLast_eq_none isName.no_slash, ofNames_nil]
  · rw [parent, toList_ofNames, intercalate_append top (List.cons_ne_nil name []),
      List.intercalate_singleton, splitLast_append isName.no_slash, ofNames]

/-- A text of names has these names. -/
theorem segments_ofNames {names : List (List Char)} (nonempty : ∀ name ∈ names, name ≠ [])
    (noSlash : ∀ name ∈ names, '/' ∉ name) : segments (ofNames names) = names := by
  by_cases empty : names = []
  · rw [segments, if_pos ((ofNames_eq_empty_iff nonempty).mpr empty), empty]
  · rw [segments, if_neg (fun same => empty ((ofNames_eq_empty_iff nonempty).mp same)),
      splitOn_ofNames empty noSlash]

/-- The chain of a key are the beginnings of its names. -/
theorem chain_ofNames {names : List (List Char)} (areNames : ∀ name ∈ names, IsName name) :
    chain (ofNames names) = (beginnings names).map ofNames := by
  rw [chain, segments_ofNames (fun name member => (areNames name member).nonempty)
    fun name member => (areNames name member).no_slash]
  rfl

/-! ## Chains -/

section Chains

variable {key place : String} {names : List (List Char)}

/-- A beginning of a list is shorter than those listed behind it. -/
theorem beginnings_pairwise {α : Type} (list : List α) :
    (beginnings list).Pairwise fun first second => first <+: second ∧ first ≠ second := by
  induction list with
  | nil => exact .nil
  | cons a rest ih =>
    rw [beginnings]
    refine List.Pairwise.cons ?_ (List.pairwise_map.mpr (ih.imp ?_))
    · intro longer member
      rcases List.mem_map.mp member with ⟨tail, inside, rfl⟩
      refine ⟨(List.prefix_cons_inj a).mpr List.nil_prefix, ?_⟩
      intro same
      cases same
      exact not_mem_nil_beginnings rest inside
    · rintro first second ⟨beginning, different⟩
      refine ⟨(List.prefix_cons_inj a).mpr beginning, ?_⟩
      intro same
      exact different (List.cons_inj_right a |>.mp same)
where
  not_mem_nil_beginnings {α : Type} (list : List α) : [] ∉ beginnings list := by
    cases list with
    | nil => exact List.not_mem_nil
    | cons a rest => simp [beginnings]

theorem mem_beginnings_iff {α : Type} {list upper : List α} :
    upper ∈ beginnings list ↔ upper ≠ [] ∧ upper <+: list := by
  induction list generalizing upper with
  | nil => simp [beginnings]
  | cons a rest ih =>
    rw [beginnings, List.mem_cons, List.mem_map]
    constructor
    · rintro (rfl | ⟨tail, inside, rfl⟩)
      · exact ⟨List.cons_ne_nil a [], (List.prefix_cons_inj a).mpr List.nil_prefix⟩
      · exact ⟨List.cons_ne_nil a tail, (List.prefix_cons_inj a).mpr (ih.mp inside).2⟩
    · rintro ⟨nonempty, beginning⟩
      cases upper with
      | nil => exact absurd rfl nonempty
      | cons b tail =>
        rw [List.cons_prefix_cons] at beginning
        rcases beginning with ⟨rfl, beginning⟩
        cases tail with
        | nil => exact .inl rfl
        | cons c more => exact .inr ⟨c :: more, ih.mpr ⟨List.cons_ne_nil c more, beginning⟩, rfl⟩

/-- Each place of a chain is above those behind it. -/
theorem chain_pairwise (areNames : ∀ name ∈ names, IsName name) :
    (chain (ofNames names)).Pairwise fun above below => isBelow above below = true := by
  rw [chain_ofNames areNames, List.pairwise_map]
  refine (beginnings_pairwise names).imp_of_mem ?_
  rintro upper lower inUpper inLower ⟨beginning, different⟩
  have lowerNames : ∀ name ∈ lower, IsName name := fun name member =>
    areNames name ((mem_beginnings_iff.mp inLower).2.subset member)
  apply (isBelow_ofNames_iff lowerNames).mpr
  exact ⟨upper, (mem_beginnings_iff.mp inUpper).1, beginning, different, rfl⟩

/-- The chain of a key are the key and all places above it. -/
theorem mem_chain_iff (canonical : Canonical key) :
    place ∈ chain key ↔ place = key ∨ isBelow place key = true := by
  rcases canonical.exists_names with ⟨names, nonempty, areNames, rfl⟩
  rw [chain_ofNames areNames, List.mem_map, isBelow_ofNames_iff areNames]
  constructor
  · rintro ⟨upper, member, rfl⟩
    rcases mem_beginnings_iff.mp member with ⟨some, beginning⟩
    by_cases whole : upper = names
    · exact .inl (congrArg ofNames whole)
    · exact .inr ⟨upper, some, beginning, whole, rfl⟩
  · rintro (rfl | ⟨upper, some, beginning, _, rfl⟩)
    · exact ⟨names, mem_beginnings_iff.mpr ⟨nonempty, List.prefix_refl names⟩, rfl⟩
    · exact ⟨upper, mem_beginnings_iff.mpr ⟨some, beginning⟩, rfl⟩

/-- The parent of a canonical key is the text of all its names but the last. -/
theorem Canonical.exists_parent (canonical : Canonical key) :
    ∃ upper name, (∀ other ∈ upper ++ [name], IsName other) ∧ key = ofNames (upper ++ [name]) ∧
      parent key = ofNames upper := by
  rcases canonical.exists_names with ⟨names, nonempty, areNames, rfl⟩
  rcases List.eq_nil_or_concat names with empty | ⟨upper, name, rfl⟩
  · exact absurd empty nonempty
  rw [List.concat_eq_append] at areNames ⊢
  exact ⟨upper, name, areNames, rfl, parent_ofNames_concat (areNames name (by simp))⟩

/-- The chain of a key's parent are all places above the key. -/
theorem mem_chain_parent_iff (canonical : Canonical key) :
    place ∈ chain (parent key) ↔ isBelow place key = true := by
  rcases canonical.exists_parent with ⟨upper, name, areNames, rfl, parent_eq⟩
  have upperNames : ∀ other ∈ upper, IsName other :=
    fun other member => areNames other (List.mem_append_left _ member)
  rw [parent_eq, chain_ofNames upperNames, List.mem_map, isBelow_ofNames_concat_iff areNames]
  constructor
  · rintro ⟨shorter, member, rfl⟩
    rcases mem_beginnings_iff.mp member with ⟨some, beginning⟩
    exact ⟨shorter, some, beginning, rfl⟩
  · rintro ⟨shorter, some, beginning, rfl⟩
    exact ⟨shorter, mem_beginnings_iff.mpr ⟨some, beginning⟩, rfl⟩

end Chains

end Key
end SaveTree
