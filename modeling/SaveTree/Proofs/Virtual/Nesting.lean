import Mathlib.Logic.Relation
import Mathlib.Order.WellFounded
import SaveTree.Path.Basic
import SaveTree.Proofs.Virtual.Listing

namespace SaveTree
namespace Virtual

open Key

/-!
# Listings that end

A recursive listing of a directory lists each of its child directories in turn, and it looks
through all entries every time.  So nothing becomes smaller but what is left of the paths
behind the directory.  Whatever the paths look like, the path of a child directory is longer
than that of the directory above it, and the path of some entry begins with it.  So there are
no more levels than the longest path has characters.

There is one exception.  An entry whose path begins with a slash shows the root a child with
an empty name, and the path of this child is the root again.  There the recursion has no end
however many levels are granted, and so there is no listing.
-/

variable {entries : List Entry} {entry : Entry} {children shown : List (String × Kind)}
  {base outer inner name : String} {start : List Char} {levels : Nat}

/-! ## Directories among the children -/

theorem directory_mem_addChild_iff {new : String} {kind : Kind} :
    (name, Kind.directory) ∈ addChild new kind children ↔
      (name = new ∧ kind = .directory) ∨ (name, Kind.directory) ∈ children := by
  induction children with
  | nil => simp [addChild, eq_comm]
  | cons head rest ih =>
    rcases head with ⟨other, old⟩
    rw [addChild]
    split
    next same =>
      subst same
      cases kind <;> cases old <;> simp
    next =>
      split
      next => simp [eq_comm]
      next =>
        rw [List.mem_cons, List.mem_cons, ih]
        exact or_left_comm

theorem directory_mem_foldl_addChild_iff :
    (name, Kind.directory) ∈
        shown.foldl (fun found child => addChild child.1 child.2 found) children ↔
      (name, Kind.directory) ∈ children ∨ (name, Kind.directory) ∈ shown := by
  induction shown generalizing children with
  | nil => simp
  | cons child rest ih =>
    have first : (name, Kind.directory) = child ↔ name = child.1 ∧ child.2 = .directory := by
      rw [Prod.ext_iff, eq_comm (a := Kind.directory)]
    rw [List.foldl_cons, ih, directory_mem_addChild_iff, List.mem_cons, first]
    exact or_assoc.trans or_left_comm

/-- A child is a directory if one of the entries shows it as one. -/
theorem directory_mem_childrenBelow_iff :
    (name, Kind.directory) ∈ childrenBelow start entries ↔
      ∃ entry ∈ entries, child? start entry = some (name, .directory) := by
  rw [childrenBelow, directory_mem_foldl_addChild_iff, List.mem_filterMap]
  exact or_iff_right List.not_mem_nil

/-! ## What an entry shows -/

/-- Behind a directory stands a name, and the path ends with it or goes on after a slash. -/
theorem firstName_cases (relative : List Char) :
    ∃ name : String, '/' ∉ name.toList ∧
      (relative = name.toList ∨ ∃ rest, relative = name.toList ++ '/' :: rest) := by
  by_cases nested : '/' ∈ relative
  · rcases List.eq_append_cons_of_mem nested with ⟨first, rest, rfl, noSlash⟩
    exact ⟨String.ofList first, by rwa [String.toList_ofList],
      .inr ⟨rest, by rw [String.toList_ofList]⟩⟩
  · exact ⟨String.ofList relative, by rwa [String.toList_ofList],
      .inl String.toList_ofList.symm⟩

theorem child?_eq_some_iff {child : String × Kind} :
    child? start entry = some child ↔
      ∃ relative, relative ≠ [] ∧ entry.path.toList = start ++ relative ∧
        child = ((firstName relative).1,
          if (firstName relative).2 then .directory else entry.node.kind) := by
  rw [child?]
  constructor
  · intro shown
    split at shown
    next inside =>
      rcases List.isPrefixOf_iff_prefix.mp inside with ⟨relative, path_eq⟩
      rw [← path_eq, List.drop_left] at shown
      cases relative with
      | nil => cases shown
      | cons c rest =>
        exact ⟨c :: rest, List.cons_ne_nil _ _, path_eq.symm, (Option.some.inj shown).symm⟩
    next => cases shown
  · rintro ⟨relative, nonempty, path_eq, rfl⟩
    have inside : start.isPrefixOf entry.path.toList = true := by
      rw [path_eq, List.isPrefixOf_iff_prefix]
      exact List.prefix_append _ _
    rw [if_pos inside, path_eq, List.drop_left]
    cases relative with
    | nil => exact absurd rfl nonempty
    | cons c rest => rfl

theorem toList_childPath : (childPath base name).toList = stem base ++ name.toList :=
  String.toList_ofList

/-- An entry shows a child as a directory if its path goes on after the child's path, or if it
is a directory at this path itself. -/
theorem child?_eq_directory_iff :
    child? (stem base) entry = some (name, .directory) ↔
      '/' ∉ name.toList ∧
        (isBelow (childPath base name) entry.path = true ∨
          entry.path = childPath base name ∧ name ≠ "" ∧ entry.node.kind = .directory) := by
  rw [child?_eq_some_iff, isBelow_iff, toList_childPath, ← String.toList_inj, toList_childPath]
  constructor
  · rintro ⟨relative, nonempty, path_eq, child_eq⟩
    rcases firstName_cases relative with ⟨first, noSlash, rfl | ⟨rest, rfl⟩⟩
    · rw [firstName_eq noSlash] at child_eq
      rcases Prod.mk.inj child_eq with ⟨rfl, kind_eq⟩
      refine ⟨noSlash, .inr ⟨path_eq, ?_, kind_eq.symm⟩⟩
      rintro rfl
      exact nonempty rfl
    · rw [firstName_append noSlash] at child_eq
      rcases Prod.mk.inj child_eq with ⟨rfl, _⟩
      exact ⟨noSlash, .inl ⟨rest, by rw [path_eq, List.append_assoc]⟩⟩
  · rintro ⟨noSlash, ⟨rest, path_eq⟩ | ⟨path_eq, nonempty, kind_eq⟩⟩
    · refine ⟨name.toList ++ '/' :: rest, by simp, by rw [path_eq, List.append_assoc], ?_⟩
      rw [firstName_append noSlash]
      rfl
    · refine ⟨name.toList, by simpa using nonempty, path_eq, ?_⟩
      rw [firstName_eq noSlash, kind_eq]
      rfl

/-! ## Directories that are listed in turn -/

/-- A recursive listing of `outer` lists `inner` for one of its children. -/
def Nests (entries : List Entry) (outer inner : String) : Prop :=
  ∃ name, (name, Kind.directory) ∈ childrenBelow (stem outer) entries ∧ inner = childPath outer name

/-- Not the root with an entry whose path begins with a slash. -/
def Grounded (entries : List Entry) (base : String) : Prop :=
  base ≠ "" ∨ ∀ entry ∈ entries, Path.isAbsolute entry.path = false

theorem isBelow_empty_iff {path : String} :
    isBelow "" path = true ↔ Path.isAbsolute path = true := by
  rw [isBelow_iff, Path.isAbsolute, Path.startsAtRoot, decide_eq_true_iff, List.head?_eq_some_iff]
  rfl

namespace Nests

/-- The inner directory is listed because of an entry at its path or below it. -/
theorem exists_entry (nests : Nests entries outer inner) :
    ∃ entry ∈ entries, entry.path = inner ∨ isBelow inner entry.path = true := by
  rcases nests with ⟨name, child, rfl⟩
  rcases directory_mem_childrenBelow_iff.mp child with ⟨entry, member, shown⟩
  rcases child?_eq_directory_iff.mp shown with ⟨_, below | ⟨path_eq, _⟩⟩
  · exact ⟨entry, member, .inr below⟩
  · exact ⟨entry, member, .inl path_eq⟩

theorem length_le_longest (nests : Nests entries outer inner) : inner.length ≤ longest entries := by
  rcases nests.exists_entry with ⟨entry, member, path_eq | below⟩
  · rw [← path_eq]
    exact length_le_longest_of_mem member
  · have bound := length_le_longest_of_mem member
    rcases isBelow_iff.mp below with ⟨rest, path_eq⟩
    rw [← String.length_toList, path_eq, List.length_append, String.length_toList] at bound
    omega

/-- The inner directory has the longer path. -/
theorem length_lt (nests : Nests entries outer inner) (grounded : Grounded entries outer) :
    outer.length < inner.length := by
  rcases nests with ⟨name, child, rfl⟩
  rw [← String.length_toList (s := childPath outer name), toList_childPath, stem]
  by_cases top : outer = ""
  · -- an empty name below the root would come from a path that begins with a slash
    subst top
    rcases directory_mem_childrenBelow_iff.mp child with ⟨entry, member, shown⟩
    have named : name ≠ "" := by
      rintro rfl
      rcases child?_eq_directory_iff.mp shown with ⟨_, below | ⟨_, named, _⟩⟩
      · have absolute := isBelow_empty_iff.mp below
        rw [grounded.resolve_left (fun other => other rfl) entry member] at absolute
        cases absolute
      · exact named rfl
    have nonempty : name.toList ≠ [] := by simpa using named
    simpa using List.length_pos_iff.mpr nonempty
  · rw [if_neg top, List.length_append, List.length_append, String.length_toList]
    simp only [List.length_singleton]
    omega

theorem grounded (nests : Nests entries outer inner) (grounded : Grounded entries outer) :
    Grounded entries inner := by
  left
  rintro rfl
  have longer := nests.length_lt grounded
  rw [String.length_empty] at longer
  omega

end Nests

/-- The root is listed below itself if the path of an entry begins with a slash. -/
theorem nests_empty_self (member : entry ∈ entries) (absolute : Path.isAbsolute entry.path = true) :
    Nests entries "" "" := by
  refine ⟨"", directory_mem_childrenBelow_iff.mpr ⟨entry, member, ?_⟩, rfl⟩
  exact child?_eq_directory_iff.mpr ⟨by simp, .inl (isBelow_empty_iff.mpr absolute)⟩

/-! ## The recursion -/

theorem acc_of_longest_lt (room : Nat) (grounded : Grounded entries base)
    (bound : longest entries < room + base.length) :
    Acc (fun inner outer => Nests entries outer inner) base := by
  -- by what the longest path has left behind the base
  induction room generalizing base with
  | zero =>
    constructor
    intro inner nests
    have longer := nests.length_lt grounded
    have shorter := nests.length_le_longest
    omega
  | succ room ih =>
    constructor
    intro inner nests
    have longer := nests.length_lt grounded
    exact ih (nests.grounded grounded) (by omega)

/-- No directories are listed in turn without end, unless the root is listed below itself. -/
theorem acc_nests_iff :
    Acc (fun inner outer => Nests entries outer inner) base ↔ Grounded entries base := by
  constructor
  · intro ends
    by_contra notGrounded
    rw [Grounded, not_or, not_not] at notGrounded
    rcases notGrounded with ⟨rfl, someAbsolute⟩
    apply someAbsolute
    intro entry member
    by_contra absolute
    rw [Bool.not_eq_false] at absolute
    have again := nests_empty_self member absolute
    have endless : ¬Acc (fun inner outer => Nests entries outer inner) "" :=
      not_acc_iff_exists_descending_chain.mpr ⟨fun _ => "", rfl, fun _ => again⟩
    exact endless ends
  · intro grounded
    exact acc_of_longest_lt (longest entries + 1) grounded (by omega)

/-- One level of a recursive listing, with the listings of the child directories given. -/
def level (entries : List Entry) (nested : String → List Listed) (base : String) : List Listed :=
  (childrenBelow (stem base) entries).map fun child =>
    .mk (childPath base child.1) child.1 child.2
      (if child.2 = .directory then some (nested (childPath base child.1)) else none)

theorem listLevels_eq_level {list : String → List Listed}
    (nested : ∀ inner, Nests entries base inner →
      listLevels entries true levels inner = some (list inner)) :
    listLevels entries true (levels + 1) base = some (level entries list base) := by
  rw [listLevels_succ list fun _ name child => nested _ ⟨name, child, rfl⟩, level]
  simp

/-- A level takes no other listings than those of its child directories. -/
theorem level_congr {first second : String → List Listed}
    (same : ∀ inner, Nests entries base inner → first inner = second inner) :
    level entries first base = level entries second base := by
  apply List.map_congr_left
  rintro ⟨name, kind⟩ member
  cases kind with
  | file => rfl
  | directory =>
    dsimp only
    rw [same _ ⟨name, member, rfl⟩]

/-- Levels as many as the longest path has room for are enough, and one more changes nothing. -/
theorem exists_listLevels (levels : Nat) (grounded : Grounded entries base) (some : 0 < levels)
    (enough : longest entries < levels + base.length) :
    ∃ nodes, listLevels entries true levels base = .some nodes ∧
      listLevels entries true (levels + 1) base = .some nodes := by
  -- the path of a directory that is listed in turn fits the longest one, so a level is left for it
  induction levels generalizing base with
  | zero => cases some
  | succ levels ih =>
    have inner (_ : true = true) (name : String)
        (child : (name, .directory) ∈ childrenBelow (stem base) entries) :
        ∃ nodes, listLevels entries true levels (childPath base name) = .some nodes ∧
          listLevels entries true (levels + 1) (childPath base name) = .some nodes := by
      have nests : Nests entries base (childPath base name) := ⟨name, child, rfl⟩
      have longer := nests.length_lt grounded
      have shorter := nests.length_le_longest
      exact ih (nests.grounded grounded) (by omega) (by omega)
    rcases exists_listLevels_succ (fun path nodes =>
      listLevels entries true (levels + 1) path = .some nodes) inner with ⟨list, lists, again⟩
    exact ⟨_, lists, listLevels_succ list again⟩

/-- All that is listed, if the listing comes to an end. -/
def wholeListing (entries : List Entry) (base : String) : List Listed :=
  (listing base entries true).getD []

theorem listing_eq_whole (grounded : Grounded entries base) :
    listing base entries true = some (wholeListing entries base) := by
  rcases exists_listLevels (longest entries + 2) grounded (by omega) (by omega) with
    ⟨nodes, lists, _⟩
  rw [wholeListing, listing, lists]
  rfl

/-- A listing is put together from the listings of the child directories. -/
theorem wholeListing_eq_level (grounded : Grounded entries base) :
    wholeListing entries base = level entries (wholeListing entries) base := by
  have built : listing base entries true = some (level entries (wholeListing entries) base) := by
    apply listLevels_eq_level
    intro inner nests
    have still := nests.grounded grounded
    rcases exists_listLevels (longest entries + 1) still (by omega) (by omega) with
      ⟨nodes, lists, again⟩
    rw [lists, ← again]
    exact listing_eq_whole still
  rw [listing_eq_whole grounded] at built
  exact Option.some.inj built

/-- With the root below itself, no number of levels is enough. -/
theorem listLevels_eq_none (again : Nests entries "" "") (levels : Nat) :
    listLevels entries true levels "" = none := by
  rcases again with ⟨name, child, self⟩
  induction levels with
  | zero => rfl
  | succ levels ih =>
    rw [listLevels]
    apply mapM_eq_none child
    dsimp only
    rw [if_pos ⟨rfl, rfl⟩, ← childPath, ← self, ih]
    rfl

/-- The recursive listing that never comes to an end is that of the root, if a path begins with a
slash. -/
theorem listing_eq_none_iff :
    listing base entries true = none ↔
      base = "" ∧ ∃ entry ∈ entries, Path.isAbsolute entry.path = true := by
  constructor
  · intro endless
    by_contra bounded
    have grounded : Grounded entries base := by
      rw [Grounded, or_iff_not_imp_left, not_not]
      intro top entry member
      rw [← Bool.not_eq_true]
      exact fun absolute => bounded ⟨top, entry, member, absolute⟩
    rw [listing_eq_whole grounded] at endless
    cases endless
  · rintro ⟨rfl, entry, member, absolute⟩
    exact listLevels_eq_none (nests_empty_self member absolute) _

theorem grounded_of_reached (grounded : Grounded entries base)
    (reached : Relation.ReflTransGen (Nests entries) base outer) : Grounded entries outer := by
  induction reached with
  | refl => exact grounded
  | tail _ nests ih => exact nests.grounded ih

/-- The listing is all that obeys its recursion. -/
theorem eq_wholeListing_of_level {list : String → List Listed} (grounded : Grounded entries base)
    (obeys : ∀ outer, Relation.ReflTransGen (Nests entries) base outer →
      list outer = level entries list outer) :
    list base = wholeListing entries base := by
  have ends := acc_nests_iff.mpr grounded
  induction ends with
  | intro base _ ih =>
    rw [obeys base .refl, wholeListing_eq_level grounded]
    apply level_congr
    intro inner nests
    exact ih inner nests (nests.grounded grounded) fun outer reached =>
      obeys outer (.head nests reached)

/-- A recursive listing ends, whatever the paths of the entries are, if it does not begin at
the root with a path that begins with a slash.  Every directory that it lists in turn has a
longer path than the one before, and there is an entry at this path or below it.  What comes
out is put together level by level, and nothing else obeys the same recursion. -/
theorem listing_recursion_ends (entries : List Entry) (base : String)
    (grounded : base ≠ "" ∨ ∀ entry ∈ entries, Path.isAbsolute entry.path = false) :
    Acc (fun inner outer => Nests entries outer inner) base ∧
    (∃ list : String → List Listed,
      ∀ outer, Relation.ReflTransGen (Nests entries) base outer →
        listing outer entries true = some (list outer) ∧
        list outer = level entries list outer ∧
        ∀ inner, Nests entries outer inner →
          outer.length < inner.length ∧
          ∃ entry ∈ entries, entry.path = inner ∨ isBelow inner entry.path = true) ∧
    ∀ list : String → List Listed,
      (∀ outer, Relation.ReflTransGen (Nests entries) base outer →
        list outer = level entries list outer) →
      listing base entries true = some (list base) := by
  refine ⟨acc_nests_iff.mpr grounded, ⟨wholeListing entries, ?_⟩, ?_⟩
  · intro outer reached
    have still := grounded_of_reached grounded reached
    refine ⟨listing_eq_whole still, wholeListing_eq_level still, ?_⟩
    intro inner nests
    exact ⟨nests.length_lt still, nests.exists_entry⟩
  · intro list obeys
    rw [listing_eq_whole grounded, eq_wholeListing_of_level grounded obeys]

/-- Two slashes in a row make a directory with an empty name, which is listed in turn. -/
theorem listing_recursion_ends_at_empty_name :
    let entries := [⟨"a//b", .file (.text "x")⟩, ⟨"a", .directory⟩, ⟨"..", .directory⟩]
    Nests entries "" "a" ∧ Nests entries "a" "a/" ∧
      Acc (fun inner outer => Nests entries outer inner) "" ∧
      ∃ list : String → List Listed,
        listing "a/" entries true = some (list "a/") ∧ list "a/" = level entries list "a/" ∧
        ∃ entry ∈ entries, entry.path = "a/" ∨ isBelow "a/" entry.path = true := by
  intro entries
  have first : Nests entries "" "a" := ⟨"a", by decide, by decide⟩
  have second : Nests entries "a" "a/" := ⟨"", by decide, by decide⟩
  rcases listing_recursion_ends entries "" (.inr (by decide)) with ⟨ends, ⟨list, lists⟩, _⟩
  have one := Relation.ReflTransGen.single first
  rcases lists "a/" (one.tail second) with ⟨listed, built, _⟩
  exact ⟨first, second, ends, list, listed, built, ((lists "a" one).2.2 "a/" second).2⟩

end Virtual
end SaveTree
