import SaveTree.Proofs.Path.Joining
import SaveTree.Proofs.Path.Parts

namespace SaveTree
namespace Path

/-!
# Paths put together again

The directory of a path and its last name, joined again, are the normal form of the path.
Slashes at the end of a path lead nowhere, and a second slash at its front leads to the root
as the first one does, so that nothing of the walk is lost where the path was cut.  A path
without a slash before its last name is the only one that comes back changed: its directory
is the root.

The last name itself is cut at its last dot, unless that dot is its first character.
-/

variable {path name stem slashes ending : List Char} {upper : Option (List Char)}
  {place : List (List Char)}

/-! ## Slashes that lead nowhere -/

theorem foldl_enter_slashes (behind : ∀ c ∈ slashes, c = '/') :
    (slashes.splitOnP isSeparator).foldl enter place = place := by
  induction slashes with
  | nil => rfl
  | cons c rest ih =>
    have cut : ('/' :: rest).splitOnP isSeparator = [] :: rest.splitOnP isSeparator :=
      List.splitOnP_cons_eq_if_modifyHead ..
    rw [behind c List.mem_cons_self, cut, List.foldl_cons, enter_nil,
      ih fun other member => behind other (.tail _ member)]

/-- Slashes behind a path do not change its normal form. -/
theorem normal_append_slashes (nonempty : path ≠ []) (behind : ∀ c ∈ slashes, c = '/') :
    normal (path ++ slashes) = normal path := by
  apply normal_eq_of_walk (isRooted_append nonempty)
  intro place _
  cases slashes with
  | nil => rw [List.append_nil]
  | cons c rest =>
    rw [behind c List.mem_cons_self, walk_append nonempty,
      foldl_enter_slashes fun other member => behind other (.tail _ member)]

/-- A second slash at the front does not change the normal form. -/
theorem normal_cons_slash_slash (path : List Char) :
    normal ('/' :: '/' :: path) = normal ('/' :: path) := by
  have alike : isRooted ('/' :: '/' :: path) = isRooted ('/' :: path) := rfl
  apply normal_eq_of_walk alike
  intro place _
  rw [walk_cons_slash, walk_cons_slash, walk_cons_slash]

/-! ## Directory and last name -/

/-- A path with a slash at its front or before its last name is put together from its parts. -/
theorem Parts.normal_directory_append (parts : Parts path upper name)
    (within : startsAtRoot path = true ∨ '/' ∈ dropTrailing path) :
    normal (directory upper ++ '/' :: name) = normal path := by
  rw [parts.dropTrailing_eq] at within
  cases parts with
  | @alone _ slashes noSlash behind =>
    -- only slashes begin with one and have none before their last name
    have rooted : startsAtRoot (name ++ slashes) = true := within.resolve_right noSlash
    cases name with
    | cons c rest =>
      rw [startsAtRoot, decide_eq_true_iff] at rooted
      cases rooted
      exact absurd List.mem_cons_self noSlash
    | nil =>
      cases slashes with
      | nil => cases rooted
      | cons c rest =>
        have more : ∀ other ∈ rest, other = '/' := fun other member => behind other (.tail _ member)
        calc normal ['/', '/']
          _ = normal ['/'] := normal_cons_slash_slash []
          _ = normal (['/'] ++ rest) := (normal_append_slashes (List.cons_ne_nil _ _) more).symm
          _ = normal (c :: rest) := by rw [behind c List.mem_cons_self]; rfl
  | @below upper _ slashes _ _ behind =>
    rw [normal_append_slashes (by simp) behind]
    cases upper with
    | nil => exact normal_cons_slash_slash name
    | cons c rest => rfl

theorem join_pair (first second : List Char) :
    join [String.ofList first, String.ofList second] =
      String.ofList (normal (first ++ '/' :: second)) := by
  simp [join, List.intercalate_cons_cons]

theorem Parts.basename_eq {path : String} (parts : Parts path.toList upper name) :
    basename path none = String.ofList name := by
  rw [basename, parts.lastName_eq]

/-! ## Stem and extension -/

/-- A name is cut into its stem and its extension, which begins at the last dot.  A name with
no dot behind its first character has no extension. -/
inductive Extended : List Char → List Char → List Char → Prop where
  | plain {name : List Char} (noDot : '.' ∉ name.tail) : Extended name name []
  | dotted {stem rest : List Char} (nonempty : stem ≠ []) (noDot : '.' ∉ rest) :
      Extended (stem ++ '.' :: rest) stem ('.' :: rest)

/-- Every name is cut in this way. -/
theorem exists_extended (name : List Char) : ∃ stem ending, Extended name stem ending := by
  by_cases inside : '.' ∈ name
  · rcases exists_last_of_mem inside with ⟨stem, rest, rfl, noDot⟩
    by_cases empty : stem = []
    · subst empty
      exact ⟨_, _, .plain noDot⟩
    · exact ⟨stem, '.' :: rest, .dotted empty noDot⟩
  · exact ⟨name, [], .plain fun behind => inside (List.mem_of_mem_tail behind)⟩

namespace Extended

theorem append_eq (extended : Extended name stem ending) : stem ++ ending = name := by
  cases extended with
  | plain noDot => exact List.append_nil name
  | dotted nonempty noDot => rfl

theorem extname_eq {path : String} (extended : Extended (lastName path.toList) stem ending) :
    extname path = String.ofList ending := by
  rw [extname]
  generalize lastName path.toList = name at extended
  cases extended with
  | plain noDot =>
    cases stem with
    | nil => rfl
    | cons c rest =>
      rw [List.tail_cons] at noDot
      by_cases dotfile : c = '.'
      · rw [dotfile, ← List.nil_append ('.' :: rest), Key.splitLast_append noDot]
      · have absent : '.' ∉ c :: rest :=
          List.not_mem_cons_of_ne_of_not_mem (Ne.symm dotfile) noDot
        rw [Key.splitLast_eq_none absent]
  | dotted nonempty noDot =>
    rw [Key.splitLast_append noDot]
    cases stem with
    | nil => exact absurd rfl nonempty
    | cons c rest => rfl

theorem withoutEnding_eq (extended : Extended name stem ending) :
    withoutEnding ending name = stem := by
  rw [← extended.append_eq, withoutEnding, if_pos (by simp), List.length_append,
    Nat.add_sub_cancel, List.take_left]

end Extended

/-- Directory and last name of a path, joined again, are its normal form, if the path begins
with a slash or has one before its last name.  There is no slash in the last name, and
without its extension it is what the extension was put behind. -/
theorem taken_apart_without_loss (path : String) :
    (isAbsolute path = true ∨ '/' ∈ dropTrailing path.toList →
      join [dirname path, basename path none] = normalize path) ∧
    '/' ∉ (basename path none).toList ∧
    basename path (some (extname path)) ++ extname path = basename path none := by
  rcases exists_parts path.toList with ⟨upper, name, parts⟩
  rw [parts.basename_eq]
  refine ⟨?_, ?_, ?_⟩
  · intro within
    rw [parts.dirname_eq, join_pair, parts.normal_directory_append within, normalize]
  · rw [String.toList_ofList]
    exact parts.no_slash
  · rcases exists_extended (lastName path.toList) with ⟨stem, ending, extended⟩
    rw [extended.extname_eq, basename, String.toList_ofList, extended.withoutEnding_eq,
      ← String.ofList_append, extended.append_eq, parts.lastName_eq]

/-- A climbing last name behind several slashes, and a path of slashes only. -/
theorem taken_apart_without_loss_climbing :
    join [dirname "a//..//", basename "a//..//" none] = normalize "a//..//" ∧
    join [dirname "//", basename "//" none] = normalize "//" ∧
    basename "b/.x.tar.gz" (some (extname "b/.x.tar.gz")) ++ extname "b/.x.tar.gz" = ".x.tar.gz" :=
  ⟨(taken_apart_without_loss "a//..//").1 (.inr (by decide)),
    (taken_apart_without_loss "//").1 (.inl (by decide)),
    (taken_apart_without_loss "b/.x.tar.gz").2.2⟩

end Path
end SaveTree
