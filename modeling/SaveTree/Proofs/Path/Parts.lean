import Mathlib.Data.List.TakeWhile
import SaveTree.Proofs.Key.Canonical

namespace SaveTree
namespace Path

/-!
# The parts of a path

The functions that take a path apart look at its plain slashes only.  Slashes at the end do
not count.  Behind the last of the others stands the last name, and before it stands the
directory.  If there is no other slash the whole path is its last name.

Every path has such parts, and they are all that `lastName` and `dirname` see of it.
-/

/-- A path has the given last name, and before the slash in front of it stands `upper`, if
there is such a slash.  Only slashes have an empty last name. -/
inductive Parts : List Char → Option (List Char) → List Char → Prop where
  | alone {name slashes : List Char} (noSlash : '/' ∉ name) (behind : ∀ c ∈ slashes, c = '/') :
      Parts (name ++ slashes) none name
  | below {upper name slashes : List Char} (nonempty : name ≠ []) (noSlash : '/' ∉ name)
      (behind : ∀ c ∈ slashes, c = '/') :
      Parts (upper ++ '/' :: name ++ slashes) (some upper) name

variable {path text name slashes : List Char} {upper : Option (List Char)}

theorem dropTrailing_append (behind : ∀ c ∈ slashes, c = '/') :
    dropTrailing (text ++ slashes) = dropTrailing text := by
  have dropped : ∀ c ∈ slashes.reverse, decide (c = '/') = true := by
    intro c member
    exact decide_eq_true (behind c (List.mem_reverse.mp member))
  rw [dropTrailing, List.reverse_append, List.dropWhile_append_of_pos dropped, dropTrailing]

/-- A path is what is left of it without the slashes at its end, and these slashes. -/
theorem exists_dropTrailing (path : List Char) :
    ∃ slashes, path = dropTrailing path ++ slashes ∧ (∀ c ∈ slashes, c = '/') ∧
      (dropTrailing path).getLast? ≠ some '/' := by
  refine ⟨(path.reverse.takeWhile (· = '/')).reverse, ?_, ?_, ?_⟩
  · rw [dropTrailing, ← List.reverse_append, List.takeWhile_append_dropWhile, List.reverse_reverse]
  · intro c member
    rw [List.mem_reverse] at member
    have slash := List.mem_takeWhile_imp member
    exact of_decide_eq_true slash
  · rw [dropTrailing, List.getLast?_reverse]
    intro slash
    have kept := List.head?_dropWhile_not (· = '/') path.reverse
    rw [slash] at kept
    cases kept

/-- A character that occurs in a text has a last place there. -/
theorem exists_last_of_mem {mark : Char} (inside : mark ∈ text) :
    ∃ before after, text = before ++ mark :: after ∧ mark ∉ after := by
  -- the last occurrence is the first one of the reversed text
  rcases List.eq_append_cons_of_mem (List.mem_reverse.mpr inside) with ⟨ending, start, cut, first⟩
  refine ⟨start.reverse, ending.reverse, ?_, ?_⟩
  · have back := congrArg List.reverse cut
    rwa [List.reverse_reverse, List.reverse_append, List.reverse_cons, List.append_assoc,
      List.singleton_append] at back
  · rwa [List.mem_reverse]

/-- Every path has parts. -/
theorem exists_parts (path : List Char) : ∃ upper name, Parts path upper name := by
  rcases exists_dropTrailing path with ⟨slashes, path_eq, behind, last⟩
  rw [path_eq]
  generalize dropTrailing path = text at last
  by_cases inside : '/' ∈ text
  · rcases exists_last_of_mem inside with ⟨upper, name, text_eq, noSlash⟩
    refine ⟨some upper, name, text_eq ▸ .below ?_ noSlash behind⟩
    rintro rfl
    rw [text_eq, List.getLast?_concat] at last
    exact last rfl
  · exact ⟨none, text, .alone inside behind⟩

/-- What stands before the last name, and the root if nothing does. -/
def directory (upper : Option (List Char)) : List Char :=
  if upper.getD [] = [] then ['/'] else upper.getD []

/-- Without the slashes at its end a path ends in its last name. -/
def withLastName (upper : Option (List Char)) (name : List Char) : List Char :=
  upper.elim name fun upper => upper ++ '/' :: name

namespace Parts

theorem no_slash (parts : Parts path upper name) : '/' ∉ name := by
  cases parts with
  | alone noSlash behind => exact noSlash
  | below nonempty noSlash behind => exact noSlash

/-- The characters of the last name are characters of the path. -/
theorem subset (parts : Parts path upper name) : name ⊆ path := by
  intro c inside
  cases parts with
  | alone noSlash behind => exact List.mem_append_left _ inside
  | below nonempty noSlash behind =>
    exact List.mem_append_left _ (List.mem_append_right _ (.tail _ inside))

theorem dropTrailing_eq (parts : Parts path upper name) :
    dropTrailing path = withLastName upper name := by
  have noSlash := parts.no_slash
  cases parts with
  | alone _ behind =>
    rw [dropTrailing_append behind, Key.dropTrailing_eq_self]
    · rfl
    · exact fun slash => noSlash (List.mem_of_getLast? slash)
  | @below upper _ _ nonempty _ behind =>
    have ends : (upper ++ '/' :: name).getLast? = name.getLast? := by
      rw [List.append_cons, List.getLast?_append, List.getLast?_eq_some_getLast nonempty,
        Option.some_or]
    rw [dropTrailing_append behind, Key.dropTrailing_eq_self]
    · rfl
    · rw [ends]
      exact fun slash => noSlash (List.mem_of_getLast? slash)

theorem lastName_eq (parts : Parts path upper name) : lastName path = name := by
  have noSlash : '/' ∉ name.reverse := by
    rw [List.mem_reverse]
    exact parts.no_slash
  have passes := Key.decide_ne_of_not_mem noSlash
  rw [lastName, parts.dropTrailing_eq]
  cases upper with
  | none => rw [withLastName, Option.elim_none, List.takeWhile_eq_self_iff.mpr passes,
      List.reverse_reverse]
  | some upper =>
    rw [withLastName, Option.elim_some, List.reverse_append, List.reverse_cons, List.append_assoc,
      List.takeWhile_append_of_pos passes]
    simp

theorem dirname_eq {path : String} (parts : Parts path.toList upper name) :
    dirname path = String.ofList (directory upper) := by
  rw [dirname, parts.dropTrailing_eq]
  cases upper with
  | none =>
    rw [withLastName, Option.elim_none, Key.splitLast_eq_none parts.no_slash]
    rfl
  | some upper =>
    rw [withLastName, Option.elim_some, Key.splitLast_append parts.no_slash]
    cases upper with
    | nil => rfl
    | cons c rest => rfl

end Parts

end Path
end SaveTree
