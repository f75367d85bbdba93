import Mathlib.Data.List.Infix
import SaveTree.Proofs.Path.Normal

namespace SaveTree

/-!
# Paths that are admitted

A relative path is refused if it leads above its start, even if it comes back later: at
some point of the way more of its segments have gone back than on.  A path that begins at
the root is never refused for that, because at the root there is no way back.  Every other
path is admitted with the names of the place that it leads to, unless this is the root.

A walk that has gone above its start keeps a `..` in its stack for ever, and one that has
not has its stack for its place.  So whether a key climbs is told by the stack alone, and
the stack by counting segments.
-/

namespace Path

/-- Goes one name on. -/
def goesOn (segment : List Char) : Bool :=
  !(segment = [] || segment = ['.'] || segment = dots)

/-- At some point of the way more segments have gone back than on. -/
def GoesAbove (segments : List (List Char)) : Prop :=
  ∃ begun ∈ segments.inits, begun.countP goesOn < begun.count dots

instance decidableGoesAbove (segments : List (List Char)) : Decidable (GoesAbove segments) :=
  inferInstanceAs (Decidable (∃ begun ∈ segments.inits, begun.countP goesOn < begun.count dots))

variable {stack segments : List (List Char)} {segment : List Char} {path : List Char}

/-! ## Going above the start -/

/-- A walk that has gone above its start does not forget it. -/
theorem dots_mem_visit (above : dots ∈ stack) : dots ∈ visit false stack segment := by
  unfold visit
  split
  · exact above
  split
  · cases stack with
    | nil => cases above
    | cons top below =>
      dsimp only
      split
      · rename_i name
        rcases List.mem_cons.mp above with same | deeper
        · exact absurd same.symm name
        · exact deeper
      · exact List.mem_cons_of_mem segment above
  · exact List.mem_cons_of_mem segment above

theorem dots_mem_foldl_visit (above : dots ∈ stack) : dots ∈ segments.foldl (visit false) stack := by
  induction segments generalizing stack with
  | nil => exact above
  | cons segment rest ih => exact ih (dots_mem_visit above)

theorem visit_of_goesOn (on : goesOn segment = true) :
    visit false stack segment = segment :: stack := by
  simp only [goesOn, Bool.not_eq_true', Bool.or_eq_false_iff, decide_eq_false_iff_not, dots] at on
  rw [visit.eq_def, if_neg (not_or.mpr on.1), if_neg (of_decide_eq_false on.2)]

theorem visit_of_stays (on : goesOn segment = false) (notBack : segment ≠ dots) :
    visit false stack segment = stack := by
  have stays : segment = [] ∨ segment = ['.'] := by
    simpa [goesOn, notBack, or_iff_not_imp_left] using on
  rw [visit.eq_def, if_pos stays]

/-- A walk goes above its start if at some point it has gone back more often than the
names in its stack and those that it has met allow. -/
theorem dots_mem_foldl_visit_iff (inside : dots ∉ stack) :
    dots ∈ segments.foldl (visit false) stack ↔
      ∃ begun ∈ segments.inits, stack.length + begun.countP goesOn < begun.count dots := by
  induction segments generalizing stack with
  | nil => simpa using inside
  | cons segment rest ih =>
    -- nothing has been met before the first segment
    have unfolded : (∃ begun ∈ (segment :: rest).inits,
          stack.length + begun.countP goesOn < begun.count dots) ↔
        ∃ begun ∈ rest.inits, stack.length + (segment :: begun).countP goesOn <
          (segment :: begun).count dots := by
      simp
    rw [List.foldl_cons, unfolded]
    by_cases back : segment = dots
    · subst back
      cases stack with
      | nil =>
        refine iff_of_true (dots_mem_foldl_visit (List.mem_singleton_self dots)) ⟨[], by simp, ?_⟩
        decide
      | cons top below =>
        rw [List.mem_cons, not_or] at inside
        have popped : visit false (top :: below) dots = below := if_pos (Ne.symm inside.1)
        have notOn : goesOn dots = false := rfl
        rw [popped, ih inside.2]
        simp [notOn, Nat.add_right_comm]
    · cases on : goesOn segment with
      | true =>
        have pushed : dots ∉ segment :: stack := by
          rw [List.mem_cons, not_or]
          exact ⟨Ne.symm back, inside⟩
        rw [visit_of_goesOn on, ih pushed]
        simp [on, back, Nat.add_right_comm, Nat.add_assoc]
      | false =>
        rw [visit_of_stays on back, ih inside]
        simp [on, back]

/-! ## What an admitted path leaves -/

theorem dots_mem_namesOf_iff :
    dots ∈ namesOf path ↔ isRooted path = false ∧ GoesAbove (path.splitOnP isSeparator) := by
  cases rooted : isRooted path with
  | true =>
    rcases namesOf_eq path with ⟨climbed, names, names_eq, areNames, atRoot⟩
    rw [startsAtRoot_slashed] at atRoot
    cases atRoot rooted
    refine iff_of_false ?_ fun both => Bool.noConfusion both.1
    rw [names_eq]
    intro climbs
    exact (areNames dots climbs).not_dots rfl
  | false =>
    rw [namesOf, startsAtRoot_slashed, rooted, splitOn_slashed, names, List.mem_reverse,
      dots_mem_foldl_visit_iff List.not_mem_nil, GoesAbove]
    simp

/-- A path that does not go above its start leads along the names that it leaves. -/
theorem walk_eq_namesOf (inside : dots ∉ namesOf path) : walk path [] = namesOf path := by
  have areNames : ∀ name ∈ namesOf path, IsName name := by
    rcases namesOf_eq path with ⟨climbed, names, names_eq, areNames, _⟩
    cases climbed with
    | zero => rwa [names_eq]
    | succ more =>
      rw [names_eq, List.replicate_succ] at inside
      exact absurd List.mem_cons_self inside
  rw [walk_eq, foldl_enter_names areNames, ite_self, List.nil_append]

/-- A slash in front makes a path begin at the root. -/
theorem walk_cons_slash (path : List Char) (place : List (List Char)) :
    walk ('/' :: path) place = walk path [] := by
  have cut : ('/' :: path).splitOnP isSeparator = [] :: path.splitOnP isSeparator :=
    List.splitOnP_cons_eq_if_modifyHead ..
  rw [walk, walk, cut, List.foldl_cons, enter_nil, ite_self]
  rfl

end Path

namespace Key

open Path

variable {path key : String}

theorem climbs_ofPath_iff : climbs (ofPath path) = true ↔ dots ∈ namesOf path.toList := by
  rcases namesOf_eq path.toList with ⟨climbed, names, names_eq, areNames, _⟩
  rw [ofPath_eq, names_eq]
  cases climbed with
  | zero =>
    refine iff_of_false ?_ fun climbs => (areNames dots climbs).not_dots rfl
    rw [List.replicate_zero, List.nil_append, climbs_ofNames areNames]
    exact Bool.false_ne_true
  | succ more =>
    rw [List.replicate_succ, List.cons_append]
    exact iff_of_true (climbs_ofNames_cons _) List.mem_cons_self

theorem ofPath_eq_empty_iff : ofPath path = "" ↔ namesOf path.toList = [] := by
  rw [ofPath_eq, ofNames_eq_empty_iff fun name member => (of_mem_namesOf member).1]

/-- What becomes of a path is told by where it leads and whether it goes above its start
on the way. -/
theorem require_eq (path : String) :
    require path =
      if isRooted path.toList = false ∧ GoesAbove (path.toList.splitOnP isSeparator) then
        .error (.invalidPath path)
      else if walk path.toList [] = [] then .error .emptyPath
      else .ok (ofNames (walk path.toList [])) := by
  rw [require]
  simp only [ofPath_eq_empty_iff, climbs_ofPath_iff, ← dots_mem_namesOf_iff]
  by_cases above : dots ∈ namesOf path.toList
  · rw [if_pos above, if_pos above, if_neg (List.ne_nil_of_mem above)]
  · rw [if_neg above, if_neg above, walk_eq_namesOf above, ofPath_eq]

/-- A slash in front of a canonical key changes nothing. -/
theorem Canonical.require_slash (canonical : Canonical key) : require ("/" ++ key) = .ok key := by
  have admitted := canonical.require_eq
  have text : ("/" ++ key).toList = '/' :: key.toList := by simp
  have rooted : ¬(isRooted ('/' :: key.toList) = false ∧
      GoesAbove (('/' :: key.toList).splitOnP isSeparator)) := fun both => Bool.noConfusion both.1
  rw [Key.require_eq] at admitted ⊢
  rw [text, if_neg rooted, walk_cons_slash]
  by_cases above : isRooted key.toList = false ∧ GoesAbove (key.toList.splitOnP isSeparator)
  · rw [if_pos above] at admitted
    cases admitted
  · rwa [if_neg above] at admitted

/-- A canonical key in terms of its text. -/
theorem canonical_iff :
    Canonical key ↔
      key ≠ "" ∧
      (∀ segment ∈ key.toList.splitOn '/', segment ≠ [] ∧ segment ≠ ['.'] ∧ segment ≠ ['.', '.']) ∧
      '\\' ∉ key.toList ∧ key.toList.head? ≠ some '/' ∧ key.toList.getLast? ≠ some '/' := by
  constructor
  · intro canonical
    refine ⟨canonical.nonempty, ?segments, ?backslash, ?first, ?last⟩
    case segments =>
      intro segment member
      have isName := canonical.names segment member
      exact ⟨isName.nonempty, isName.not_dot, isName.not_dots⟩
    case backslash =>
      have joined : ['/'].intercalate (key.toList.splitOn '/') = key.toList :=
        List.intercalate_splitOn '/'
      rw [← joined]
      exact not_mem_intercalate (by decide) fun part member => (canonical.names part member).no_backslash
    case first =>
      intro slash
      rcases List.head?_eq_some_iff.mp slash with ⟨rest, text⟩
      have empty : [] ∈ key.toList.splitOn '/' := by
        rw [text, List.splitOn_cons_eq_if_modifyHead]
        exact List.mem_cons_self
      exact (canonical.names [] empty).nonempty rfl
    case last =>
      rcases canonical.exists_parent with ⟨upper, name, areNames, rfl, _⟩
      have isName := areNames name List.mem_concat_self
      rw [toList_ofNames, getLast?_intercalate_concat upper isName.nonempty]
      intro slash
      exact isName.no_slash (List.mem_of_getLast? slash)
  · rintro ⟨nonempty, segments, noBackslash, _, _⟩
    refine ⟨nonempty, fun segment member => ?_⟩
    rcases segments segment member with ⟨notEmpty, notDot, notDots⟩
    exact ⟨notEmpty, notDot, notDots, not_mem_of_mem_splitOn member,
      fun inside => noBackslash (mem_of_mem_splitOn member inside)⟩

/-- A path is refused if it is relative and goes above its start, it is empty if it leads
to the root, and otherwise its key is the text of the place that it leads to.  Such a key is
canonical and its own key, with a slash in front of it as well.  The canonical texts are
exactly those that are their own keys. -/
theorem require_follows_walk :
    (∀ path, require path =
      if isRooted path.toList = false ∧ GoesAbove (path.toList.splitOnP isSeparator) then
        .error (.invalidPath path)
      else if walk path.toList [] = [] then .error .emptyPath
      else .ok (ofNames (walk path.toList []))) ∧
    (∀ path key, require path = .ok key →
      Canonical key ∧ require key = .ok key ∧ require ("/" ++ key) = .ok key) ∧
    (∀ key, require key = .ok key ↔ Canonical key) ∧
    ∀ key, Canonical key ↔
      key ≠ "" ∧
      (∀ segment ∈ key.toList.splitOn '/', segment ≠ [] ∧ segment ≠ ['.'] ∧ segment ≠ ['.', '.']) ∧
      '\\' ∉ key.toList ∧ key.toList.head? ≠ some '/' ∧ key.toList.getLast? ≠ some '/' := by
  refine ⟨require_eq, ?_, ?_, fun _ => canonical_iff⟩
  · intro path key admitted
    have canonical := canonical_of_require admitted
    exact ⟨canonical, canonical.require_eq, canonical.require_slash⟩
  · intro key
    exact ⟨canonical_of_require, Canonical.require_eq⟩

example : require "a\\..\\../b" = .error (.invalidPath "a\\..\\../b") := by decide
example : require "/a/../../.../b/" = .ok ".../b" := by decide

end Key
end SaveTree
