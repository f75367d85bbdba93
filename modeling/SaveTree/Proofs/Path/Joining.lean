import SaveTree.Proofs.Key.Admission

namespace SaveTree
namespace Path

/-!
# Joined and resolved paths

Two paths with a slash between them lead where the second leads from the place that the
first has led to, as long as the second does not begin with a separator itself.  So
nothing is lost by normalizing early: a normal form leads where its path leads, and a later
`..` finds the same names to undo.  An empty path is the only one that must not be
normalized.  What stands behind it begins with a slash, and what stands behind its normal
form `.` does not.

Resolving takes the segments from the rightmost absolute one on.  If there is none it takes
all of them, and then an empty segment at the front of others is read as the root.
-/

variable {first second path base : List Char} {parts left right before after : List (List Char)}
  {place : List (List Char)}

/-! ## Two paths in a row -/

theorem isRooted_append (nonempty : first ≠ []) : isRooted (first ++ second) = isRooted first := by
  cases first with
  | nil => exact absurd rfl nonempty
  | cons c rest => rfl

/-- A path behind a slash continues the walk. -/
theorem walk_append (nonempty : first ≠ []) :
    walk (first ++ '/' :: second) place =
      (second.splitOnP isSeparator).foldl enter (walk first place) := by
  rw [walk, walk, isRooted_append nonempty, List.splitOnP_append_cons first second rfl,
    List.foldl_append]

/-- A relative path behind a slash begins where the path before it has led to. -/
theorem walk_append_relative (nonempty : first ≠ []) (relative : isRooted second = false) :
    walk (first ++ '/' :: second) place = walk second (walk first place) := by
  rw [walk_append nonempty, walk.eq_def second, relative, if_neg Bool.false_ne_true]

theorem normal_ne_nil (path : List Char) : normal path ≠ [] := by
  rw [normal_eq, spell]
  split
  · exact List.cons_ne_nil _ _
  · split
    · exact List.cons_ne_nil _ _
    · assumption

/-- A path may be normalized before something is put behind it. -/
theorem normal_normal_append (nonempty : first ≠ []) :
    normal (normal first ++ '/' :: second) = normal (first ++ '/' :: second) := by
  have some := normal_ne_nil first
  apply normal_eq_of_walk
  · rw [isRooted_append some, isRooted_append nonempty, isRooted_normal]
  · intro place _
    rw [walk_append some, walk_append nonempty, walk_normal]

/-- A relative path may be normalized before it is put behind something. -/
theorem normal_append_normal (relative : isRooted second = false) :
    normal (first ++ '/' :: normal second) = normal (first ++ '/' :: second) := by
  have still : isRooted (normal second) = false := by rw [isRooted_normal, relative]
  by_cases empty : first = []
  · subst empty
    have alike : isRooted ('/' :: normal second) = isRooted ('/' :: second) := rfl
    apply normal_eq_of_walk alike
    intro place _
    rw [walk_cons_slash, walk_cons_slash, walk_normal]
  · apply normal_eq_of_walk
    · rw [isRooted_append empty, isRooted_append empty]
    · intro place _
      rw [walk_append_relative empty still, walk_append_relative empty relative, walk_normal]

theorem normal_normal (path : List Char) : normal (normal path) = normal path :=
  normal_eq_of_walk (isRooted_normal path) fun place _ => walk_normal path place

theorem slashed_normal (path : List Char) : slashed (normal path) = normal path := by
  apply Key.slashed_eq_self
  have clean : '\\' ∉ ['/'].intercalate (namesOf path) :=
    Key.not_mem_intercalate (by decide) fun name member => (clean_namesOf path name member).2.2
  rw [normal_eq, spell]
  split
  · simpa using clean
  · split
    · decide
    · exact clean

/-! ## Segments in a row -/

theorem eq_of_intercalate_eq_nil (empty : ['/'].intercalate parts = []) :
    parts = [] ∨ parts = [[]] := by
  cases parts with
  | nil => exact .inl rfl
  | cons part rest =>
    cases rest with
    | nil =>
      rw [List.intercalate_singleton] at empty
      exact .inr (by rw [empty])
    | cons next others =>
      rw [List.intercalate_cons_cons] at empty
      simp at empty

theorem normal_intercalate_normal (nonempty : ['/'].intercalate left ≠ []) :
    normal (['/'].intercalate (normal (['/'].intercalate left) :: right)) =
      normal (['/'].intercalate (left ++ right)) := by
  have some : left ≠ [] := by
    rintro rfl
    exact nonempty rfl
  by_cases last : right = []
  · rw [last, List.append_nil, List.intercalate_singleton, normal_normal]
  · rw [intercalate_append some last, ← normal_normal_append nonempty,
      List.intercalate_cons_of_ne_nil last]
    simp

/-! ## The base of a resolved path -/

/-- Either no segment is absolute and all of them count, or those from the rightmost
absolute one on. -/
theorem fromBase_cases (parts : List (List Char)) :
    (parts.any startsAtRoot = false ∧ fromBase parts = parts) ∨
    ∃ before base after, parts = before ++ base :: after ∧ startsAtRoot base = true ∧
      fromBase parts = base :: after := by
  induction parts with
  | nil => exact .inl ⟨rfl, rfl⟩
  | cons part rest ih =>
    rw [fromBase]
    rcases ih with ⟨relative, _⟩ | ⟨before, base, after, rest_eq, absolute, from_eq⟩
    · rw [if_neg (by rw [relative]; exact Bool.false_ne_true)]
      cases absolute : startsAtRoot part with
      | true => exact .inr ⟨[], part, rest, rfl, absolute, rfl⟩
      | false => exact .inl ⟨by rw [List.any_cons, absolute, relative]; rfl, rfl⟩
    · have some : rest.any startsAtRoot = true := by simp [rest_eq, absolute]
      rw [if_pos some, from_eq]
      exact .inr ⟨part :: before, base, after, by rw [rest_eq]; rfl, absolute, rfl⟩

theorem fromBase_append_of_absolute (absolute : right.any startsAtRoot = true) :
    fromBase (left ++ right) = fromBase right := by
  induction left with
  | nil => rfl
  | cons part rest ih =>
    have later : (rest ++ right).any startsAtRoot = true := by
      rw [List.any_append, absolute, Bool.or_true]
    rw [List.cons_append, fromBase, if_pos later, ih]

theorem fromBase_append_of_relative (nonempty : left ≠ [])
    (relative : right.any startsAtRoot = false) :
    fromBase (left ++ right) = fromBase left ++ right := by
  induction left with
  | nil => exact absurd rfl nonempty
  | cons part rest ih =>
    rw [List.cons_append, fromBase, fromBase, List.any_append, relative, Bool.or_false]
    split
    next absolute =>
      apply ih
      rintro rfl
      cases absolute
    next => rfl

theorem intercalate_fromBase_ne_nil (some : parts ≠ []) (notEmpty : parts ≠ [[]]) :
    ['/'].intercalate (fromBase parts) ≠ [] := by
  intro empty
  rcases fromBase_cases parts with ⟨_, all⟩ | ⟨before, base, after, _, absolute, from_eq⟩
  · rw [all] at empty
    exact (eq_of_intercalate_eq_nil empty).elim some notEmpty
  · rw [from_eq] at empty
    rcases eq_of_intercalate_eq_nil empty with impossible | onlyEmpty
    · cases impossible
    · cases onlyEmpty
      cases absolute

/-- The segments of a list of texts, with slashes only. -/
def slashedParts (segments : List String) : List (List Char) :=
  segments.map fun segment => slashed segment.toList

theorem resolve_eq (segments : List String) :
    resolve segments =
      String.ofList (normal (['/'].intercalate (fromBase (slashedParts segments)))) :=
  rfl

theorem any_startsAtRoot_iff {segments : List String} :
    (slashedParts segments).any startsAtRoot = true ↔
      ∃ segment ∈ segments, isRooted segment.toList = true := by
  simp [slashedParts, startsAtRoot_slashed]

theorem slashed_eq_nil_iff : slashed path = [] ↔ path = [] :=
  List.map_eq_nil_iff

theorem resolve_resolve_append {segments others : List String} (some : segments ≠ [])
    (notEmpty : segments ≠ [""]) :
    resolve (resolve segments :: others) = resolve (segments ++ others) := by
  have partsSome : slashedParts segments ≠ [] := by simpa [slashedParts] using some
  have partsNotEmpty : slashedParts segments ≠ [[]] := by
    intro single
    rcases List.map_eq_singleton_iff.mp single with ⟨segment, rfl, empty⟩
    exact notEmpty (by rw [String.toList_eq_nil_iff.mp (slashed_eq_nil_iff.mp empty)])
  have nonempty := intercalate_fromBase_ne_nil partsSome partsNotEmpty
  have resolved : slashedParts (resolve segments :: others) =
      [normal (['/'].intercalate (fromBase (slashedParts segments)))] ++ slashedParts others := by
    rw [slashedParts, List.map_cons, resolve_eq, String.toList_ofList, slashed_normal]
    rfl
  have appended :
      slashedParts (segments ++ others) = slashedParts segments ++ slashedParts others :=
    List.map_append
  rw [resolve_eq (_ :: _), resolve_eq (_ ++ _), resolved, appended]
  cases absolute : (slashedParts others).any startsAtRoot with
  | true => rw [fromBase_append_of_absolute absolute, fromBase_append_of_absolute absolute]
  | false =>
    rw [fromBase_append_of_relative partsSome absolute,
      fromBase_append_of_relative (List.cons_ne_nil _ _) absolute,
      ← normal_intercalate_normal nonempty]
    rfl

theorem join_join_append {segments others : List String} (some : segments ≠ [])
    (notEmpty : segments ≠ [""]) :
    join (join segments :: others) = join (segments ++ others) := by
  have nonempty : ['/'].intercalate (segments.map String.toList) ≠ [] := by
    intro empty
    rcases eq_of_intercalate_eq_nil empty with none | single
    · exact some (List.map_eq_nil_iff.mp none)
    · rcases List.map_eq_singleton_iff.mp single with ⟨segment, rfl, noChars⟩
      exact notEmpty (by rw [String.toList_eq_nil_iff.mp noChars])
  rw [join.eq_def (_ :: _), join.eq_def (_ ++ _), List.map_append,
    ← normal_intercalate_normal nonempty, List.map_cons, join, String.toList_ofList]

theorem resolve_append_base {base : String} (absolute : isRooted base.toList = true)
    (before after : List String) : resolve (before ++ base :: after) = resolve (base :: after) := by
  have some : (slashedParts (base :: after)).any startsAtRoot = true :=
    any_startsAtRoot_iff.mpr ⟨base, List.mem_cons_self, absolute⟩
  have appended : slashedParts (before ++ base :: after) =
      slashedParts before ++ slashedParts (base :: after) :=
    List.map_append
  rw [resolve_eq, appended, fromBase_append_of_absolute some, ← resolve_eq]

/-- Segments may be joined or resolved a few at a time, unless the first ones are none or an
empty one alone.  A relative path may be normalized before it is joined to another.  What
stands before an absolute segment does not count when segments are resolved. -/
theorem join_and_resolve_compose :
    (∀ segments others : List String, segments ≠ [] → segments ≠ [""] →
      join ([join segments] ++ others) = join (segments ++ others) ∧
      resolve ([resolve segments] ++ others) = resolve (segments ++ others)) ∧
    (∀ start path : String, isRooted path.toList = false →
      join [start, normalize path] = join [start, path]) ∧
    ∀ (before other after : List String) (base : String), isRooted base.toList = true →
      resolve (before ++ base :: after) = resolve (other ++ base :: after) := by
  refine ⟨?_, ?_, ?_⟩
  · intro segments others some notEmpty
    exact ⟨join_join_append some notEmpty, resolve_resolve_append some notEmpty⟩
  · intro start path relative
    have two : ∀ second : String, join [start, second] =
        String.ofList (normal (start.toList ++ '/' :: second.toList)) := by
      intro second
      simp [join, List.intercalate_cons_cons]
    rw [two, two, toList_normalize, normal_append_normal relative]
  · intro before other after base absolute
    rw [resolve_append_base absolute, resolve_append_base absolute]

/-- Where an early normal form has dropped names and kept a `..`, and where the empty segment
at the front makes the others absolute. -/
theorem join_and_resolve_compose_climbing :
    join [join ["a\\..", "..", ""], "..", "b"] = join ["a\\..", "..", "", "..", "b"] ∧
    resolve [resolve ["", "a"], "..\\b"] = resolve ["", "a", "..\\b"] ∧
    join ["", normalize "a/../.."] = join ["", "a/../.."] ∧
    resolve ["a", "\\b", "c"] = resolve ["\\b", "c"] :=
  ⟨(join_and_resolve_compose.1 ["a\\..", "..", ""] ["..", "b"] (by decide) (by decide)).1,
    (join_and_resolve_compose.1 ["", "a"] ["..\\b"] (by decide) (by decide)).2,
    join_and_resolve_compose.2.1 "" "a/../.." (by decide),
    join_and_resolve_compose.2.2 ["a"] [] ["c"] "\\b" (by decide)⟩

/-! ## Absolute results -/

theorem slashed_slashed (path : List Char) : slashed (slashed path) = slashed path :=
  Key.slashed_eq_self (no_backslash_slashed path)

theorem isRooted_slashed (path : List Char) : isRooted (slashed path) = isRooted path := by
  rw [← startsAtRoot_slashed, slashed_slashed, startsAtRoot_slashed]

theorem isRooted_of_startsAtRoot (absolute : startsAtRoot path = true) : isRooted path = true := by
  rw [startsAtRoot, decide_eq_true_iff] at absolute
  rw [isRooted, absolute]
  rfl

theorem isAbsolute_ofList_normal (path : List Char) :
    isAbsolute (String.ofList (normal path)) = isRooted path := by
  rw [isAbsolute, String.toList_ofList, ← slashed_normal, startsAtRoot_slashed, isRooted_normal]

/-- A row of segments begins as the first one does.  An empty one that is not alone leaves
its slash at the front. -/
theorem isRooted_intercalate_cons {part : List Char} {rest : List (List Char)} :
    isRooted (['/'].intercalate (part :: rest)) = true ↔
      isRooted part = true ∨ part = [] ∧ rest ≠ [] := by
  cases rest with
  | nil => simp
  | cons next others =>
    rw [List.intercalate_cons_cons, List.append_assoc]
    cases part with
    | nil => simp [isRooted, isSeparator]
    | cons c part => simp [isRooted]

/-- Segments resolve to an absolute path if one of them is absolute.  They also do if the
first one is empty and others follow: the slash between them is then the first character. -/
theorem resolve_absolute_iff (segments : List String) :
    isAbsolute (resolve segments) = true ↔
      (∃ segment ∈ segments, isRooted segment.toList = true) ∨
        ∃ second rest, segments = "" :: second :: rest := by
  rw [resolve_eq, isAbsolute_ofList_normal, ← any_startsAtRoot_iff]
  rcases fromBase_cases (slashedParts segments) with
    ⟨relative, all⟩ | ⟨before, base, after, parts_eq, absolute, from_eq⟩
  · rw [relative, all]
    cases segments with
    | nil => simp [slashedParts, isRooted]
    | cons segment rest =>
      have notRooted : isRooted segment.toList = false := by
        rw [slashedParts, List.map_cons, List.any_cons, startsAtRoot_slashed] at relative
        exact (Bool.or_eq_false_iff.mp relative).1
      rw [slashedParts, List.map_cons, isRooted_intercalate_cons, isRooted_slashed, notRooted,
        slashed_eq_nil_iff, String.toList_eq_nil_iff, Ne, List.map_eq_nil_iff, ← Ne,
        List.ne_nil_iff_exists_cons]
      simp
  · have rooted := isRooted_of_startsAtRoot absolute
    rw [from_eq]
    refine iff_of_true (isRooted_intercalate_cons.mpr (.inl rooted)) (.inl ?_)
    simp [parts_eq, absolute]

/-- None of the segments is absolute, and they resolve to an absolute path. -/
theorem resolve_absolute_of_relative :
    (∀ segment ∈ ["", "a"], isRooted segment.toList = false) ∧ resolve ["", "a"] = "/a" := by
  decide

end Path
end SaveTree
