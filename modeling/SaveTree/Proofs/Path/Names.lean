import SaveTree.Path.Basic

namespace SaveTree
namespace Path

/-!
# The names that a walk leaves

A name is a segment that goes one place deeper and that every path spells the
same way: it is not empty, not `.` and not `..`, and it has no slash and no
backslash in it.  Walking the segments of any path leaves some `..` followed by
names, and no `..` if the path begins at the root.

The text of names is their intercalation with slashes.  It can be split into the
same names again, so a text stands for one list of names only.
-/

/-- A segment that goes one place deeper. -/
structure IsName (segment : List Char) : Prop where
  nonempty : segment ≠ []
  not_dot : segment ≠ ['.']
  not_dots : segment ≠ ['.', '.']
  no_slash : '/' ∉ segment
  no_backslash : '\\' ∉ segment

/-- The segment that undoes the step before it. -/
def dots : List Char := ['.', '.']

/-! ## Splitting a text at its slashes -/

/-- No segment holds the character at which the text was split. -/
theorem not_mem_of_mem_splitOn {mark : Char} {text segment : List Char}
    (member : segment ∈ text.splitOn mark) : mark ∉ segment := by
  induction text generalizing segment with
  | nil =>
    rw [List.splitOn_nil, List.mem_singleton] at member
    subst member
    exact List.not_mem_nil
  | cons c rest ih =>
    rw [List.splitOn_cons_eq_if_modifyHead] at member
    by_cases same : c = mark
    · rw [if_pos (beq_iff_eq.mpr same)] at member
      rcases List.mem_cons.mp member with empty | later
      · subst empty
        exact List.not_mem_nil
      · exact ih later
    · rw [if_neg (fun equal => same (beq_iff_eq.mp equal))] at member
      cases parts : rest.splitOn mark with
      | nil => exact absurd parts (List.splitOn_ne_nil mark rest)
      | cons first others =>
        rw [parts, List.modifyHead_cons] at member
        rcases List.mem_cons.mp member with head | later
        · subst head
          have clean := ih (parts ▸ List.mem_cons_self)
          intro inside
          rcases List.mem_cons.mp inside with equal | inside
          · exact same equal.symm
          · exact clean inside
        · exact ih (parts ▸ List.mem_cons_of_mem first later)

/-- The characters of an intercalation are those of its parts and the slashes
between them. -/
theorem mem_intercalate_of_mem {text : List Char} {parts : List (List Char)} {c : Char}
    (member : text ∈ parts) (inside : c ∈ text) : c ∈ ['/'].intercalate parts := by
  induction parts with
  | nil => cases member
  | cons first rest ih =>
    cases rest with
    | nil =>
      rw [List.mem_singleton] at member
      rw [List.intercalate_singleton]
      exact member ▸ inside
    | cons second others =>
      rw [List.intercalate_cons_cons]
      rcases List.mem_cons.mp member with same | later
      · exact List.mem_append_left _ (List.mem_append_left _ (same ▸ inside))
      · exact List.mem_append_right _ (ih later)

/-- The characters of a segment are characters of the text. -/
theorem mem_of_mem_splitOn {text segment : List Char} {c : Char}
    (member : segment ∈ text.splitOn '/') (inside : c ∈ segment) : c ∈ text := by
  have joined : ['/'].intercalate (text.splitOn '/') = text := List.intercalate_splitOn '/'
  rw [← joined]
  exact mem_intercalate_of_mem member inside

/-- Two texts one behind the other, with a slash between them. -/
theorem intercalate_append {left right : List (List Char)} (leftNonempty : left ≠ [])
    (rightNonempty : right ≠ []) :
    ['/'].intercalate (left ++ right) =
      ['/'].intercalate left ++ '/' :: ['/'].intercalate right := by
  induction left with
  | nil => exact absurd rfl leftNonempty
  | cons first rest ih =>
    cases rest with
    | nil =>
      rw [List.singleton_append, List.intercalate_cons_of_ne_nil rightNonempty,
        List.intercalate_singleton]
      simp
    | cons second others =>
      have later := ih (List.cons_ne_nil second others)
      rw [List.cons_append, List.intercalate_cons_of_ne_nil (by simp), later,
        List.intercalate_cons_cons]
      simp

/-- A text ends as its last part does. -/
theorem getLast?_intercalate_concat (parts : List (List Char)) {last : List Char}
    (nonempty : last ≠ []) :
    (['/'].intercalate (parts ++ [last])).getLast? = last.getLast? := by
  by_cases alone : parts = []
  · rw [alone, List.nil_append, List.intercalate_singleton]
  · rw [intercalate_append alone (List.cons_ne_nil last []), List.intercalate_singleton,
      List.getLast?_append, List.getLast?_cons, List.getLast?_eq_some_getLast nonempty]
    rfl

/-- Nonempty parts have a nonempty text. -/
theorem intercalate_eq_nil_iff {parts : List (List Char)} (nonempty : ∀ part ∈ parts, part ≠ []) :
    ['/'].intercalate parts = [] ↔ parts = [] := by
  constructor
  · intro empty
    cases parts with
    | nil => rfl
    | cons first rest =>
      have headEmpty : first = [] := by
        cases rest with
        | nil => simpa using empty
        | cons second others =>
          rw [List.intercalate_cons_cons, List.append_assoc] at empty
          exact (List.append_eq_nil_iff.mp empty).1
      exact absurd headEmpty (nonempty first List.mem_cons_self)
  · intro empty
    rw [empty, List.intercalate_nil]

/-! ## What a walk leaves -/

/-- The stack of a walk: names above some `..`, and none of these if the walk
began at the root. -/
def IsStack (absolute : Bool) (stack : List (List Char)) : Prop :=
  ∃ (climbed : Nat) (names : List (List Char)),
    stack = names ++ List.replicate climbed dots ∧
    (∀ name ∈ names, IsName name) ∧ (absolute = true → climbed = 0)

/-- One step of a walk leaves a stack. -/
theorem visit_isStack {absolute : Bool} {stack : List (List Char)} {segment : List Char}
    (isStack : IsStack absolute stack) (noSlash : '/' ∉ segment) (noBackslash : '\\' ∉ segment) :
    IsStack absolute (visit absolute stack segment) := by
  rcases isStack with ⟨climbed, names, rfl, areNames, atRoot⟩
  unfold visit
  by_cases stays : segment = [] ∨ segment = ['.']
  · rw [if_pos stays]
    exact ⟨climbed, names, rfl, areNames, atRoot⟩
  · rw [if_neg stays]
    by_cases undoes : segment = ['.', '.']
    · rw [if_pos undoes]
      cases names with
      | cons top below =>
        -- a name is on top of the stack, and `..` takes it off
        have topIsName := areNames top List.mem_cons_self
        rw [List.cons_append]
        dsimp only
        rw [if_pos topIsName.not_dots]
        exact ⟨climbed, below, rfl, fun name member => areNames name (.tail _ member), atRoot⟩
      | nil =>
        cases absolute with
        | true =>
          have none := atRoot rfl
          subst none
          exact ⟨0, [], rfl, areNames, atRoot⟩
        | false =>
          refine ⟨climbed + 1, [], ?_, areNames, nofun⟩
          subst undoes
          cases climbed with
          | zero => rfl
          | succ more => rfl
    · rw [if_neg undoes]
      have isName : IsName segment :=
        ⟨fun empty => stays (Or.inl empty), fun dot => stays (Or.inr dot), undoes, noSlash,
          noBackslash⟩
      refine ⟨climbed, segment :: names, rfl, ?_, atRoot⟩
      intro name member
      rcases List.mem_cons.mp member with same | later
      · exact same ▸ isName
      · exact areNames name later

/-- A walk along segments without slashes leaves a stack. -/
theorem foldl_visit_isStack {absolute : Bool} {segments stack : List (List Char)}
    (isStack : IsStack absolute stack)
    (clean : ∀ segment ∈ segments, '/' ∉ segment ∧ '\\' ∉ segment) :
    IsStack absolute (segments.foldl (visit absolute) stack) := by
  induction segments generalizing stack with
  | nil => exact isStack
  | cons segment rest ih =>
    have here := clean segment List.mem_cons_self
    apply ih (visit_isStack isStack here.1 here.2)
    exact fun other member => clean other (.tail _ member)

/-- The names that a path leaves, outermost first. -/
def namesOf (path : List Char) : List (List Char) :=
  names (startsAtRoot (slashed path)) ((slashed path).splitOn '/')

theorem no_backslash_slashed (path : List Char) : '\\' ∉ slashed path := by
  intro member
  rcases List.mem_map.mp member with ⟨c, _, equal⟩
  by_cases back : c = '\\'
  · rw [if_pos back] at equal
    cases equal
  · rw [if_neg back] at equal
    exact back equal

/-- A path leaves some `..` followed by names. -/
theorem namesOf_eq (path : List Char) :
    ∃ (climbed : Nat) (rest : List (List Char)),
      namesOf path = List.replicate climbed dots ++ rest ∧
      (∀ name ∈ rest, IsName name) ∧ (startsAtRoot (slashed path) = true → climbed = 0) := by
  have clean : ∀ segment ∈ (slashed path).splitOn '/', '/' ∉ segment ∧ '\\' ∉ segment := by
    intro segment member
    refine ⟨not_mem_of_mem_splitOn member, fun inside => ?_⟩
    exact no_backslash_slashed path (mem_of_mem_splitOn member inside)
  have start : IsStack (startsAtRoot (slashed path)) [] :=
    ⟨0, [], rfl, nofun, fun _ => rfl⟩
  rcases foldl_visit_isStack start clean with ⟨climbed, left, stack_eq, areNames, atRoot⟩
  refine ⟨climbed, left.reverse, ?_, fun name member => areNames name (List.mem_reverse.mp member),
    atRoot⟩
  rw [namesOf, names, stack_eq, List.reverse_append, List.reverse_replicate]

/-- What a path leaves is nonempty and free of slashes, segment by segment. -/
theorem of_mem_namesOf {path segment : List Char} (member : segment ∈ namesOf path) :
    segment ≠ [] ∧ segment ≠ ['.'] ∧ '/' ∉ segment := by
  rcases namesOf_eq path with ⟨climbed, rest, names_eq, areNames, _⟩
  rw [names_eq] at member
  rcases List.mem_append.mp member with climbs | later
  · rw [List.eq_of_mem_replicate climbs]
    decide
  · have isName := areNames segment later
    exact ⟨isName.nonempty, isName.not_dot, isName.no_slash⟩

/-- The normal form of a path is the spelling of the names that it leaves. -/
theorem normal_eq (path : List Char) :
    normal path = spell (startsAtRoot (slashed path)) (namesOf path) :=
  rfl

end Path
end SaveTree
