import SaveTree.Proofs.Key.Steps

namespace SaveTree
namespace Path

/-!
# Normal forms of paths

A path moves whoever follows it.  From any place, which is the list of names that lead
there, it leads to another one: an empty segment and `.` stay, `..` goes one name back if
there is one, and every other segment goes one name on.  Here a backslash separates
segments as well as a slash does, and a path that begins with a separator leaves the
place at once and begins at the root.

The normal form of a path is followed to the same places.  It is also the only one:
two paths that begin alike and lead to the same places from everywhere have the same
normal form.  Two places are enough to tell how often a path goes back before it goes
on, namely the root and a place that is deep enough.
-/

/-- Stands between the segments of a path. -/
def isSeparator (c : Char) : Bool :=
  c = '/' || c = '\\'

/-- Begins with a separator. -/
def isRooted (path : List Char) : Bool :=
  path.head?.any isSeparator

/-- The place that one segment leads to. -/
def enter (place : List (List Char)) (segment : List Char) : List (List Char) :=
  if segment = [] ∨ segment = ['.'] then place
  else if segment = ['.', '.'] then place.dropLast
  else place ++ [segment]

/-- The place that a path leads to. -/
def walk (path : List Char) (place : List (List Char)) : List (List Char) :=
  (path.splitOnP isSeparator).foldl enter (if isRooted path then [] else place)

variable {absolute : Bool} {stack segments names place : List (List Char)} {segment : List Char}

/-! ## Segments -/

theorem splitOn_slashed (path : List Char) :
    (slashed path).splitOn '/' = path.splitOnP isSeparator := by
  induction path with
  | nil => rfl
  | cons c rest ih =>
    have step : slashed (c :: rest) = (if c = '\\' then '/' else c) :: slashed rest := rfl
    rw [step, List.splitOn_cons_eq_if_modifyHead, List.splitOnP_cons_eq_if_modifyHead, ih]
    by_cases back : c = '\\'
    · simp [back, isSeparator]
    · by_cases slash : c = '/' <;> simp [back, slash, isSeparator]

theorem startsAtRoot_slashed (path : List Char) : startsAtRoot (slashed path) = isRooted path := by
  cases path with
  | nil => rfl
  | cons c rest =>
    by_cases back : c = '\\'
    · simp [startsAtRoot, slashed, isRooted, isSeparator, back]
    · by_cases slash : c = '/' <;> simp [startsAtRoot, slashed, isRooted, isSeparator, back, slash]

/-- The text of names has these names for segments. -/
theorem splitOnP_intercalate (nonempty : names ≠ [])
    (clean : ∀ name ∈ names, '/' ∉ name ∧ '\\' ∉ name) :
    (['/'].intercalate names).splitOnP isSeparator = names := by
  have noBackslash : '\\' ∉ ['/'].intercalate names :=
    Key.not_mem_intercalate (by decide) fun name member => (clean name member).2
  rw [← splitOn_slashed, Key.slashed_eq_self noBackslash,
    List.splitOn_intercalate '/' (fun name member => (clean name member).1) nonempty]

/-! ## Steps of a walk -/

@[simp]
theorem enter_nil (place : List (List Char)) : enter place [] = place :=
  rfl

@[simp]
theorem enter_dot (place : List (List Char)) : enter place ['.'] = place :=
  rfl

@[simp]
theorem enter_dots (place : List (List Char)) : enter place dots = place.dropLast :=
  rfl

theorem enter_name (isName : IsName segment) : enter place segment = place ++ [segment] := by
  simp [enter, isName.nonempty, isName.not_dot, isName.not_dots]

theorem foldl_enter_names (areNames : ∀ name ∈ names, IsName name) :
    names.foldl enter place = place ++ names := by
  induction names generalizing place with
  | nil => simp
  | cons name rest ih =>
    rw [List.foldl_cons, enter_name (areNames name List.mem_cons_self),
      ih fun other member => areNames other (.tail _ member), List.append_assoc]
    rfl

/-- Going back cuts a place, down to the root at most. -/
theorem foldl_enter_dots (climbed : Nat) (place : List (List Char)) :
    (List.replicate climbed dots).foldl enter place = place.take (place.length - climbed) := by
  induction climbed generalizing place with
  | zero => simp
  | succ more ih =>
    rw [List.replicate_succ, List.foldl_cons, enter_dots, ih, List.dropLast_eq_take, List.take_take,
      List.length_take]
    congr 1
    omega

/-- The stack of a walk, followed from the place where the walk began, leads where the
walk has led. -/
theorem foldl_enter_visit (isStack : IsStack absolute stack) (atRoot : absolute = true → place = []) :
    (visit absolute stack segment).reverse.foldl enter place =
      enter (stack.reverse.foldl enter place) segment := by
  rcases isStack with ⟨climbed, names, rfl, areNames, fromRoot⟩
  unfold visit
  by_cases stays : segment = [] ∨ segment = ['.']
  · rw [if_pos stays]
    rcases stays with rfl | rfl <;> simp
  rw [if_neg stays]
  by_cases undoes : segment = ['.', '.']
  · rw [if_pos undoes, undoes]
    cases names with
    | cons top below =>
      have topIsName := areNames top List.mem_cons_self
      rw [List.cons_append]
      dsimp only
      rw [if_pos topIsName.not_dots, List.reverse_cons, List.foldl_append, List.foldl_cons,
        List.foldl_nil, enter_name topIsName]
      exact List.dropLast_concat.symm
    | nil =>
      cases absolute with
      | true =>
        -- the root has no place to go back to
        cases fromRoot rfl
        rw [atRoot rfl]
        rfl
      | false =>
        have followed : (dots :: List.replicate climbed dots).reverse.foldl enter place =
            enter ((List.replicate climbed dots).reverse.foldl enter place) dots := by
          rw [List.reverse_cons, List.foldl_append]
          rfl
        cases climbed <;> exact followed
  · rw [if_neg undoes, List.reverse_cons, List.foldl_append]
    rfl

theorem foldl_enter_foldl_visit (isStack : IsStack absolute stack)
    (atRoot : absolute = true → place = [])
    (clean : ∀ segment ∈ segments, '/' ∉ segment ∧ '\\' ∉ segment) :
    (segments.foldl (visit absolute) stack).reverse.foldl enter place =
      segments.foldl enter (stack.reverse.foldl enter place) := by
  induction segments generalizing stack with
  | nil => rfl
  | cons segment rest ih =>
    have here := clean segment List.mem_cons_self
    rw [List.foldl_cons, List.foldl_cons, ← foldl_enter_visit isStack atRoot]
    exact ih (visit_isStack isStack here.1 here.2) fun other member => clean other (.tail _ member)

/-! ## Paths and their normal forms -/

/-- A path leads where the names lead that it leaves. -/
theorem walk_eq (path : List Char) (place : List (List Char)) :
    walk path place = (namesOf path).foldl enter (if isRooted path then [] else place) := by
  have clean : ∀ segment ∈ (slashed path).splitOn '/', '/' ∉ segment ∧ '\\' ∉ segment := by
    intro segment member
    refine ⟨not_mem_of_mem_splitOn member, fun inside => ?_⟩
    exact no_backslash_slashed path (mem_of_mem_splitOn member inside)
  have start : IsStack (startsAtRoot (slashed path)) [] :=
    ⟨0, [], rfl, nofun, fun _ => rfl⟩
  have atRoot : startsAtRoot (slashed path) = true → (if isRooted path then [] else place) = [] := by
    intro rooted
    rw [startsAtRoot_slashed] at rooted
    rw [if_pos rooted]
  rw [walk, namesOf, Path.names, foldl_enter_foldl_visit start atRoot clean, splitOn_slashed]
  rfl

theorem isRooted_spell (clean : ∀ name ∈ names, name ≠ [] ∧ '/' ∉ name ∧ '\\' ∉ name) :
    isRooted (spell absolute names) = absolute := by
  cases absolute with
  | true => rfl
  | false =>
    cases names with
    | nil => rfl
    | cons name rest =>
      rcases clean name List.mem_cons_self with ⟨nonempty, noSlash, noBackslash⟩
      cases name with
      | nil => exact absurd rfl nonempty
      | cons c name =>
        have notSlash : c ≠ '/' := fun same => noSlash (same ▸ List.mem_cons_self)
        have notBackslash : c ≠ '\\' := fun same => noBackslash (same ▸ List.mem_cons_self)
        simp [spell, List.intercalate_cons_cons_left, isRooted, isSeparator, notSlash, notBackslash]

/-- The text of names leads where the names lead. -/
theorem walk_spell (clean : ∀ name ∈ names, name ≠ [] ∧ '/' ∉ name ∧ '\\' ∉ name)
    (place : List (List Char)) :
    walk (spell absolute names) place = names.foldl enter (if absolute then [] else place) := by
  rw [walk, isRooted_spell clean]
  by_cases none : names = []
  · subst none
    cases absolute <;> rfl
  · have split := splitOnP_intercalate none fun name member => (clean name member).2
    have some : ['/'].intercalate names ≠ [] := by
      rw [Ne, intercalate_eq_nil_iff fun name member => (clean name member).1]
      exact none
    cases absolute with
    | true =>
      have cut : (spell true names).splitOnP isSeparator = [] :: names := by
        have text : spell true names = '/' :: ['/'].intercalate names := rfl
        rw [text, List.splitOnP_cons_eq_if_modifyHead, split]
        rfl
      rw [cut]
      rfl
    | false =>
      have text : spell false names = ['/'].intercalate names := by
        rw [spell, if_neg Bool.false_ne_true, if_neg some]
      rw [text, split]

theorem clean_namesOf (path : List Char) :
    ∀ name ∈ namesOf path, name ≠ [] ∧ '/' ∉ name ∧ '\\' ∉ name := by
  intro name member
  rcases namesOf_eq path with ⟨climbed, rest, names_eq, areNames, _⟩
  rw [names_eq] at member
  rcases List.mem_append.mp member with climbs | later
  · rw [List.eq_of_mem_replicate climbs]
    decide
  · have isName := areNames name later
    exact ⟨isName.nonempty, isName.no_slash, isName.no_backslash⟩

theorem isRooted_normal (path : List Char) : isRooted (normal path) = isRooted path := by
  rw [normal_eq, isRooted_spell (clean_namesOf path), startsAtRoot_slashed]

/-- The normal form of a path leads where the path leads. -/
theorem walk_normal (path : List Char) (place : List (List Char)) :
    walk (normal path) place = walk path place := by
  rw [normal_eq, walk_spell (clean_namesOf path), startsAtRoot_slashed, ← walk_eq]

/-! ## Uniqueness -/

/-- Where a path leads tells how often it goes back and along which names it goes on.
The names are seen from the root, and a place with as many names as both paths go back
is left with as many as the other one goes back. -/
theorem climb_unique {climbed climbedOther : Nat} {namesOther : List (List Char)}
    (areNames : ∀ name ∈ names, IsName name) (areOther : ∀ name ∈ namesOther, IsName name)
    (same : ∀ place, (∀ name ∈ place, IsName name) →
      (List.replicate climbed dots ++ names).foldl enter place =
        (List.replicate climbedOther dots ++ namesOther).foldl enter place) :
    climbed = climbedOther ∧ names = namesOther := by
  simp only [List.foldl_append, foldl_enter_dots, foldl_enter_names areNames,
    foldl_enter_names areOther] at same
  have names_eq : names = namesOther := by simpa using same [] nofun
  refine ⟨?_, names_eq⟩
  have isName : IsName ['a'] := ⟨by decide, by decide, by decide, by decide, by decide⟩
  have lengths := congrArg List.length (same (List.replicate (climbed + climbedOther) ['a'])
    fun name member => List.eq_of_mem_replicate member ▸ isName)
  simp only [names_eq, List.length_append, List.length_take, List.length_replicate] at lengths
  omega

/-- Paths that begin alike and lead to the same places have the same normal form. -/
theorem normal_eq_of_walk {first second : List Char} (alike : isRooted first = isRooted second)
    (same : ∀ place, (∀ name ∈ place, IsName name) → walk first place = walk second place) :
    normal first = normal second := by
  rcases namesOf_eq first with ⟨climbed, names, names_eq, areNames, atRoot⟩
  rcases namesOf_eq second with ⟨climbedOther, namesOther, other_eq, areOther, otherAtRoot⟩
  simp only [walk_eq, names_eq, other_eq, alike] at same
  rw [startsAtRoot_slashed] at atRoot otherAtRoot
  rw [normal_eq, normal_eq, startsAtRoot_slashed, startsAtRoot_slashed, alike, names_eq, other_eq]
  cases rooted : isRooted second with
  | true =>
    cases atRoot (alike.trans rooted)
    cases otherAtRoot rooted
    have fromRoot := same [] nofun
    simp only [List.replicate_zero, List.nil_append, foldl_enter_names areNames,
      foldl_enter_names areOther, ite_self] at fromRoot
    rw [fromRoot]
  | false =>
    simp only [rooted, Bool.false_eq_true, if_false] at same
    rcases climb_unique areNames areOther same with ⟨rfl, rfl⟩
    rfl

@[simp]
theorem toList_normalize (path : String) : (normalize path).toList = normal path.toList :=
  String.toList_ofList

/-- The normal form of a path leads where the path leads, from every place, and it is the
same for two paths exactly if both or neither of them begin at the root and they lead to
the same places.  Places made of names are enough to tell.  A normal form is its own
normal form. -/
theorem normalize_canonical_form :
    (∀ path place, walk (normalize path).toList place = walk path.toList place) ∧
    (∀ first second, normalize first = normalize second ↔
      isRooted first.toList = isRooted second.toList ∧
        ∀ place, walk first.toList place = walk second.toList place) ∧
    (∀ first second, isRooted first.toList = isRooted second.toList →
      (∀ place, (∀ name ∈ place, IsName name) →
        walk first.toList place = walk second.toList place) →
      normalize first = normalize second) ∧
    ∀ path, normalize (normalize path) = normalize path := by
  have sound : ∀ path place, walk (normalize path).toList place = walk path.toList place := by
    intro path place
    rw [toList_normalize, walk_normal]
  have complete : ∀ first second, isRooted first.toList = isRooted second.toList →
      (∀ place, (∀ name ∈ place, IsName name) →
        walk first.toList place = walk second.toList place) →
      normalize first = normalize second := by
    intro first second alike same
    exact congrArg String.ofList (normal_eq_of_walk alike same)
  have rooted : ∀ path, isRooted (normalize path).toList = isRooted path.toList := by
    intro path
    rw [toList_normalize, isRooted_normal]
  refine ⟨sound, ?_, complete, fun path => complete _ _ (rooted path) fun place _ => sound path place⟩
  intro first second
  constructor
  · intro equal
    refine ⟨by rw [← rooted first, equal, rooted], fun place => ?_⟩
    rw [← sound first, equal, sound]
  · rintro ⟨alike, same⟩
    exact complete first second alike fun place _ => same place

example : normalize "..\\a//.././../b" = "../../b" := by decide

end Path
end SaveTree
