import SaveTree.Host.Location
import SaveTree.Proofs.Path.Names

namespace SaveTree
namespace Host
namespace Location

/-!
# Where a path and its neighbours lead

A path with a last step leads where its parent leads, and then takes that step.
Between the two there may be `.` segments, which lead nowhere, and so there may
be behind the step.  A path beside another one leads to the same parent and then
takes its own name.

This is what is left of the texts of paths: everything after it speaks of walks.
-/

open Path (not_mem_of_mem_splitOn)

/-- The segments of a path that is given by its characters. -/
def segmentsOf (text : List Char) : List String :=
  ((text.splitOn '/').filter (· ≠ [])).map String.ofList

theorem segments_eq (path : String) : segments path = segmentsOf path.toList :=
  rfl

theorem segmentsOf_append (left right : List Char) :
    segmentsOf (left ++ '/' :: right) = segmentsOf left ++ segmentsOf right := by
  simp [segmentsOf, List.splitOn_append_cons_self]

theorem segmentsOf_slash (right : List Char) : segmentsOf ('/' :: right) = segmentsOf right :=
  segmentsOf_append [] right

theorem segmentsOf_intercalate {parts : List (List Char)} (clean : ∀ part ∈ parts, '/' ∉ part) :
    segmentsOf (['/'].intercalate parts) = (parts.filter (· ≠ [])).map String.ofList := by
  cases parts with
  | nil => rfl
  | cons part rest =>
    rw [segmentsOf, List.splitOn_intercalate '/' clean (List.cons_ne_nil part rest)]

theorem segmentsOf_name {name : List Char} (nonempty : name ≠ []) (clean : '/' ∉ name) :
    segmentsOf name = [String.ofList name] := by
  rw [segmentsOf, List.splitOn_eq_singleton clean]
  simp [nonempty]

/-! ## Cuts -/

/-- The segment that an origin stands for. -/
def Origin.segments : Origin → List String
  | .root | .unnamed => []
  | .dot => ["."]

/-- The characters of an origin. -/
def Origin.chars : Origin → List Char
  | .root => ['/']
  | .dot => ['.']
  | .unnamed => []

theorem Origin.toList_text (origin : Origin) : origin.text.toList = origin.chars := by
  cases origin <;> rfl

/-- What the first segment behind an origin may be.  A dot is followed by a slash,
and a path that begins without one begins with a name. -/
def Origin.Allows : Origin → Option String → Prop
  | .root, _ => True
  | .dot, first => first = none ∨ first = some ""
  | .unnamed, first => first ≠ some ""

/-- A cut as it comes from a path. -/
structure Cut.IsClean (cut : Cut) : Prop where
  no_slash : ∀ segment ∈ cut.backwards, '/' ∉ segment.toList
  allowed : cut.origin.Allows cut.backwards.getLast?

namespace Cut

/-- A path that is cut after fewer segments. -/
theorem IsClean.of_suffix {origin : Origin} {backwards shorter : List String}
    (clean : IsClean ⟨origin, backwards⟩) (suffix : shorter <:+ backwards) :
    IsClean ⟨origin, shorter⟩ where
  no_slash := fun segment member => clean.no_slash segment (suffix.subset member)
  allowed := by
    cases shorter with
    | nil =>
      cases origin with
      | root => trivial
      | dot => exact .inl rfl
      | unnamed => exact nofun
    | cons segment rest =>
      rcases suffix with ⟨longer, rfl⟩
      have same : (longer ++ segment :: rest).getLast? = (segment :: rest).getLast? := by
        rw [List.getLast?_append, List.getLast?_cons, Option.some_or]
      exact same ▸ clean.allowed

theorem no_slash_behind (origin : Origin) (body : List Char) :
    ∀ segment ∈ (behind origin body).backwards, '/' ∉ segment.toList := by
  intro segment member
  rw [behind, List.mem_reverse, List.mem_map] at member
  rcases member with ⟨part, split, rfl⟩
  rw [String.toList_ofList]
  exact not_mem_of_mem_splitOn split

theorem getLast?_behind (origin : Origin) (body : List Char) :
    (behind origin body).backwards.getLast? = (body.splitOn '/').head?.map String.ofList := by
  rw [behind, List.getLast?_reverse, List.head?_map]

/-- A text that does not begin with a slash begins with a segment. -/
theorem head?_splitOn_ne_nil {c : Char} (notSlash : c ≠ '/') (rest : List Char) :
    ((c :: rest).splitOn '/').head? ≠ some [] := by
  rw [List.splitOn_cons_eq_if_modifyHead, if_neg (by simpa using notSlash)]
  cases parts : rest.splitOn '/' with
  | nil => exact absurd parts (List.splitOn_ne_nil '/' rest)
  | cons first others => simp

theorem text_behind (origin : Origin) (body : List Char) :
    (behind origin body).text.toList = origin.text.toList ++ body := by
  have joined : ['/'].intercalate (body.splitOn '/') = body := List.intercalate_splitOn '/'
  have slash : "/".toList = ['/'] := rfl
  have same : String.toList ∘ String.ofList = id := funext fun part => String.toList_ofList
  rw [text, behind, String.toList_append, List.reverse_reverse, String.toList_intercalate,
    List.map_map, same, List.map_id, slash, joined]

theorem text_ofPath (path : String) : (ofPath path).text = path := by
  apply String.toList_inj.mp
  unfold ofPath
  split
  · rename_i body chars
    rw [text_behind, chars]
    rfl
  · rename_i chars
    rw [text_behind, chars]
    rfl
  · rename_i body chars
    rw [text_behind, chars]
    rfl
  · rw [text_behind]
    rfl

theorem isClean_ofPath {path : String} (nonempty : path ≠ "") : (ofPath path).IsClean := by
  unfold ofPath
  split
  · exact ⟨no_slash_behind _ _, trivial⟩
  · refine ⟨no_slash_behind _ _, ?_⟩
    exact .inr rfl
  · rename_i body chars
    refine ⟨no_slash_behind _ _, ?_⟩
    rw [getLast?_behind, List.splitOn_cons_eq_if_modifyHead]
    exact .inr rfl
  · rename_i notRoot notDot notSlash
    refine ⟨no_slash_behind _ _, ?_⟩
    rw [getLast?_behind]
    intro first
    rcases Option.map_eq_some_iff.mp first with ⟨part, head, empty⟩
    have partEmpty : part = [] := by simpa using congrArg String.toList empty
    subst partEmpty
    cases chars : path.toList with
    | nil => exact nonempty (String.toList_inj.mp chars)
    | cons c rest =>
      by_cases slash : c = '/'
      · exact notRoot rest (slash ▸ chars)
      · rw [chars] at head
        exact head?_splitOn_ne_nil slash rest head

/-- The characters of a cut behind its origin. -/
def body (cut : Cut) : List Char :=
  ['/'].intercalate (cut.backwards.reverse.map String.toList)

theorem toList_text (cut : Cut) : cut.text.toList = cut.origin.chars ++ cut.body := by
  rw [text, String.toList_append, String.toList_intercalate, Origin.toList_text]
  rfl

theorem segmentsOf_body {cut : Cut} (clean : cut.IsClean) :
    segmentsOf cut.body = cut.backwards.reverse.filter (· ≠ "") := by
  have noSlash : ∀ part ∈ cut.backwards.reverse.map String.toList, '/' ∉ part := by
    intro part member
    rcases List.mem_map.mp member with ⟨segment, inside, rfl⟩
    exact clean.no_slash segment (List.mem_reverse.mp inside)
  rw [body, segmentsOf_intercalate noSlash, List.filter_map, List.map_map]
  have same : String.ofList ∘ String.toList = id := funext fun segment => String.ofList_toList
  rw [same, List.map_id]
  apply List.filter_congr
  intro segment _
  simp

/-- A text of parts is empty, or begins with its first part and a slash behind it. -/
theorem intercalate_cons_cases (part : List Char) (rest : List (List Char)) :
    ['/'].intercalate (part :: rest) = part ∨
      ∃ later, ['/'].intercalate (part :: rest) = part ++ '/' :: later := by
  cases rest with
  | nil => exact .inl List.intercalate_singleton
  | cons second others =>
    refine .inr ⟨['/'].intercalate (second :: others), ?_⟩
    rw [List.intercalate_cons_cons, List.append_assoc, List.singleton_append]

/-- Behind a dot there is nothing or a slash. -/
theorem body_of_dot {backwards : List String} (clean : IsClean ⟨.dot, backwards⟩) :
    body ⟨.dot, backwards⟩ = [] ∨ ∃ later, body ⟨.dot, backwards⟩ = '/' :: later := by
  have first : backwards.reverse.head? = none ∨ backwards.reverse.head? = some "" := by
    rw [List.head?_reverse]
    exact clean.allowed
  unfold body
  dsimp only
  cases forwards : backwards.reverse with
  | nil => exact .inl rfl
  | cons segment rest =>
    rw [forwards] at first
    rcases first with none | empty
    · cases none
    · cases empty
      exact intercalate_cons_cases [] (rest.map String.toList)

theorem segments_text {cut : Cut} (clean : cut.IsClean) :
    segments cut.text = cut.origin.segments ++ cut.backwards.reverse.filter (· ≠ "") := by
  have inner := segmentsOf_body clean
  rw [segments_eq, toList_text, ← inner]
  rcases cut with ⟨origin, backwards⟩
  cases origin with
  | root => exact segmentsOf_slash _
  | unnamed => rfl
  | dot =>
    rcases body_of_dot clean with empty | ⟨later, slash⟩
    · have dot : segmentsOf ['.'] = ["."] := segmentsOf_name (by decide) (by decide)
      rw [empty]
      exact dot
    · rw [slash, segmentsOf_slash]
      exact segmentsOf_append ['.'] later

theorem isAbsolute_text {cut : Cut} (clean : cut.IsClean) :
    isAbsolute cut.text = true ↔ cut.origin = .root := by
  rw [isAbsolute, toList_text, decide_eq_true_iff]
  rcases cut with ⟨origin, backwards⟩
  cases origin with
  | root => exact ⟨fun _ => rfl, fun _ => rfl⟩
  | dot => exact ⟨nofun, nofun⟩
  | unnamed =>
    refine ⟨?_, nofun⟩
    intro slash
    have first : backwards.reverse.head? ≠ some "" := by
      rw [List.head?_reverse]
      exact clean.allowed
    have head : (body ⟨.unnamed, backwards⟩).head? = some '/' := slash
    unfold body at head
    dsimp only at head
    cases forwards : backwards.reverse with
    | nil =>
      rw [forwards] at head
      cases head
    | cons segment rest =>
      -- the slash would be the first character of the first segment
      have noSlash : '/' ∉ segment.toList :=
        clean.no_slash segment (List.mem_reverse.mp (forwards ▸ List.mem_cons_self))
      rw [forwards, List.map_cons] at head
      cases chars : segment.toList with
      | nil =>
        rw [forwards] at first
        exact absurd (congrArg some (String.toList_inj.mp chars)) first
      | cons c others =>
        have inside : c = '/' := by
          rcases intercalate_cons_cases segment.toList (rest.map String.toList) with whole | ⟨later, more⟩
          · rw [whole, chars] at head
            exact Option.some.inj head
          · rw [more, chars] at head
            exact Option.some.inj head
        exact absurd (chars ▸ inside ▸ List.mem_cons_self) noSlash

/-- A path that is cut earlier is a beginning of the path. -/
theorem text_isPrefix {origin : Origin} {backwards shorter : List String}
    (suffix : shorter <:+ backwards) :
    (text ⟨origin, shorter⟩).toList <+: (text ⟨origin, backwards⟩).toList := by
  rw [toList_text, toList_text, List.prefix_append_right_inj]
  rcases suffix with ⟨longer, rfl⟩
  by_cases none : shorter = []
  · subst none
    exact List.nil_prefix
  by_cases whole : longer = []
  · subst whole
    exact List.prefix_refl _
  have first : shorter.reverse.map String.toList ≠ [] := by simpa using none
  have second : longer.reverse.map String.toList ≠ [] := by simpa using whole
  rw [body, body, List.reverse_append, List.map_append, Path.intercalate_append first second]
  exact List.prefix_append _ _

end Cut

/-! ## A path and its parent -/

/-- Every segment is a `.`. -/
def AllDots (segments : List String) : Prop :=
  ∀ segment ∈ segments, segment = "."

theorem allDots_of_isIdle {idle : List String} (areIdle : ∀ segment ∈ idle, isIdle segment = true) :
    AllDots (idle.reverse.filter (· ≠ "")) := by
  intro segment member
  have parts := List.mem_filter.mp member
  have idleSegment := areIdle segment (List.mem_reverse.mp parts.1)
  simp only [isIdle, Bool.or_eq_true, decide_eq_true_eq] at idleSegment
  rcases idleSegment with empty | dot
  · simp [empty] at parts
  · exact dot

/-- The parent is a beginning of the path. -/
theorem parent?_isPrefix {path parent : String} (above : parent? path = some parent) :
    parent.toList <+: path.toList := by
  have whole := Cut.text_ofPath path
  unfold parent? at above
  split at above
  · rename_i origin step rest trimmed
    cases above
    cases cut : Cut.ofPath path with
    | mk start backwards =>
      rw [cut, Cut.trim] at trimmed
      injection trimmed with sameOrigin steps
      subst sameOrigin
      dsimp only at steps
      have shorter : rest.dropWhile isIdle <:+ backwards :=
        (List.dropWhile_suffix isIdle).trans
          ((List.suffix_cons step rest).trans (steps ▸ List.dropWhile_suffix isIdle))
      have beginning : (Cut.text ⟨start, rest.dropWhile isIdle⟩).toList <+: _ :=
        Cut.text_isPrefix shorter
      rw [← cut, whole] at beginning
      exact beginning
  · cases above
    exact List.nil_prefix
  · cases above

/-- What a path with a last step is made of. -/
structure Stepped (path parent step : String) (before behind : List String) : Prop where
  parent_eq : parent? path = some parent
  absolute_eq : isAbsolute parent = isAbsolute path
  segments_eq : segments path = segments parent ++ (before ++ step :: behind)
  dotsBefore : AllDots before
  dotsBehind : AllDots behind
  active : isIdle step = false
  clean : '/' ∉ step.toList

theorem isIdle_of_mem_takeWhile {segments : List String} :
    ∀ segment ∈ segments.takeWhile isIdle, isIdle segment = true := by
  exact List.all_eq_true.mp List.all_takeWhile

theorem isIdle_of_dropWhile_eq_cons {segments rest : List String} {step : String}
    (steps : segments.dropWhile isIdle = step :: rest) : isIdle step = false := by
  have first := List.head?_dropWhile_not isIdle segments
  rw [steps] at first
  exact first

/-- The parts of a path that has a last step. -/
theorem stepped_of_trim {path step : String} {rest : List String} (nonempty : path ≠ "")
    (steps : (Cut.ofPath path).trim.backwards = step :: rest) :
    ∃ parent before behind, Stepped path parent step before behind := by
  have clean := Cut.isClean_ofPath nonempty
  have whole := Cut.segments_text clean
  have absolute := Cut.isAbsolute_text clean
  rw [Cut.text_ofPath] at whole absolute
  cases cut : Cut.ofPath path with
  | mk origin backwards =>
    rw [cut] at clean whole absolute steps
    have trimmed : backwards.dropWhile isIdle = step :: rest := steps
    let above : Cut := ⟨origin, rest.dropWhile isIdle⟩
    have shorter : rest.dropWhile isIdle <:+ backwards :=
      (List.dropWhile_suffix isIdle).trans
        ((List.suffix_cons step rest).trans (trimmed ▸ List.dropWhile_suffix isIdle))
    have aboveClean : above.IsClean := clean.of_suffix shorter
    have first : backwards = backwards.takeWhile isIdle ++ step :: rest := by
      rw [← trimmed, List.takeWhile_append_dropWhile]
    have second : rest = rest.takeWhile isIdle ++ rest.dropWhile isIdle :=
      List.takeWhile_append_dropWhile.symm
    refine ⟨above.text, (rest.takeWhile isIdle).reverse.filter (· ≠ ""),
      (backwards.takeWhile isIdle).reverse.filter (· ≠ ""), ?_, ?_, ?_, ?_, ?_, ?_, ?_⟩
    · rw [parent?, cut, Cut.trim, trimmed]
      rfl
    · rw [Bool.eq_iff_iff, Cut.isAbsolute_text aboveClean, absolute]
    · have named : step ≠ "" := by
        rintro rfl
        cases isIdle_of_dropWhile_eq_cons trimmed
      have forwards : backwards.reverse = (rest.dropWhile isIdle).reverse ++
          ((rest.takeWhile isIdle).reverse ++ step :: (backwards.takeWhile isIdle).reverse) := by
        calc backwards.reverse = (backwards.takeWhile isIdle ++ step :: rest).reverse :=
              congrArg List.reverse first
          _ = rest.reverse ++ step :: (backwards.takeWhile isIdle).reverse := by simp
          _ = (rest.takeWhile isIdle ++ rest.dropWhile isIdle).reverse ++
              step :: (backwards.takeWhile isIdle).reverse := by rw [← second]
          _ = _ := by rw [List.reverse_append, List.append_assoc]
      rw [whole, Cut.segments_text aboveClean, List.append_assoc]
      simp [forwards, named, above]
    · exact allDots_of_isIdle isIdle_of_mem_takeWhile
    · exact allDots_of_isIdle isIdle_of_mem_takeWhile
    · exact isIdle_of_dropWhile_eq_cons trimmed
    · exact clean.no_slash step (first ▸ List.mem_append_right _ List.mem_cons_self)

/-- A path without a last step consists of dots. -/
theorem allDots_of_trim {path : String} (nonempty : path ≠ "")
    (steps : (Cut.ofPath path).trim.backwards = []) : AllDots (segments path) := by
  have clean := Cut.isClean_ofPath nonempty
  have whole := Cut.segments_text clean
  rw [Cut.text_ofPath] at whole
  have idle : ∀ segment ∈ (Cut.ofPath path).backwards, isIdle segment = true := by
    have all : (Cut.ofPath path).backwards.takeWhile isIdle = (Cut.ofPath path).backwards := by
      have split : (Cut.ofPath path).backwards.takeWhile isIdle ++
          (Cut.ofPath path).trim.backwards = (Cut.ofPath path).backwards :=
        List.takeWhile_append_dropWhile
      rwa [steps, List.append_nil] at split
    exact all ▸ isIdle_of_mem_takeWhile
  rw [whole]
  intro segment member
  rcases List.mem_append.mp member with lead | behind
  · cases origin : (Cut.ofPath path).origin with
    | dot =>
      rw [origin] at lead
      exact List.mem_singleton.mp lead
    | root => rw [origin] at lead; cases lead
    | unnamed => rw [origin] at lead; cases lead
  · exact allDots_of_isIdle idle segment behind

/-! ## Paths below and beside another one -/

/-- A path below another one leads on from where that one leads. -/
theorem segments_join (base relative : String) :
    segments (join base relative) = segments base ++ segments relative := by
  rw [segments_eq, segments_eq, segments_eq, join]
  split
  · rename_i direct
    rw [String.toList_append]
    rcases direct with empty | slash
    · subst empty
      rfl
    · rw [endsWithSlash, decide_eq_true_iff, List.getLast?_eq_some_iff] at slash
      rcases slash with ⟨front, ends⟩
      rw [ends, List.append_assoc, List.singleton_append, segmentsOf_append, segmentsOf_append]
      simp [segmentsOf]
  · rw [String.toList_append, String.toList_append, List.append_assoc]
    exact segmentsOf_append base.toList relative.toList

theorem segments_name {name : String} (nonempty : name ≠ "") (clean : '/' ∉ name.toList) :
    segments name = [name] := by
  rw [segments_eq, segmentsOf_name (fun empty => nonempty (String.toList_inj.mp empty)) clean,
    String.ofList_toList]

/-- A path below another one continues its text. -/
theorem isPrefix_join (base relative : String) : base.toList <+: (join base relative).toList := by
  rw [join]
  split
  · rw [String.toList_append]
    exact List.prefix_append _ _
  · rw [String.toList_append, String.toList_append, List.append_assoc]
    exact List.prefix_append _ _

theorem isAbsolute_join_of_ne {base : String} (nonempty : base ≠ "") (relative : String) :
    isAbsolute (join base relative) = isAbsolute base := by
  rcases isPrefix_join base relative with ⟨rest, text⟩
  rw [isAbsolute, isAbsolute, ← text]
  cases chars : base.toList with
  | nil => exact absurd (String.toList_inj.mp chars) nonempty
  | cons c others => rfl

theorem isAbsolute_join {base name : String} (clean : '/' ∉ name.toList) :
    isAbsolute (join base name) = isAbsolute base := by
  by_cases empty : base = ""
  · subst empty
    have relative : name.toList.head? ≠ some '/' := fun slash =>
      clean (List.mem_of_mem_head? slash)
    rw [join, if_pos (.inl rfl), String.empty_append, isAbsolute, decide_eq_false relative]
    rfl
  · exact isAbsolute_join_of_ne empty name

/-- A path with a file name has it as its last step. -/
theorem stepped_of_fileName {path name : String} (named : fileName? path = some name) :
    ∃ parent before behind, Stepped path parent name before behind ∧ name ≠ ".." := by
  have nonempty : path ≠ "" := by
    rintro rfl
    cases named
  unfold fileName? at named
  cases steps : (Cut.ofPath path).trim.backwards with
  | nil =>
    rw [steps] at named
    cases named
  | cons step rest =>
    rw [steps] at named
    dsimp only [List.head?_cons] at named
    split at named
    · cases named
    · rename_i notUp
      cases named
      rcases stepped_of_trim nonempty steps with ⟨parent, before, behind, stepped⟩
      refine ⟨parent, before, behind, stepped, ?_⟩
      rintro rfl
      exact notUp rfl

/-- A path without a file name goes up last or not at all. -/
theorem stepped_of_no_fileName {path : String} (nonempty : path ≠ "")
    (unnamed : fileName? path = none) :
    AllDots (segments path) ∨ ∃ parent before behind, Stepped path parent ".." before behind := by
  unfold fileName? at unnamed
  cases steps : (Cut.ofPath path).trim.backwards with
  | nil => exact .inl (allDots_of_trim nonempty steps)
  | cons step rest =>
    rw [steps] at unnamed
    dsimp only [List.head?_cons] at unnamed
    split at unnamed
    · rename_i up
      cases up
      exact .inr (stepped_of_trim nonempty steps)
    · cases unnamed

end Location
end Host
end SaveTree
