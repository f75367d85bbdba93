import SaveTree.Proofs.Key.Canonical

namespace SaveTree
namespace Key

open Path

/-!
# Keys as steps

A disk knows a place by the names that lead there, and a save tree knows it by a
key.  A key is the text of its steps, and this module says for steps what is known
of keys: which keys are above which, what the parent and the chain of a key are,
and how a key moves along with a directory.
-/

/-- The text of steps. -/
def text (steps : List String) : String :=
  ofNames (steps.map String.toList)

/-- The steps that lead from the root to a key. -/
def steps (key : String) : List String :=
  (segments key).map String.ofList

/-- Every step is a name. -/
def AreNames (steps : List String) : Prop :=
  ∀ step ∈ steps, IsName step.toList

variable {upper lower rest : List String} {key above path name : String}

theorem AreNames.of_beginning (areNames : AreNames lower) (beginning : upper <+: lower) :
    AreNames upper :=
  fun step member => areNames step (beginning.subset member)

theorem areNames_append_iff : AreNames (upper ++ lower) ↔ AreNames upper ∧ AreNames lower := by
  constructor
  · intro both
    exact ⟨fun step member => both step (List.mem_append_left _ member),
      fun step member => both step (List.mem_append_right _ member)⟩
  · rintro ⟨first, second⟩ step member
    rcases List.mem_append.mp member with early | late
    · exact first step early
    · exact second step late

theorem AreNames.toList (areNames : AreNames upper) :
    ∀ name ∈ upper.map String.toList, IsName name := by
  intro name member
  rcases List.mem_map.mp member with ⟨step, inside, rfl⟩
  exact areNames step inside

theorem map_ofList_toList (steps : List String) :
    (steps.map String.toList).map String.ofList = steps := by
  have same : String.ofList ∘ String.toList = id := funext fun step => String.ofList_toList
  rw [List.map_map, same, List.map_id]

@[simp]
theorem text_nil : text [] = "" :=
  rfl

@[simp]
theorem text_singleton (name : String) : text [name] = name := by
  rw [text, ofNames, List.map_cons, List.map_nil, List.intercalate_singleton, String.ofList_toList]

/-! ## Steps and texts -/

/-- A text of steps without slashes has these steps. -/
theorem steps_text (nonempty : ∀ step ∈ upper, step ≠ "")
    (noSlash : ∀ step ∈ upper, '/' ∉ step.toList) : steps (text upper) = upper := by
  rw [steps, text, segments_ofNames, map_ofList_toList]
  · intro name member
    rcases List.mem_map.mp member with ⟨step, inside, rfl⟩
    exact fun empty => nonempty step inside (String.toList_inj.mp empty)
  · intro name member
    rcases List.mem_map.mp member with ⟨step, inside, rfl⟩
    exact noSlash step inside

theorem ne_empty_of_isName (isName : IsName name.toList) : name ≠ "" := by
  rintro rfl
  exact isName.nonempty rfl

theorem AreNames.ne_empty (areNames : AreNames upper) : ∀ step ∈ upper, step ≠ "" :=
  fun step member => ne_empty_of_isName (areNames step member)

theorem AreNames.steps_text (areNames : AreNames upper) : steps (text upper) = upper :=
  Key.steps_text areNames.ne_empty fun step member => (areNames step member).no_slash

theorem AreNames.getLast?_steps_text (areNames : AreNames (upper ++ [name])) :
    (steps (text (upper ++ [name]))).getLast? = some name := by
  rw [areNames.steps_text, List.getLast?_concat]

theorem text_injective (areUpper : AreNames upper) (areLower : AreNames lower)
    (same : text upper = text lower) : upper = lower := by
  rw [← areUpper.steps_text, same, areLower.steps_text]

theorem text_eq_empty_iff (nonempty : ∀ step ∈ upper, step ≠ "") : text upper = "" ↔ upper = [] := by
  rw [text, ofNames_eq_empty_iff, List.map_eq_nil_iff]
  intro name member
  rcases List.mem_map.mp member with ⟨step, inside, rfl⟩
  exact fun empty => nonempty step inside (String.toList_inj.mp empty)

theorem toList_text_append (first : upper ≠ []) (second : lower ≠ []) :
    (text (upper ++ lower)).toList = (text upper).toList ++ '/' :: (text lower).toList := by
  rw [text, text, text, toList_ofNames, toList_ofNames, toList_ofNames, List.map_append]
  exact intercalate_append (by simpa using first) (by simpa using second)

/-- One step further is one name behind a slash. -/
theorem text_concat (nonempty : ∀ step ∈ upper, step ≠ "") (name : String) :
    text (upper ++ [name]) = if text upper = "" then name else text upper ++ "/" ++ name := by
  have empty_iff := text_eq_empty_iff nonempty
  by_cases top : upper = []
  · rw [if_pos (empty_iff.mpr top), top, List.nil_append, text_singleton]
  · rw [if_neg (fun empty => top (empty_iff.mp empty))]
    apply String.toList_inj.mp
    rw [toList_text_append top (List.cons_ne_nil name []), text_singleton, String.toList_append,
      String.toList_append, List.append_assoc]
    rfl

/-- A text has at least one byte for each step. -/
theorem length_le_utf8ByteSize_text (nonempty : ∀ step ∈ upper, step ≠ "") :
    upper.length ≤ (text upper).utf8ByteSize := by
  induction upper with
  | nil => exact Nat.zero_le _
  | cons name others ih =>
    have later := ih fun step member => nonempty step (.tail _ member)
    have first : name.utf8ByteSize ≠ 0 := by
      rw [Ne, String.utf8ByteSize_eq_zero_iff]
      exact nonempty name List.mem_cons_self
    by_cases last : others = []
    · rw [last, text_singleton, List.length_singleton]
      omega
    · have parts : text ([name] ++ others) = name ++ ("/" ++ text others) := by
        apply String.toList_inj.mp
        rw [toList_text_append (List.cons_ne_nil name []) last, text_singleton, String.toList_append,
          String.toList_append]
        rfl
      rw [List.singleton_append] at parts
      rw [parts, String.utf8ByteSize_append, String.utf8ByteSize_append, List.length_cons]
      omega

theorem AreNames.length_text_lt (areNames : AreNames (upper ++ [name])) :
    (text upper).length < (text (upper ++ [name])).length := by
  have first : 0 < name.length := by
    rw [← String.length_toList, List.length_pos_iff]
    exact (areNames name List.mem_concat_self).nonempty
  rw [text_concat (areNames_append_iff.mp areNames).1.ne_empty]
  split
  · rename_i empty
    rw [empty]
    exact first
  · rw [String.length_append, String.length_append]
    omega

/-! ## Canonical keys -/

theorem canonical_text (nonempty : upper ≠ []) (areNames : AreNames upper) :
    Canonical (text upper) :=
  canonical_ofNames (by simpa using nonempty) areNames.toList

/-- A canonical key is the text of its steps. -/
theorem Canonical.exists_steps (canonical : Canonical key) :
    ∃ steps, steps ≠ [] ∧ AreNames steps ∧ key = text steps := by
  rcases canonical.exists_names with ⟨names, nonempty, areNames, rfl⟩
  have same : String.toList ∘ String.ofList = id := funext fun name => String.toList_ofList
  refine ⟨names.map String.ofList, by simpa using nonempty, ?_, ?_⟩
  · intro step member
    rcases List.mem_map.mp member with ⟨name, inside, rfl⟩
    rw [String.toList_ofList]
    exact areNames name inside
  · rw [text, List.map_map, same, List.map_id]

/-- The keys above a key are the proper beginnings of its steps. -/
theorem isBelow_text_iff (areNames : AreNames lower) :
    isBelow above (text lower) = true ↔
      ∃ upper, upper ≠ [] ∧ upper <+: lower ∧ upper ≠ lower ∧ above = text upper := by
  rw [text, isBelow_ofNames_iff areNames.toList]
  constructor
  · rintro ⟨names, nonempty, ⟨others, split⟩, proper, rfl⟩
    have cut := congrArg (List.map String.ofList) split
    rw [map_ofList_toList, List.map_append] at cut
    have back : (names.map String.ofList).map String.toList = names := by
      have same : String.toList ∘ String.ofList = id := funext fun name => String.toList_ofList
      rw [List.map_map, same, List.map_id]
    refine ⟨names.map String.ofList, by simpa using nonempty, ⟨_, cut⟩, ?_, ?_⟩
    · intro whole
      rw [← whole, back] at proper
      exact proper rfl
    · rw [text, back]
  · rintro ⟨upper, nonempty, ⟨others, rfl⟩, proper, rfl⟩
    refine ⟨upper.map String.toList, by simpa using nonempty, ?_, ?_, rfl⟩
    · rw [List.map_append]
      exact List.prefix_append _ _
    · intro whole
      rw [List.map_append] at whole
      have none : others = [] := by simpa using whole
      exact proper (by rw [none, List.append_nil])

theorem isBelow_text_text_iff (areUpper : AreNames upper) (areLower : AreNames lower)
    (nonempty : upper ≠ []) :
    isBelow (text upper) (text lower) = true ↔ upper <+: lower ∧ upper ≠ lower := by
  rw [isBelow_text_iff areLower]
  constructor
  · rintro ⟨other, _, beginning, proper, same⟩
    cases text_injective areUpper (areLower.of_beginning beginning) same
    exact ⟨beginning, proper⟩
  · rintro ⟨beginning, proper⟩
    exact ⟨upper, nonempty, beginning, proper, rfl⟩

/-- A key below another one takes some more steps. -/
theorem exists_steps_of_isBelow (areUpper : AreNames upper) (nonempty : upper ≠ [])
    (canonical : Canonical key) (below : isBelow (text upper) key = true) :
    ∃ rest, rest ≠ [] ∧ AreNames (upper ++ rest) ∧ key = text (upper ++ rest) := by
  rcases canonical.exists_steps with ⟨lower, _, areLower, rfl⟩
  rcases (isBelow_text_text_iff areUpper areLower nonempty).mp below with ⟨⟨rest, rfl⟩, proper⟩
  refine ⟨rest, ?_, areLower, rfl⟩
  rintro rfl
  exact proper (List.append_nil upper).symm

theorem isBelow_text_append (areNames : AreNames (upper ++ rest)) (first : upper ≠ [])
    (second : rest ≠ []) : isBelow (text upper) (text (upper ++ rest)) = true := by
  apply (isBelow_text_text_iff (areNames_append_iff.mp areNames).1 areNames first).mpr
  refine ⟨List.prefix_append upper rest, ?_⟩
  intro whole
  exact second (List.append_right_eq_self.mp whole.symm)

/-- What is below a directory, or below the root, goes at least one step further. -/
theorem isInside_text_iff (areUpper : AreNames upper) (canonical : Canonical key) :
    (text upper = "" ∨ isBelow (text upper) key = true) ↔
      ∃ first rest, AreNames (upper ++ first :: rest) ∧ key = text (upper ++ first :: rest) := by
  have empty_iff := text_eq_empty_iff areUpper.ne_empty
  constructor
  · intro inside
    have further : ∃ rest, rest ≠ [] ∧ AreNames (upper ++ rest) ∧ key = text (upper ++ rest) := by
      by_cases top : upper = []
      · subst top
        exact canonical.exists_steps
      · have below := inside.resolve_left fun empty => top (empty_iff.mp empty)
        exact exists_steps_of_isBelow areUpper top canonical below
    rcases further with ⟨rest, nonempty, areNames, key_eq⟩
    rcases List.exists_cons_of_ne_nil nonempty with ⟨first, others, rfl⟩
    exact ⟨first, others, areNames, key_eq⟩
  · rintro ⟨first, rest, areNames, rfl⟩
    by_cases top : upper = []
    · exact .inl (empty_iff.mpr top)
    · exact .inr (isBelow_text_append areNames top (List.cons_ne_nil first rest))

theorem parent_text_concat (isName : IsName name.toList) :
    parent (text (upper ++ [name])) = text upper := by
  rw [text, List.map_append]
  exact parent_ofNames_concat isName

/-- What is right below a directory, or right below the root, goes one step further. -/
theorem parent_eq_text_iff (areUpper : AreNames upper) (canonical : Canonical key) :
    parent key = text upper ↔ ∃ name, AreNames [name] ∧ key = text (upper ++ [name]) := by
  constructor
  · intro above
    rcases canonical.exists_steps with ⟨lower, nonempty, areNames, rfl⟩
    rcases List.eq_nil_or_concat lower with empty | ⟨others, last, rfl⟩
    · exact absurd empty nonempty
    · rw [List.concat_eq_append] at above areNames ⊢
      rcases areNames_append_iff.mp areNames with ⟨areOthers, isName⟩
      rw [parent_text_concat (isName last (List.mem_singleton_self last))] at above
      exact ⟨last, isName, by rw [text_injective areOthers areUpper above]⟩
  · rintro ⟨name, isName, rfl⟩
    exact parent_text_concat (isName name (List.mem_singleton_self name))

theorem beginnings_map {α β : Type} (f : α → β) (list : List α) :
    beginnings (list.map f) = (beginnings list).map (List.map f) := by
  induction list with
  | nil => rfl
  | cons a rest ih =>
    rw [List.map_cons, beginnings, beginnings, List.map_cons, List.map_map, ih, List.map_map]
    rfl

/-- The chain of a key are the beginnings of its steps. -/
theorem chain_text (areNames : AreNames upper) :
    chain (text upper) = (beginnings upper).map text := by
  rw [text, chain_ofNames areNames.toList, beginnings_map, List.map_map]
  rfl

/-- A key that is moved with a directory keeps its steps from there on. -/
theorem rebase_text {source target : List String} (first : source ≠ []) (second : target ≠ [])
    (rest : List String) :
    rebase (text source) (text target) (text (source ++ rest)) = text (target ++ rest) := by
  apply String.toList_inj.mp
  rw [rebase, String.toList_ofList]
  by_cases whole : rest = []
  · rw [whole, List.append_nil, List.append_nil, List.drop_length, List.append_nil]
  · rw [toList_text_append first whole, toList_text_append second whole, List.drop_left]

/-! ## Keys of paths -/

/-- Walking names puts them on the stack. -/
theorem foldl_visit_names {absolute : Bool} {names stack : List (List Char)}
    (areNames : ∀ name ∈ names, IsName name) :
    names.foldl (visit absolute) stack = names.reverse ++ stack := by
  induction names generalizing stack with
  | nil => rfl
  | cons name others ih =>
    have isName := areNames name List.mem_cons_self
    have pushed : visit absolute stack name = name :: stack := by
      unfold visit
      rw [if_neg (not_or.mpr ⟨isName.nonempty, isName.not_dot⟩), if_neg isName.not_dots]
    rw [List.foldl_cons, pushed, ih fun other member => areNames other (.tail _ member),
      List.reverse_cons, List.append_assoc, List.singleton_append]

theorem slashed_eq_self {chars : List Char} (clean : '\\' ∉ chars) : slashed chars = chars := by
  have same : ∀ c ∈ chars, (if c = '\\' then '/' else c) = id c := by
    intro c member
    have different : c ≠ '\\' := by
      rintro rfl
      exact clean member
    exact if_neg different
  rw [slashed, List.map_congr_left same, List.map_id]

theorem not_mem_intercalate {parts : List (List Char)} {mark c : Char} (notMark : c ≠ mark)
    (absent : ∀ part ∈ parts, c ∉ part) : c ∉ [mark].intercalate parts := by
  induction parts with
  | nil => simp
  | cons first others ih =>
    have later := ih fun part member => absent part (.tail _ member)
    cases others with
    | nil => simpa using absent first List.mem_cons_self
    | cons second more =>
      rw [List.intercalate_cons_cons, List.append_assoc]
      have here := absent first List.mem_cons_self
      simpa [here, notMark] using later

/-- A canonical key is its own key. -/
theorem ofPath_text (areNames : AreNames upper) : ofPath (text upper) = text upper := by
  have clean : '\\' ∉ (text upper).toList := by
    rw [text, toList_ofNames]
    exact not_mem_intercalate (by decide) fun part member => (areNames.toList part member).no_backslash
  by_cases none : upper = []
  · rw [none]
    rfl
  have some : upper.map String.toList ≠ [] := by simpa using none
  have split := splitOn_ofNames some fun name member => (areNames.toList name member).no_slash
  have left : namesOf (text upper).toList = upper.map String.toList := by
    rw [namesOf, names, slashed_eq_self clean, text, split, foldl_visit_names areNames.toList,
      List.append_nil, List.reverse_reverse]
  rw [ofPath_eq, left]
  rfl

/-- A path that does not climb has a key below the root, or the root's. -/
theorem exists_steps_of_stays (stays : climbs (ofPath path) = false) :
    ∃ steps, AreNames steps ∧ ofPath path = text steps := by
  rcases namesOf_eq path.toList with ⟨climbed, rest, names_eq, areNames, _⟩
  rw [ofPath_eq, names_eq] at stays ⊢
  cases climbed with
  | succ more =>
    rw [List.replicate_succ, List.cons_append, climbs_ofNames_cons] at stays
    cases stays
  | zero =>
    by_cases root : rest = []
    · subst root
      refine ⟨[], ?_, rfl⟩
      intro step member
      cases member
    · rcases (canonical_ofNames root areNames).exists_steps with ⟨steps, _, areSteps, same⟩
      exact ⟨steps, areSteps, same⟩

/-- Names do not climb. -/
theorem climbs_ofNames {names : List (List Char)} (areNames : ∀ name ∈ names, IsName name) :
    climbs (ofNames names) = false := by
  apply Bool.eq_false_iff.mpr
  intro climbing
  by_cases none : names = []
  · subst none
    cases climbing
  have split := splitOn_ofNames none fun name member => (areNames name member).no_slash
  have first : dots ∈ (ofNames names).toList.splitOn '/' := by
    rw [climbs, Bool.or_eq_true, decide_eq_true_iff, List.isPrefixOf_iff_prefix] at climbing
    rcases climbing with whole | ⟨rest, text⟩
    · rw [whole]
      decide
    · have cut : "../".toList ++ rest = dots ++ '/' :: rest := rfl
      rw [← text, cut, List.splitOn_append_cons_self]
      exact List.mem_append_left _ (by decide)
  rw [split] at first
  exact (areNames dots first).not_dots rfl

/-- The key of a path is admitted if it is neither the root's nor above it. -/
theorem require_eq_ok_iff :
    require path = .ok key ↔ key = ofPath path ∧ ofPath path ≠ "" ∧ climbs (ofPath path) = false := by
  rw [require]
  by_cases root : ofPath path = ""
  · simp [root]
  · cases climbs (ofPath path) <;> simp [root, eq_comm]

theorem require_text (areNames : AreNames upper) (nonempty : upper ≠ []) :
    require (text upper) = .ok (text upper) := by
  rw [require_eq_ok_iff, ofPath_text areNames,
    Ne, text_eq_empty_iff areNames.ne_empty]
  exact ⟨rfl, nonempty, climbs_ofNames areNames.toList⟩

/-- A canonical key is admitted as it is. -/
theorem Canonical.require_eq (canonical : Canonical key) : require key = .ok key := by
  rcases canonical.exists_steps with ⟨steps, nonempty, areNames, rfl⟩
  exact require_text areNames nonempty

/-- A key climbs if the normal form of its path does. -/
theorem climbs_normalize (path : String) : climbs (Path.normalize path) = climbs (ofPath path) := by
  rcases namesOf_eq path.toList with ⟨climbed, rest, names_eq, areNames, atRoot⟩
  rw [Path.normalize, normal_eq, ofPath_eq, spell]
  cases absolute : startsAtRoot (slashed path.toList) with
  | true =>
    cases atRoot absolute
    rw [names_eq, List.replicate_zero, List.nil_append, climbs_ofNames areNames, if_pos rfl, climbs]
    have notDots : String.ofList ('/' :: ['/'].intercalate rest) ≠ ".." := by
      intro same
      have chars := congrArg String.toList same
      rw [String.toList_ofList] at chars
      cases chars
    rw [decide_eq_false notDots, String.toList_ofList, String.toList_ofList]
    rfl
  | false =>
    rw [if_neg Bool.false_ne_true, ofNames]
    split
    · rename_i empty
      rw [empty]
      rfl
    · rfl

end Key
end SaveTree
