import SaveTree.Proofs.Path.Joining
import SaveTree.Proofs.Path.Parts

namespace SaveTree

/-!
# Backslashes and slashes

A path is normalized with slashes in the place of its backslashes, and so are joined and
resolved ones and the key of a path.  All of these are the same for a path and for the path
with slashes only.

The functions that take a path apart see a backslash as a character like any other.  They
tell the two paths apart as soon as there is a backslash where they look: at the front, in
the last name, or in the directory.
-/

namespace Path

variable {path name : List Char} {upper : Option (List Char)}

/-- The path with slashes in the place of its backslashes. -/
def forward (path : String) : String :=
  String.ofList (slashed path.toList)

@[simp]
theorem toList_forward (path : String) : (forward path).toList = slashed path.toList :=
  String.toList_ofList

/-! ## Normalizing -/

theorem normal_slashed (path : List Char) : normal (slashed path) = normal path := by
  rw [normal, slashed_slashed, normal]

theorem slashed_append (first second : List Char) :
    slashed (first ++ second) = slashed first ++ slashed second :=
  List.map_append

theorem slashed_intercalate (parts : List (List Char)) :
    slashed (['/'].intercalate parts) = ['/'].intercalate (parts.map slashed) := by
  induction parts with
  | nil => rfl
  | cons part rest ih =>
    cases rest with
    | nil => simp
    | cons next others =>
      rw [List.intercalate_cons_cons, slashed_append, slashed_append, ih, List.map_cons,
        List.map_cons, List.map_cons, List.intercalate_cons_cons]
      rfl

theorem normalize_forward (path : String) : normalize (forward path) = normalize path := by
  rw [normalize, toList_forward, normal_slashed, normalize]

theorem join_forward (segments : List String) : join (segments.map forward) = join segments := by
  have parts : (segments.map forward).map String.toList =
      (segments.map String.toList).map slashed := by
    simp [List.map_map, Function.comp_def]
  rw [join, parts, ← slashed_intercalate, normal_slashed, join]

theorem resolve_forward (segments : List String) :
    resolve (segments.map forward) = resolve segments := by
  have parts : slashedParts (segments.map forward) = slashedParts segments := by
    simp [slashedParts, slashed_slashed]
  rw [resolve_eq, parts, ← resolve_eq]

/-! ## Taking apart -/

theorem isAbsolute_forward (path : String) : isAbsolute (forward path) = isRooted path.toList := by
  rw [isAbsolute, toList_forward, startsAtRoot_slashed]

theorem isRooted_eq_startsAtRoot_iff :
    isRooted path = startsAtRoot path ↔ path.head? ≠ some '\\' := by
  cases path with
  | nil => simp [isRooted, startsAtRoot]
  | cons c rest => by_cases back : c = '\\' <;> simp [isRooted, startsAtRoot, isSeparator, back]

/-- A last name without backslashes is the last name of the path with slashes too. -/
theorem Parts.slashed (parts : Parts path upper name) (clean : '\\' ∉ name) :
    Parts (slashed path) (upper.map Path.slashed) name := by
  have name_eq : Path.slashed name = name := Key.slashed_eq_self clean
  have slashes_eq : ∀ {slashes : List Char}, (∀ c ∈ slashes, c = '/') →
      Path.slashed slashes = slashes := by
    intro slashes behind
    apply Key.slashed_eq_self
    intro back
    exact absurd (behind _ back) (by decide)
  cases parts with
  | alone noSlash behind =>
    rw [slashed_append, name_eq, slashes_eq behind]
    exact .alone noSlash behind
  | @below upper _ _ nonempty noSlash behind =>
    have text : Path.slashed ('/' :: name) = '/' :: Path.slashed name := rfl
    rw [slashed_append, slashed_append, text, name_eq, slashes_eq behind]
    exact .below nonempty noSlash behind

theorem no_backslash_lastName_slashed (path : List Char) : '\\' ∉ lastName (slashed path) := by
  rcases exists_parts (slashed path) with ⟨upper, name, parts⟩
  rw [parts.lastName_eq]
  exact fun inside => no_backslash_slashed path (parts.subset inside)

theorem lastName_slashed (clean : '\\' ∉ lastName path) :
    lastName (slashed path) = lastName path := by
  rcases exists_parts path with ⟨upper, name, parts⟩
  rw [parts.lastName_eq] at clean ⊢
  exact (parts.slashed clean).lastName_eq

/-- An ending without backslashes takes none away. -/
theorem mem_withoutEnding_iff {ending : List Char} (clean : '\\' ∉ ending) :
    '\\' ∈ withoutEnding ending name ↔ '\\' ∈ name := by
  rw [withoutEnding]
  split
  next ends =>
    rcases List.isSuffixOf_iff_suffix.mp ends with ⟨start, rfl⟩
    simp [clean]
  next => rfl

theorem toList_basename_none (path : String) :
    (basename path none).toList = lastName path.toList :=
  String.toList_ofList

theorem backslash_mem_basename_iff {path : String} {ending : Option String}
    (clean : ∀ text ∈ ending, '\\' ∉ text.toList) :
    '\\' ∈ (basename path ending).toList ↔ '\\' ∈ lastName path.toList := by
  rw [basename.eq_def, String.toList_ofList]
  cases ending with
  | none => rfl
  | some text => exact mem_withoutEnding_iff (clean text rfl)

/-- The base name is told apart exactly by backslashes in it. -/
theorem basename_forward_iff {path : String} {ending : Option String}
    (clean : ∀ text ∈ ending, '\\' ∉ text.toList) :
    basename (forward path) ending = basename path ending ↔
      '\\' ∉ (basename path none).toList := by
  rw [toList_basename_none, ← backslash_mem_basename_iff clean]
  constructor
  · intro same
    rw [← same, backslash_mem_basename_iff clean, toList_forward]
    exact no_backslash_lastName_slashed path.toList
  · intro noBackslash
    rw [backslash_mem_basename_iff clean] at noBackslash
    rw [basename.eq_def, toList_forward, lastName_slashed noBackslash, basename.eq_def]

theorem directory_map_slashed (upper : Option (List Char)) :
    directory (upper.map slashed) = slashed (directory upper) := by
  rcases upper with _ | (_ | ⟨c, rest⟩)
  · rfl
  · rfl
  · have text : slashed (c :: rest) = (if c = '\\' then '/' else c) :: slashed rest := rfl
    simp [directory, text]

theorem dirname_forward {path : String} (clean : '\\' ∉ (basename path none).toList) :
    dirname (forward path) = forward (dirname path) := by
  rcases exists_parts path.toList with ⟨upper, name, parts⟩
  rw [toList_basename_none, parts.lastName_eq] at clean
  have forwarded : Parts (forward path).toList (upper.map slashed) name := by
    rw [toList_forward]
    exact parts.slashed clean
  rw [parts.dirname_eq, forwarded.dirname_eq, directory_map_slashed, forward, String.toList_ofList]

theorem extname_forward {path : String} (clean : '\\' ∉ (basename path none).toList) :
    extname (forward path) = extname path := by
  rw [toList_basename_none] at clean
  rw [extname, toList_forward, lastName_slashed clean, extname]

end Path

namespace FsError

/-- The same failure, with another path if it quotes the path. -/
def requoted (path : String) : FsError → FsError
  | invalidPath _ => invalidPath path
  | failure => failure

end FsError

namespace Key

open Path

theorem require_forward (path : String) :
    require (forward path) = (require path).mapError (FsError.requoted (forward path)) := by
  have same : ofPath (forward path) = ofPath path := by
    rw [ofPath, toList_forward, normal_slashed, ofPath]
  rw [require, require, same]
  split
  · rfl
  · split
    · rfl
    · rfl

end Key

namespace Path

/-- A path and the path with slashes for backslashes have the same normal form and the same
key, or both are refused for the same reason.  The same holds of joined and resolved
segments.  The two are alike absolute or relative unless the path begins with a backslash, and they
have the same base name exactly if there is no backslash in it.  Then they have the same
extension, and the same directory up to the backslashes in it. -/
theorem separators_read_alike (path : String) (segments : List String) (ending : Option String)
    (clean : ∀ text ∈ ending, '\\' ∉ text.toList) :
    (normalize (forward path) = normalize path ∧
      Key.require (forward path) = (Key.require path).mapError (FsError.requoted (forward path))) ∧
    (join (segments.map forward) = join segments ∧
      resolve (segments.map forward) = resolve segments) ∧
    (isAbsolute (forward path) = isAbsolute path ↔ path.toList.head? ≠ some '\\') ∧
    (basename (forward path) ending = basename path ending ↔
      '\\' ∉ (basename path none).toList) ∧
    ('\\' ∉ (basename path none).toList →
      extname (forward path) = extname path ∧ dirname (forward path) = forward (dirname path)) := by
  refine ⟨⟨normalize_forward path, Key.require_forward path⟩,
    ⟨join_forward segments, resolve_forward segments⟩, ?_, basename_forward_iff clean, ?_⟩
  · rw [isAbsolute_forward, isAbsolute, isRooted_eq_startsAtRoot_iff]
  · exact fun named => ⟨extname_forward named, dirname_forward named⟩

/-- A path with backslashes in its directory only. -/
theorem separators_read_alike_below_directory :
    basename "..\\a/save.json" (some ".json") = basename "../a/save.json" (some ".json") ∧
    extname "..\\a/save.json" = extname "../a/save.json" ∧
    forward (dirname "..\\a/save.json") = dirname "../a/save.json" := by
  have named : '\\' ∉ (basename "..\\a/save.json" none).toList := by decide
  have path : forward "..\\a/save.json" = "../a/save.json" := by decide
  rcases separators_read_alike "..\\a/save.json" [] (some ".json") (by decide) with
    ⟨_, _, _, base, others⟩
  rw [path] at base others
  exact ⟨(base.mpr named).symm, (others named).1.symm, (others named).2.symm⟩

/-- The functions that take a path apart do not see a backslash as a separator. -/
theorem backslashes_not_separators :
    basename "a\\b.x" none ≠ basename (forward "a\\b.x") none ∧
    dirname "a\\b.x" ≠ dirname (forward "a\\b.x") ∧
    extname "a\\.x" ≠ extname (forward "a\\.x") ∧
    isAbsolute "\\a" ≠ isAbsolute (forward "\\a") := by
  decide

end Path
end SaveTree
