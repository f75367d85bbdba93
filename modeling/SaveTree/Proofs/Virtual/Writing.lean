import SaveTree.Proofs.Virtual.Atomicity

namespace SaveTree

/-!
# Where a file can be written

A file is refused if there is a file above it or a directory in its place, and for
nothing else: not even a tree is needed.  Where it is written, it can be written again
and is read as it was written last.

All calls of a write up to the first put are look-ups.  So whoever has written a file,
with whatever server, could put something in the state they began with.
-/

open Program Key

namespace Catalog

variable {catalog : Catalog} {key place : String}

/-- Why no file can be put at a key: the uppermost file above it, or a directory that
stands there. -/
def refusal? (catalog : Catalog) (key : String) : Option FsError :=
  match (chain (parent key)).find? catalog.isFile with
  | some place => some (.notADirectory place)
  | none => if catalog.get? key = some .directory then some (.conflict key) else none

theorem refusal?_of_file {passed rest : List String} (above : chain (parent key) = passed ++ place :: rest)
    (clear : ∀ upper ∈ passed, catalog.isFile upper = false) (file : catalog.isFile place = true) :
    catalog.refusal? key = some (.notADirectory place) := by
  have found : (chain (parent key)).find? catalog.isFile = some place := by
    apply List.find?_eq_some_iff_append.mpr
    refine ⟨file, passed, rest, above, ?_⟩
    intro upper member
    rw [clear upper member]
    rfl
  rw [refusal?, found]

theorem refusal?_of_clear (canonical : Canonical key)
    (clear : ∀ above, isBelow above key = true → catalog.isFile above = false) :
    catalog.refusal? key = if catalog.get? key = some .directory then some (.conflict key) else none := by
  have none : (chain (parent key)).find? catalog.isFile = none := by
    apply List.find?_eq_none.mpr
    intro place member file
    rw [clear place ((mem_chain_parent_iff canonical).mp member)] at file
    cases file
  rw [refusal?, none]

theorem clear_of_refusal? (clear : catalog.refusal? key = none) :
    (chain (parent key)).find? catalog.isFile = none ∧ catalog.get? key ≠ some .directory := by
  rw [refusal?] at clear
  split at clear
  · cases clear
  · rename_i noFile
    refine ⟨noFile, ?_⟩
    intro directory
    rw [if_pos directory] at clear
    cases clear

theorem isFile_furnish (catalog : Catalog) (places : List String) :
    (catalog.furnish places).isFile = catalog.isFile := by
  induction places generalizing catalog with
  | nil => rfl
  | cons place places ih => rw [furnish_cons, ih, Virtual.isFile_furnishAt]

/-- With a file under a key, and the directories above it. -/
def withFile (catalog : Catalog) (key : String) (content : Content) : Catalog :=
  (catalog.furnish (chain (parent key))).put ⟨key, .file content⟩

theorem get?_withFile (catalog : Catalog) (key : String) (content : Content) :
    (catalog.withFile key content).get? key = some (.file content) := by
  rw [withFile, get?_put, if_pos rfl]

/-- Where a file was put, another one can be put in its place. -/
theorem refusal?_withFile (canonical : Canonical key) (clear : catalog.refusal? key = none)
    (content : Content) : (catalog.withFile key content).refusal? key = none := by
  rw [refusal?_of_clear canonical, get?_withFile, if_neg]
  · intro directory
    cases directory
  · intro above below
    have inside := (mem_chain_parent_iff canonical).mpr below
    have notFile := List.find?_eq_none.mp (clear_of_refusal? clear).1 above inside
    have different : above ≠ key := by
      rintro rfl
      rw [not_isBelow_self] at below
      cases below
    rw [isFile, withFile, get?_put, if_neg different, ← isFile, isFile_furnish]
    exact Bool.eq_false_iff.mpr notFile

end Catalog

namespace Virtual

open Catalog

variable {catalog after : Catalog} {path key : String} {content : Content}

/-- A file that is not refused is put. -/
theorem attempt_putFile (canonical : Canonical key) (clear : catalog.refusal? key = none)
    (content : Content) :
    attempt Store.memory (putFile key content) catalog = (.ok (), catalog.withFile key content) := by
  rcases clear_of_refusal? clear with ⟨noFile, free⟩
  have walked : attempt Store.memory (ensureDirectories (parent key)) catalog =
      (.ok (), catalog.furnish (chain (parent key))) := by
    rw [ensureDirectories_eq, attempt_forM_ensurePlace, noFile]
  rw [putFile, attempt_bind_of_ok walked, attempt_bind_of_ok (Store.attempt_get _ key),
    get?_furnish_parent canonical]
  cases found : catalog.get? key with
  | none => rfl
  | some node =>
    cases node with
    | file old => rfl
    | directory => exact absurd found free

/-- A file that is put was not refused. -/
theorem refusal?_of_putFile (canonical : Canonical key)
    (puts : attempt Store.memory (putFile key content) catalog = (.ok (), after)) :
    catalog.refusal? key = none := by
  have walk := attempt_forM_ensurePlace (chain (parent key)) catalog
  rw [← ensureDirectories_eq] at walk
  cases found : (chain (parent key)).find? catalog.isFile with
  | some place =>
    rw [found] at walk
    rw [putFile, attempt_bind_of_error walk] at puts
    cases puts
  | none =>
    rw [found] at walk
    rw [putFile, attempt_bind_of_ok walk, attempt_bind_of_ok (Store.attempt_get _ key),
      get?_furnish_parent canonical] at puts
    rw [refusal?, found]
    dsimp only
    rw [if_neg]
    intro directory
    rw [directory] at puts
    cases puts

/-! ## Writing through any server -/

section

variable {σ : Type} {serve : (call : Store.Call) → StateM σ (Except FsError call.Answer)}
  {state final : σ} {text : String}

theorem attempt_require (admitted : require path = .ok key) :
    attempt serve (liftM (require path) : Session String) state = (.ok key, state) := by
  rw [attempt_lift, admitted]

/-- A text is read as it is stored. -/
theorem attempt_readText (admitted : require path = .ok key)
    (stored : catalog.get? key = some (.file (.text text))) :
    attempt Store.memory (perform (.readText path)) catalog = (.ok (.text text), catalog) := by
  have read : attempt Store.memory (readText path) catalog = (.ok text, catalog) := by
    rw [readText, attempt_bind_of_ok (attempt_require admitted),
      attempt_bind_of_ok (attempt_contentAt_of_file stored)]
    rfl
  exact attempt_bind_of_ok read

theorem attempt_writeText (admitted : require path = .ok key)
    (puts : attempt serve (putFile key (.text text)) state = (.ok (), final)) :
    attempt serve (perform (.writeText path text)) state = (.ok .done, final) := by
  have written : attempt serve (writeFile path (.text text)) state = (.ok (), final) :=
    (attempt_bind_of_ok (attempt_require admitted)).trans puts
  exact attempt_bind_of_ok written

theorem exists_putFile_of_writeText {answer : Answer}
    (writes : attempt serve (perform (.writeText path text)) state = (.ok answer, final)) :
    ∃ key, require path = .ok key ∧ attempt serve (putFile key (.text text)) state = (.ok (), final) := by
  rcases attempt_bind_eq_ok writes with ⟨_, between, written, last⟩
  cases last
  rcases attempt_bind_eq_ok written with ⟨key, start, looked, puts⟩
  rw [attempt_lift] at looked
  rcases Prod.mk.inj looked with ⟨admitted, rfl⟩
  exact ⟨key, admitted, puts⟩

/-- Something can be put. -/
def CanPut (serve : (call : Store.Call) → StateM σ (Except FsError call.Answer)) (state : σ) : Prop :=
  ∃ entry next, attempt serve (Session.put entry) state = (.ok (), next)

variable (looks : ∀ place, ∃ found, attempt serve (Session.get place) state = (.ok found, state))
include looks

theorem canPut_of_ensurePlace {place : String}
    (ensured : attempt serve (ensurePlace place) state = (.ok (), final)) :
    final = state ∨ CanPut serve state := by
  rcases looks place with ⟨found, looked⟩
  rw [ensurePlace, attempt_bind_of_ok looked] at ensured
  cases found with
  | none => exact .inr ⟨_, final, ensured⟩
  | some node =>
    cases node with
    | file content => cases ensured
    | directory =>
      cases ensured
      exact .inl rfl

theorem canPut_of_forM {places : List String}
    (ensured : attempt serve (places.forM ensurePlace) state = (.ok (), final)) :
    final = state ∨ CanPut serve state := by
  induction places with
  | nil =>
    cases ensured
    exact .inl rfl
  | cons place places ih =>
    have unfolded : (place :: places).forM ensurePlace =
        (ensurePlace place >>= fun _ => places.forM ensurePlace) := rfl
    rw [unfolded] at ensured
    rcases attempt_bind_eq_ok ensured with ⟨_, between, first, rest⟩
    rcases canPut_of_ensurePlace looks first with rfl | puts
    · exact ih rest
    · exact .inr puts

/-- Whoever has put a file could put something to begin with, if only a directory. -/
theorem canPut_of_putFile (puts : attempt serve (putFile key content) state = (.ok (), final)) :
    CanPut serve state := by
  rcases attempt_bind_eq_ok puts with ⟨_, between, walked, last⟩
  rcases canPut_of_forM looks walked with rfl | canPut
  · rcases looks key with ⟨found, looked⟩
    rw [attempt_bind_of_ok looked] at last
    split at last
    · cases last
    · exact ⟨_, final, last⟩
  · exact canPut

end

end Virtual
end SaveTree
