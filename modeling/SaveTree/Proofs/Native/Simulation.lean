import SaveTree.Proofs.Native.Listing
import SaveTree.Proofs.Native.Moving

namespace SaveTree

/-!
# Two trees that stay the same

A save tree in a directory of the host and one in a store are given the same
operations, from an empty directory and an empty store on.  After every operation
they are the same tree, whatever the operations returned.  They return the same as
well, as long as no path leads through a file or out of the root.
-/

/-- The paths that an operation is given. -/
def Operation.paths : Operation → List String
  | .writeText path _ | .write path _ | .readText path | .read path | .find path
  | .makeDirectory path _ | .list path _ | .remove path _ => [path]
  | .copy source target | .rename source target => [source, target]

namespace Native

open Host Location Machine Program Catalog

variable {root : String} {place : Place} {initial machine : Machine} {catalog : Catalog}
  {operation : Operation} {operations : List Operation}

/-- What operations below a root leave of a machine, one after the other. -/
def after (root : String) (operations : List Operation) (machine : Machine) : Machine :=
  operations.foldl (fun machine operation =>
    (attempt Machine.serve (perform root operation) machine).2) machine

/-- The host admits the paths that lead to the keys of the operation. -/
def Admitted (root : String) (operation : Operation) : Prop :=
  ∀ path ∈ operation.paths, Admits root path

/-- No path of the operation leads through a file, none that it looks for or lists
climbs, and it lists no directory in turn that has a longer path than the host admits. -/
structure Plain (root : String) (catalog : Catalog) (operation : Operation) : Prop where
  clear : ∀ path ∈ operation.paths, Clear catalog (Key.ofPath path)
  stays : Stays operation
  within : ∀ path, operation = .list path true → Within root catalog (Key.ofPath path)

/-- One operation on both sides. -/
theorem perform_inStep (follows : Follows root place initial machine catalog)
    (admitted : Admitted root operation) :
    InStep root place initial (Plain root catalog operation)
      (attempt Machine.serve (perform root operation) machine)
      (attempt Store.memory (Virtual.perform operation) catalog) := by
  cases operation with
  | writeText path text =>
    have written : InStep root place initial (Plain root catalog (.writeText path text))
        (attempt Machine.serve (writeFile root path (Content.text text).toBytes) machine)
        (attempt Store.memory (Virtual.writeFile path (.text text)) catalog) :=
      writeFile_inStep follows (admitted path (List.mem_singleton_self path))
    exact written.answer fun _ => Answer.done
  | write path bytes =>
    have written : InStep root place initial (Plain root catalog (.write path bytes))
        (attempt Machine.serve (writeFile root path (Content.bytes bytes).toBytes) machine)
        (attempt Store.memory (Virtual.writeFile path (.bytes bytes)) catalog) :=
      writeFile_inStep follows (admitted path (List.mem_singleton_self path))
    exact written.answer fun _ => Answer.done
  | readText path =>
    have read := readText_inStep follows (admitted path (List.mem_singleton_self path))
    exact (read.answer Answer.text).mono fun plain => plain.clear path (List.mem_singleton_self path)
  | read path =>
    have read := readBytes_inStep follows (admitted path (List.mem_singleton_self path))
    exact (read.answer Answer.bytes).mono fun plain => plain.clear path (List.mem_singleton_self path)
  | find path =>
    have found := find_inStep follows (admitted path (List.mem_singleton_self path))
    refine (found.answer Answer.found).mono fun plain => ?_
    exact ⟨plain.clear path (List.mem_singleton_self path), Key.climbs_normalize path ▸ plain.stays⟩
  | makeDirectory path recursive =>
    have made := makeDirectory_inStep recursive follows (admitted path (List.mem_singleton_self path))
    exact (made.answer fun _ => Answer.done).mono fun plain =>
      plain.clear path (List.mem_singleton_self path)
  | list path recursive =>
    have listed := list_inStep recursive follows (admitted path (List.mem_singleton_self path))
    refine (listed.answer Answer.listing).mono fun plain => ?_
    exact ⟨plain.clear path (List.mem_singleton_self path), Key.climbs_normalize path ▸ plain.stays,
      fun whole => plain.within path (congrArg (Operation.list path) whole)⟩
  | remove path recursive =>
    have removed := remove_inStep recursive follows (admitted path (List.mem_singleton_self path))
    exact (removed.answer fun _ => Answer.done).mono fun plain =>
      plain.clear path (List.mem_singleton_self path)
  | copy source target =>
    have copied := copy_inStep follows (admitted source List.mem_cons_self)
      (admitted target (.tail _ List.mem_cons_self))
    exact (copied.answer fun _ => Answer.done).mono fun plain =>
      plain.clear source List.mem_cons_self
  | rename source target =>
    have renamed := rename_inStep follows (admitted source List.mem_cons_self)
      (admitted target (.tail _ List.mem_cons_self))
    exact (renamed.answer fun _ => Answer.done).mono fun plain =>
      ⟨plain.clear source List.mem_cons_self, plain.clear target (.tail _ List.mem_cons_self)⟩

/-- Operations on both sides, one after the other. -/
theorem after_follows (follows : Follows root place initial machine catalog)
    (admitted : ∀ operation ∈ operations, Admitted root operation) :
    Follows root place initial (after root operations machine)
      (Virtual.after operations catalog) := by
  induction operations generalizing machine catalog with
  | nil => exact follows
  | cons operation rest ih =>
    have step := perform_inStep follows (admitted operation List.mem_cons_self)
    exact ih step.follows fun other member => admitted other (.tail _ member)

/-- An empty directory and an empty store are the same tree. -/
theorem Vacant.follows (vacant : Vacant initial root place) :
    Follows root place initial initial .empty where
  vacant := vacant
  here := rfl
  outside := fun _ _ => rfl
  mirrors := by
    refine ⟨isSaveTree_empty, fun steps nonempty _ => vacant.empty steps nonempty, ?_⟩
    intro steps item standing
    by_cases top : steps = []
    · rw [top]
      nofun
    · rw [vacant.empty steps top] at standing
      cases standing
  shallow := fun _ _ _ => nofun

/-- From an empty directory and an empty store on, operations with admitted paths
keep the two trees the same, and every further operation that is plain is answered
alike. -/
theorem simulates_store {root : String} {place : Place} {machine : Machine}
    {operations : List Operation} (vacant : Vacant machine root place)
    (admitted : ∀ operation ∈ operations, Admitted root operation) :
    Mirrors (after root operations machine).disk place (Virtual.after operations .empty) ∧
      ∀ operation, Admitted root operation →
        Plain root (Virtual.after operations .empty) operation →
        (attempt Machine.serve (perform root operation) (after root operations machine)).1 =
          (attempt Store.memory (Virtual.perform operation) (Virtual.after operations .empty)).1 := by
  have follows := after_follows vacant.follows admitted
  exact ⟨follows.mirrors, fun operation fits plain => (perform_inStep follows fits).same plain⟩

/-! ## A run -/

/-- A host with an empty root. -/
def bare : Machine where
  disk := Disk.empty.makeDirectory ["root"]
  here := []

theorem vacant_bare : Vacant bare "root" ["root"] := by
  refine ⟨rfl, rfl, ?_⟩
  intro rest nonempty
  have made : bare.disk.get? (["root"] ++ rest) =
      if ["root"] ++ rest = ["root"] then some .directory else Disk.empty.get? (["root"] ++ rest) :=
    Disk.get?_makeDirectory rfl rfl
  rw [made, if_neg (by simpa using nonempty)]
  rfl

/-- A file is written and moved along with its directory.  What is made below the
file then is refused by both sides, for different reasons. -/
def moves : List Operation :=
  [.writeText "a/b" "x", .rename "a" "c/d", .makeDirectory "c/d/b/e/f" false]

theorem Fits.of_checks {steps : List String} (clean : checkBytes (hostPath root (Key.text steps)) = .ok ())
    (short : admitLength (hostPath root (Key.text steps)) = .ok ())
    (admitted : steps.all (fun step => decide (step.utf8ByteSize ≤ nameLimit)) = true) :
    Fits root steps where
  clean := clean
  short := short
  admitted := by
    intro step member
    have small := of_decide_eq_true (List.all_eq_true.mp admitted step member)
    rw [admitName, if_neg (Nat.not_lt.mpr small)]

theorem admitted_moves : ∀ operation ∈ moves, Admitted "root" operation := by
  have paths_eq : moves.flatMap Operation.paths = ["a/b", "a", "c/d", "c/d/b/e/f"] := rfl
  have fits : ∀ path ∈ moves.flatMap Operation.paths, Fits "root" (Key.steps (Key.ofPath path)) := by
    rw [paths_eq]
    simp only [List.forall_mem_cons]
    exact ⟨.of_checks rfl rfl rfl, .of_checks rfl rfl rfl, .of_checks rfl rfl rfl,
      .of_checks rfl rfl rfl, nofun⟩
  intro operation member path inside key required
  rw [(Key.require_eq_ok_iff.mp required).1]
  exact fits path (List.mem_flatMap.mpr ⟨operation, member, inside⟩)

theorem plain_moves : Plain "root" (Virtual.after moves .empty) (.list "/" true) where
  clear := by
    intro path member above below
    rw [List.mem_singleton.mp member, Key.isBelow_iff] at below
    rcases below with ⟨rest, key_eq⟩
    -- nothing is above the root
    have empty : (Key.ofPath "/").toList = [] := rfl
    rw [empty] at key_eq
    cases (List.append_eq_nil_iff.mp key_eq.symm).2
  stays := rfl
  within := by
    intro _ _ key stored _
    have member : (⟨key, .directory⟩ : Entry) ∈ (Virtual.after moves .empty).entries :=
      mem_entries_iff.mpr stored
    have entries_eq : (Virtual.after moves .empty).entries =
      [⟨"c/d/b", .file (.text "x")⟩, ⟨"c/d", .directory⟩, ⟨"c", .directory⟩] := rfl
    rw [entries_eq] at member
    simp only [List.mem_cons, Entry.mk.injEq, reduceCtorEq, and_false, and_true, List.not_mem_nil,
      or_false, false_or] at member
    rcases member with rfl | rfl
    · exact .of_checks rfl rfl rfl
    · exact .of_checks rfl rfl rfl

theorem simulates_store_after_move :
    Mirrors (after "root" moves bare).disk ["root"] (Virtual.after moves .empty) ∧
      (attempt Machine.serve (perform "root" (.list "/" true)) (after "root" moves bare)).1 =
        .ok (.listing [.mk "c" "c" .directory (some
          [.mk "c/d" "d" .directory (some [.mk "c/d/b" "b" .file none])])]) := by
  have simulation := simulates_store vacant_bare admitted_moves
  refine ⟨simulation.1, (simulation.2 (.list "/" true) ?_ plain_moves).trans rfl⟩
  intro path member key required
  rw [List.mem_singleton.mp member] at required
  cases required

end Native
end SaveTree
