import SaveTree.Proofs.Store.Memory
import SaveTree.Proofs.Store.Tree
import SaveTree.Proofs.Virtual.Invariant
import SaveTree.Proofs.Virtual.Listing

namespace SaveTree

/-!
# The order in which a store lists its entries

A store lists its entries in whatever order it likes.  An operation takes nothing
from that order: a listing is sorted, many entries are put under paths that differ,
and what is deleted is gone in any order.  So stores that hold the same answer every
operation alike and hold the same again.
-/

namespace Catalog

variable {left right : Catalog} {found other : List Entry} {source target : String}

/-- The catalogs find the same under every path. -/
def Same (left right : Catalog) : Prop :=
  ∀ key, left.get? key = right.get? key

/-- Entries with one path are the same. -/
def Coherent (found : List Entry) : Prop :=
  ∀ first ∈ found, ∀ second ∈ found, first.path = second.path → first.node = second.node

namespace Same

theorem refl (catalog : Catalog) : Same catalog catalog :=
  fun _ => rfl

theorem put (same : Same left right) (entry : Entry) : Same (left.put entry) (right.put entry) := by
  intro key
  rw [get?_put, get?_put, same key]

theorem erase (same : Same left right) (path : String) :
    Same (Table.erase left path) (Table.erase right path) := by
  intro key
  rw [Table.get?_erase, Table.get?_erase, same key]

theorem eraseAll {paths others : List String} (same : Same left right) (perm : paths.Perm others) :
    Same (left.eraseAll paths) (right.eraseAll others) := by
  intro key
  rw [get?_eraseAll, get?_eraseAll, same key]
  simp only [perm.mem_iff]

/-- Coherent entries are put in any order. -/
theorem putAll (same : Same left right) (perm : found.Perm other) (coherent : Coherent found) :
    Same (left.putAll found) (right.putAll other) := by
  intro key
  by_cases present : ∃ entry ∈ found, entry.path = key
  · rcases present with ⟨entry, member, rfl⟩
    have agree : ∀ another ∈ found, another.path = entry.path → another.node = entry.node :=
      fun another inside => coherent another inside entry member
    rw [get?_putAll_of_agree ⟨entry, member, rfl⟩ agree,
      get?_putAll_of_agree ⟨entry, perm.mem_iff.mp member, rfl⟩
        fun another inside => agree another (perm.mem_iff.mpr inside)]
  · have absent : ∀ entry ∈ found, entry.path ≠ key :=
      fun entry member path_eq => present ⟨entry, member, path_eq⟩
    rw [get?_putAll_of_not_mem absent,
      get?_putAll_of_not_mem fun entry member => absent entry (perm.mem_iff.mpr member), same key]

end Same

theorem coherent_of_entries (inside : ∀ entry ∈ found, entry ∈ left.entries) : Coherent found := by
  intro first member second other path_eq
  have stored := mem_entries_iff.mp (inside first member)
  rw [path_eq, mem_entries_iff.mp (inside second other)] at stored
  exact (Option.some.inj stored).symm

theorem Coherent.copied (coherent : Coherent found)
    (below : ∀ entry ∈ found, Key.isBelow source entry.path = true) :
    Coherent (copied source target found) := by
  have apart : ∀ entry ∈ found, Key.rebase source target entry.path ≠ target :=
    fun entry member => ne_of_isBelow (isBelow_rebase (below entry member))
  intro first member second other path_eq
  rcases List.mem_cons.mp member with rfl | member
  · rcases List.mem_cons.mp other with rfl | other
    · rfl
    · rcases List.mem_map.mp other with ⟨old, inside, rfl⟩
      exact absurd path_eq.symm (apart old inside)
  · rcases List.mem_map.mp member with ⟨old, inside, rfl⟩
    rcases List.mem_cons.mp other with rfl | other
    · exact absurd path_eq (apart old inside)
    · rcases List.mem_map.mp other with ⟨another, insideOther, rfl⟩
      exact coherent old inside another insideOther
        (rebase_injective (below old inside) (below another insideOther) path_eq)

end Catalog

namespace Virtual

open Catalog

/-! ## Listings -/

variable {children : List (String × Kind)} {name other : String} {kind old : Kind}

theorem lt_cases (left right : String) : left < right ∨ left = right ∨ right < left :=
  Std.Trichotomous.rel_or_eq_or_rel_swap

theorem addChild_same (kind old : Kind) (name : String) (rest : List (String × Kind)) :
    addChild name kind ((name, old) :: rest) =
      (name, if kind = .directory then .directory else old) :: rest := by
  rw [addChild, if_pos rfl]

theorem addChild_before (smaller : name < other) :
    addChild name kind ((other, old) :: children) = (name, kind) :: (other, old) :: children := by
  have different : name ≠ other := by
    rintro rfl
    exact String.lt_irrefl name smaller
  rw [addChild, if_neg different, if_pos smaller]

theorem addChild_behind (greater : other < name) :
    addChild name kind ((other, old) :: children) = (other, old) :: addChild name kind children := by
  have different : name ≠ other := by
    rintro rfl
    exact String.lt_irrefl name greater
  rw [addChild, if_neg different, if_neg (String.lt_asymm greater)]

/-- A name that is added twice is a directory if it is one either time. -/
theorem addChild_twice (name : String) (kind old : Kind) (children : List (String × Kind)) :
    addChild name kind (addChild name old children) = addChild name old (addChild name kind children) := by
  induction children with
  | nil =>
    rw [addChild, addChild, addChild_same, addChild_same]
    cases kind <;> cases old <;> rfl
  | cons head rest ih =>
    rcases head with ⟨other, known⟩
    rcases lt_cases name other with smaller | rfl | greater
    · rw [addChild_before smaller, addChild_before smaller, addChild_same, addChild_same]
      cases kind <;> cases old <;> rfl
    · rw [addChild_same, addChild_same, addChild_same, addChild_same]
      cases kind <;> cases old <;> rfl
    · rw [addChild_behind greater, addChild_behind greater, addChild_behind greater,
        addChild_behind greater, ih]

theorem addChild_comm_of_lt {first second : String} {kind old : Kind} (smaller : first < second)
    (children : List (String × Kind)) :
    addChild first kind (addChild second old children) =
      addChild second old (addChild first kind children) := by
  induction children with
  | nil => rw [addChild, addChild, addChild_before smaller, addChild_behind smaller, addChild]
  | cons head rest ih =>
    rcases head with ⟨other, known⟩
    rcases lt_cases first other with before | rfl | behind
    · rw [addChild_before before, addChild_behind smaller]
      rcases lt_cases second other with inside | rfl | beyond
      · rw [addChild_before inside, addChild_before smaller]
      · rw [addChild_same, addChild_before smaller]
      · rw [addChild_behind beyond, addChild_before before]
    · rw [addChild_behind smaller, addChild_same, addChild_same, addChild_behind smaller]
    · have beyond := String.lt_trans behind smaller
      rw [addChild_behind beyond, addChild_behind behind, addChild_behind behind,
        addChild_behind beyond, ih]

/-- It does not matter which of two children is added first. -/
theorem addChild_comm (first second : String × Kind) (children : List (String × Kind)) :
    addChild first.1 first.2 (addChild second.1 second.2 children) =
      addChild second.1 second.2 (addChild first.1 first.2 children) := by
  rcases first with ⟨first, kind⟩
  rcases second with ⟨second, old⟩
  rcases lt_cases first second with smaller | rfl | greater
  · exact addChild_comm_of_lt smaller children
  · exact addChild_twice first kind old children
  · exact (addChild_comm_of_lt greater children).symm

variable {left right : List Entry}

theorem childrenBelow_perm (perm : left.Perm right) (stem : List Char) :
    childrenBelow stem left = childrenBelow stem right := by
  apply (perm.filterMap (child? stem)).foldl_eq'
  intro first _ second _ children
  exact addChild_comm second first children

theorem longest_perm (perm : left.Perm right) : longest left = longest right := by
  apply (perm.map fun entry => entry.path.length).foldl_eq'
  intro first _ second _ length
  omega

theorem listLevels_perm (perm : left.Perm right) (recursive : Bool) (levels : Nat) (base : String) :
    listLevels left recursive levels base = listLevels right recursive levels base := by
  induction levels generalizing base with
  | zero => rfl
  | succ levels ih =>
    rw [listLevels, listLevels, childrenBelow_perm perm]
    congr
    funext child
    dsimp only
    rw [ih]

/-- A listing does not depend on the order of the entries. -/
theorem listing_perm (perm : left.Perm right) (base : String) (recursive : Bool) :
    listing base left recursive = listing base right recursive := by
  rw [listing, listing, longest_perm perm, listLevels_perm perm]

end Virtual

/-! ## Sessions -/

namespace Store

/-- How a reply may be given by a store that lists its entries in any order. -/
inductive Reordered : (call : Call) → Except FsError call.Answer → Except FsError call.Answer → Prop where
  | same (call : Call) (reply : Except FsError call.Answer) : Reordered call reply reply
  | list {found other : List Entry} (perm : found.Perm other) :
      Reordered .list (.ok found) (.ok other)

/-- The stores of a world, where each listing may come in another order. -/
def reordered {σ : Type} (world : World calls σ) : World calls σ where
  turn := fun before call reply after =>
    ∃ given, world.turn before call given after ∧ Reordered call given reply
  torn := world.torn

end Store

namespace Virtual

open Catalog Program

variable {α β : Type} {path key : String}

/-- What comes of one call. -/
theorem eq_of_runs_call {request : Store.Call} {result : Except FsError request.Answer}
    {catalog after : Catalog}
    (runs : Runs (Store.reordered Store.reliable) (Session.call request).run catalog result after) :
    after = request.effect catalog ∧ Store.Reordered request (.ok (request.answer catalog)) result := by
  cases runs with
  | call turn rest =>
    rcases turn with ⟨given, ⟨rfl, rfl⟩, order⟩
    cases rest
    exact ⟨rfl, order⟩

theorem exists_perm_of_runs_list {result : Except FsError (List Entry)} {catalog after : Catalog}
    (runs : Runs (Store.reordered Store.reliable) Session.list.run catalog result after) :
    after = catalog ∧ ∃ found, result = .ok found ∧ found.Perm catalog.entries := by
  rcases eq_of_runs_call runs with ⟨unchanged, order⟩
  cases order with
  | same => exact ⟨unchanged, catalog.entries, rfl, .refl _⟩
  | list perm => exact ⟨unchanged, _, rfl, perm.symm⟩

/-- The sessions give the same on stores that hold the same, and leave such stores,
in whatever order these list their entries each time. -/
structure Matched (left right : Session α) : Prop where
  agree : ∀ {catalog other after afterOther : Catalog} {result resultOther : Except FsError α},
    Same catalog other →
    Runs (Store.reordered Store.reliable) left.run catalog result after →
    Runs (Store.reordered Store.reliable) right.run other resultOther afterOther →
    result = resultOther ∧ Same after afterOther

namespace Matched

variable {left right : Session α} {next nextRight : α → Session β}

theorem pure (value : α) : Matched (Pure.pure value) (Pure.pure value) := by
  constructor
  intro _ _ _ _ _ _ same runs runsOther
  cases runs
  cases runsOther
  exact ⟨rfl, same⟩

theorem throw (error : FsError) :
    Matched (MonadExcept.throw error : Session α) (MonadExcept.throw error) := by
  constructor
  intro _ _ _ _ _ _ same runs runsOther
  cases runs
  cases runsOther
  exact ⟨rfl, same⟩

theorem bind (early : Matched left right)
    (later : ∀ value, Matched (next value) (nextRight value)) :
    Matched (left >>= next) (right >>= nextRight) := by
  constructor
  intro _ _ _ _ _ _ same runs runsOther
  rw [ExceptT.run_bind] at runs runsOther
  rcases runs.of_bind with ⟨value, between, begins, rest⟩
  rcases runsOther.of_bind with ⟨valueOther, betweenOther, beginsOther, restOther⟩
  rcases early.agree same begins beginsOther with ⟨rfl, related⟩
  cases value with
  | ok value => exact (later value).agree related rest restOther
  | error error =>
    cases rest
    cases restOther
    exact ⟨rfl, related⟩

theorem answer (early : Matched left right) (result : α → β) :
    Matched (do return result (← left)) (do return result (← right)) :=
  early.bind fun value => pure (result value)

theorem ite {condition : Prop} [Decidable condition] {leftElse rightElse : Session α}
    (holds : Matched left right) (fails : Matched leftElse rightElse) :
    Matched (if condition then left else leftElse)
      (if condition then right else rightElse) := by
  split
  · exact holds
  · exact fails

/-- A path that is admitted, or nothing happens. -/
theorem require {next : String → Session β} (later : ∀ key, Matched (next key) (next key)) :
    Matched (do next (← (Key.require path : Except FsError String)))
      (do next (← (Key.require path : Except FsError String))) := by
  cases Key.require path with
  | error error => exact throw error
  | ok key => exact later key

theorem forM {list : List β} {body : β → Session Unit}
    (each : ∀ item, Matched (body item) (body item)) :
    Matched (list.forM body) (list.forM body) := by
  induction list with
  | nil => exact pure ()
  | cons item rest ih => exact (each item).bind fun _ => ih

theorem get (key : String) : Matched (Session.get key) (Session.get key) := by
  constructor
  intro _ _ _ _ _ _ same runs runsOther
  rcases eq_of_runs_call runs with ⟨rfl, ⟨⟩⟩
  rcases eq_of_runs_call runsOther with ⟨rfl, ⟨⟩⟩
  exact ⟨congrArg Except.ok (same key), same⟩

theorem put (entry : Entry) : Matched (Session.put entry) (Session.put entry) := by
  constructor
  intro _ _ _ _ _ _ same runs runsOther
  rcases eq_of_runs_call runs with ⟨rfl, ⟨⟩⟩
  rcases eq_of_runs_call runsOther with ⟨rfl, ⟨⟩⟩
  exact ⟨rfl, same.put entry⟩

theorem delete (path : String) : Matched (Session.delete path) (Session.delete path) := by
  constructor
  intro _ _ _ _ _ _ same runs runsOther
  rcases eq_of_runs_call runs with ⟨rfl, ⟨⟩⟩
  rcases eq_of_runs_call runsOther with ⟨rfl, ⟨⟩⟩
  exact ⟨rfl, same.erase path⟩

theorem putMany {found other : List Entry} (perm : found.Perm other) (coherent : Coherent found) :
    Matched (Session.putMany found) (Session.putMany other) := by
  constructor
  intro _ _ _ _ _ _ same runs runsOther
  rcases eq_of_runs_call runs with ⟨rfl, ⟨⟩⟩
  rcases eq_of_runs_call runsOther with ⟨rfl, ⟨⟩⟩
  exact ⟨rfl, same.putAll perm coherent⟩

theorem deleteMany {paths others : List String} (perm : paths.Perm others) :
    Matched (Session.deleteMany paths) (Session.deleteMany others) := by
  constructor
  intro _ _ _ _ _ _ same runs runsOther
  rcases eq_of_runs_call runs with ⟨rfl, ⟨⟩⟩
  rcases eq_of_runs_call runsOther with ⟨rfl, ⟨⟩⟩
  exact ⟨rfl, same.eraseAll perm⟩

/-- What follows a listing must not depend on its order. -/
theorem list {next nextRight : List Entry → Session β}
    (later : ∀ found other, found.Perm other → Coherent found →
      Matched (next found) (nextRight other)) :
    Matched (Session.list >>= next) (Session.list >>= nextRight) := by
  constructor
  intro catalog other _ _ _ _ same runs runsOther
  rw [ExceptT.run_bind] at runs runsOther
  rcases runs.of_bind with ⟨_, between, begins, rest⟩
  rcases runsOther.of_bind with ⟨_, betweenOther, beginsOther, restOther⟩
  rcases exists_perm_of_runs_list begins with ⟨rfl, found, rfl, perm⟩
  rcases exists_perm_of_runs_list beginsOther with ⟨rfl, foundOther, rfl, permOther⟩
  have coherent : Coherent found :=
    coherent_of_entries fun entry member => perm.mem_iff.mp member
  have both : found.Perm foundOther := perm.trans ((entries_perm same).trans permOther.symm)
  exact (later found foundOther both coherent).agree same rest restOther

theorem descendants {next nextRight : List Entry → Session β}
    (later : ∀ found other, found.Perm other → Coherent found →
      (∀ entry ∈ found, Key.isBelow key entry.path = true) →
      Matched (next found) (nextRight other)) :
    Matched (Virtual.descendants key >>= next) (Virtual.descendants key >>= nextRight) := by
  rw [Virtual.descendants, bind_assoc, bind_assoc]
  apply list
  intro found other perm coherent
  rw [pure_bind, pure_bind]
  apply later _ _ (perm.filter _)
  · intro entry member another inside
    exact coherent entry (List.mem_filter.mp member).1 another (List.mem_filter.mp inside).1
  · intro entry member
    exact (List.mem_filter.mp member).2

end Matched

/-! ## Operations -/

theorem ensureDirectories_matched (key : String) :
    Matched (ensureDirectories key) (ensureDirectories key) := by
  apply Matched.forM
  intro place
  apply Matched.bind (.get place)
  intro found
  cases found with
  | none => exact .put ⟨place, .directory⟩
  | some node =>
    cases node with
    | file content => exact .throw (.notADirectory place)
    | directory => exact .pure ()

theorem putFile_matched (key : String) (content : Content) :
    Matched (putFile key content) (putFile key content) := by
  apply Matched.bind (ensureDirectories_matched (Key.parent key))
  intro _
  apply Matched.bind (.get key)
  intro found
  cases found with
  | none => exact .put ⟨key, .file content⟩
  | some node =>
    cases node with
    | file old => exact .put ⟨key, .file content⟩
    | directory => exact .throw (.conflict key)

theorem contentAt_matched (key : String) :
    Matched (contentAt key) (contentAt key) := by
  apply Matched.bind (.get key)
  intro found
  cases found with
  | none => exact .throw (.fileNotFound key)
  | some node =>
    cases node with
    | file content => exact .pure content
    | directory => exact .throw (.fileNotFound key)

theorem writeFile_matched (content : Content) :
    Matched (writeFile path content) (writeFile path content) :=
  .require fun key => putFile_matched key content

theorem readText_matched : Matched (readText path) (readText path) := by
  apply Matched.require
  intro key
  apply Matched.bind (contentAt_matched key)
  intro content
  cases content.toText? with
  | none => exact .throw (.invalidUtf8 key)
  | some text => exact .pure text

theorem readBytes_matched : Matched (readBytes path) (readBytes path) :=
  .require fun key => (contentAt_matched key).answer Content.toBytes

theorem find_matched (path : String) : Matched (find path) (find path) :=
  .ite (.pure true) ((Matched.get (Key.ofPath path)).answer Option.isSome)

theorem makeDirectory_matched {recursive : Bool} :
    Matched (makeDirectory path recursive) (makeDirectory path recursive) := by
  apply Matched.require
  intro key
  have walk : Matched (ensureDirectories key) (ensureDirectories key) :=
    ensureDirectories_matched key
  -- what follows the look at the parent, whichever branch it is reached by
  have finish : ∀ {next : Option Node → Session Unit},
      (∀ content, next (some (.file content)) = throw (.conflict key)) →
      next (some .directory) = ensureDirectories key → next none = ensureDirectories key →
      Matched (Session.get key >>= next) (Session.get key >>= next) := by
    intro next occupied present missing
    apply Matched.bind (.get key)
    intro found
    cases found with
    | none => rwa [missing]
    | some node =>
      cases node with
      | directory => rwa [present]
      | file content =>
        rw [occupied]
        exact .throw (.conflict key)
  cases recursive with
  | true => exact finish (fun _ => rfl) rfl rfl
  | false =>
    apply Matched.bind (find_matched (Key.parent key))
    intro found
    cases found with
    | true => exact finish (fun _ => rfl) rfl rfl
    | false => exact .throw (.parentMissing (Key.parent key))

theorem listingAt_matched {recursive : Bool} :
    Matched (listingAt key recursive) (listingAt key recursive) := by
  apply Matched.list
  intro found other perm _
  rw [listing_perm perm]
  split
  · exact .pure _
  · exact .throw .endless

theorem list_matched {recursive : Bool} :
    Matched (list path recursive) (list path recursive) := by
  refine .ite ?_ listingAt_matched
  apply Matched.bind (.get (Key.ofPath path))
  intro found
  exact .ite (.throw (.directoryNotFound (Key.ofPath path))) listingAt_matched

theorem remove_matched {recursive : Bool} :
    Matched (remove path recursive) (remove path recursive) := by
  refine .ite ?_ (.require fun key => ?_)
  · refine .ite (.throw .rootRemoval) (.list fun found other perm _ => ?_)
    exact .deleteMany (perm.map Entry.path)
  · apply Matched.bind (.get key)
    intro node?
    apply Matched.descendants
    intro found other perm _ _
    rw [perm.isEmpty_eq]
    refine .ite (.pure ()) (.ite (.throw (.directoryNotEmpty key)) ?_)
    exact .deleteMany ((perm.map Entry.path).append_right _)

theorem copy_matched {source target : String} :
    Matched (copy source target) (copy source target) := by
  apply Matched.require
  intro source
  apply Matched.require
  intro target
  apply Matched.bind (contentAt_matched source)
  intro content
  exact putFile_matched target content

theorem renameDirectory_matched (source target : String) :
    Matched (renameDirectory source target) (renameDirectory source target) := by
  have finish : Matched
      (do
        ensureDirectories (Key.parent target)
        let below ← descendants source
        Session.putMany (copied source target below)
        Session.deleteMany (below.map Entry.path ++ [source]))
      (do
        ensureDirectories (Key.parent target)
        let below ← descendants source
        Session.putMany (copied source target below)
        Session.deleteMany (below.map Entry.path ++ [source])) := by
    apply Matched.bind (ensureDirectories_matched (Key.parent target))
    intro _
    apply Matched.descendants
    intro found other perm coherent below
    apply Matched.bind (.putMany ((perm.map _).cons _) (coherent.copied below))
    intro _
    exact .deleteMany ((perm.map Entry.path).append_right [source])
  refine .ite (.throw (.moveIntoItself source)) (.descendants fun found other perm _ _ => ?_)
  apply Matched.bind (.get target)
  intro node?
  rw [perm.isEmpty_eq]
  cases node? with
  | none => exact .ite (.throw (.destinationNotEmpty target)) finish
  | some node =>
    cases node with
    | file content => exact .throw (.conflict target)
    | directory => exact .ite (.throw (.destinationNotEmpty target)) finish

theorem rename_matched {source target : String} :
    Matched (rename source target) (rename source target) := by
  apply Matched.require
  intro source
  apply Matched.require
  intro target
  apply Matched.bind (.get source)
  intro node?
  cases node? with
  | none => exact .throw (.fileNotFound source)
  | some node =>
    refine .ite (.pure ()) ?_
    cases node with
    | directory => exact renameDirectory_matched source target
    | file content => exact copy_matched.bind fun _ => .delete source

/-- No operation depends on the order in which a store lists its entries. -/
theorem perform_matched (operation : Operation) :
    Matched (perform operation) (perform operation) := by
  cases operation with
  | writeText path text => exact (writeFile_matched (.text text)).answer fun _ => Answer.done
  | write path bytes => exact (writeFile_matched (.bytes bytes)).answer fun _ => Answer.done
  | readText path => exact readText_matched.answer Answer.text
  | read path => exact readBytes_matched.answer Answer.bytes
  | find path => exact (find_matched path).answer Answer.found
  | makeDirectory path recursive => exact makeDirectory_matched.answer fun _ => Answer.done
  | list path recursive => exact list_matched.answer Answer.listing
  | remove path recursive => exact remove_matched.answer fun _ => Answer.done
  | copy source target => exact copy_matched.answer fun _ => Answer.done
  | rename source target => exact rename_matched.answer fun _ => Answer.done

/-- A session in memory is one whose listings come in the order of the rows. -/
theorem runs_of_memory (program : Program Store.calls α) (catalog : Catalog) :
    Runs (Store.reordered Store.reliable) program catalog
      ((Program.run Store.memory program : StateM Catalog α).run catalog).1
      ((Program.run Store.memory program : StateM Catalog α).run catalog).2 := by
  induction program generalizing catalog with
  | done value => exact .done value catalog
  | call request next ih =>
    exact .call ⟨_, ⟨rfl, rfl⟩, .same request _⟩ (ih (.ok (request.answer catalog)) (request.effect catalog))

/-- Memories that hold the same answer every operation alike. -/
theorem perform_agrees {catalog other : Catalog} (operation : Operation) (same : Same catalog other) :
    Agree Same (attempt Store.memory (perform operation) catalog)
      (attempt Store.memory (perform operation) other) := by
  rcases (perform_matched operation).agree same (runs_of_memory _ catalog) (runs_of_memory _ other) with
    ⟨results, catalogs⟩
  exact ⟨results, catalogs⟩

end Virtual

/-! ## Open stores -/

namespace Backend

open Program

/-- Two open stores that hold the same entries, which may be any, on hosts that refuse
nothing.  Whichever operation is performed on both, and in whatever order each of
them lists its entries each time, the results are the same, and the stores hold the
same again. -/
theorem perform_in_any_order {operation : Operation} {first second firstAfter secondAfter : Backend}
    {result other : Except FsError Answer} (same : first.catalog.Same second.catalog)
    (runs : Runs (Store.reordered (onHost Host.willing)) (Virtual.perform operation).run
      first result firstAfter)
    (runsOther : Runs (Store.reordered (onHost Host.willing)) (Virtual.perform operation).run
      second other secondAfter) :
    result = other ∧ firstAfter.catalog.Same secondAfter.catalog := by
  have seen : ∀ {before call reply after},
      (Store.reordered (onHost Host.willing)).turn before call reply after →
      (Store.reordered Store.reliable).turn before.catalog call reply after.catalog := by
    rintro before call reply after ⟨given, turn, order⟩
    exact ⟨given, reliable_of_onHost turn, order⟩
  exact (Virtual.perform_matched operation).agree same (runs.project seen) (runsOther.project seen)

/-- A directory is moved beside an entry whose own directory is missing.  One store
lists its entries the other way round when it looks for what to move. -/
theorem perform_in_any_order_reversed :
    ∃ (held : Catalog) (after afterReversed : Backend),
      held.get? "b/z" = some .directory ∧ held.get? "b" = none ∧
      Runs (Store.reordered (onHost Host.willing)) (Virtual.perform (.rename "a" "c")).run
        (memory held) (.ok .done) after ∧
      Runs (Store.reordered (onHost Host.willing)) (Virtual.perform (.rename "a" "c")).run
        (memory held) (.ok .done) afterReversed ∧
      after.catalog.entries ≠ afterReversed.catalog.entries ∧
      after.catalog.Same afterReversed.catalog := by
  let held : Catalog :=
    .ofEntries [⟨"b/z", .directory⟩, ⟨"a", .directory⟩, ⟨"a/x", .directory⟩, ⟨"a/y", .directory⟩]
  have plain : ∀ (catalog : Catalog) (call : Store.Call),
      (Store.reordered (onHost Host.willing)).turn (memory catalog) call
        (.ok (call.answer catalog)) (memory (call.effect catalog)) :=
    fun catalog call => ⟨_, .done _ _, .same call _⟩
  have backwards : ∀ catalog : Catalog,
      (Store.reordered (onHost Host.willing)).turn (memory catalog) .list
        (.ok catalog.entries.reverse) (memory catalog) :=
    fun catalog => ⟨.ok catalog.entries, .done _ _, .list catalog.entries.reverse_perm.symm⟩
  have runs : ∃ after, Runs (Store.reordered (onHost Host.willing))
      (Virtual.perform (.rename "a" "c")).run (memory held) (.ok .done) after ∧
      after.catalog.entries.map Entry.path = ["c/x", "c/y", "c", "b/z"] :=
    ⟨_, .call (plain held (.get "a")) (.call (plain _ .list) (.call (plain _ (.get "c"))
      (.call (plain _ .list) (.call (plain _ (.putMany _)) (.call (plain _ (.deleteMany _))
        (.done _ _)))))), rfl⟩
  have reversed : ∃ after, Runs (Store.reordered (onHost Host.willing))
      (Virtual.perform (.rename "a" "c")).run (memory held) (.ok .done) after ∧
      after.catalog.entries.map Entry.path = ["c/y", "c/x", "c", "b/z"] :=
    ⟨_, .call (plain held (.get "a")) (.call (plain _ .list) (.call (plain _ (.get "c"))
      (.call (backwards _) (.call (plain _ (.putMany _)) (.call (plain _ (.deleteMany _))
        (.done _ _)))))), rfl⟩
  rcases runs with ⟨after, runs, paths⟩
  rcases reversed with ⟨afterReversed, reversed, otherPaths⟩
  refine ⟨held, after, afterReversed, rfl, rfl, runs, reversed, ?_, ?_⟩
  · intro same
    rw [same, otherPaths] at paths
    exact absurd paths (by decide)
  · exact (perform_in_any_order (.refl _) runs reversed).2

end Backend

end SaveTree
