import SaveTree.Proofs.Json.Ordered
import SaveTree.Proofs.Native.Growing
import SaveTree.Proofs.Native.Missing
import SaveTree.Proofs.Store.Answering
import SaveTree.Proofs.Text.Spelling
import SaveTree.Proofs.Virtual.Files

namespace SaveTree

/-!
# Reading what was written

A file that was just written is read as bytes or as text, whichever way it was written.
Its bytes are those of the text or those that were given, and it is read as the text that
they spell, if they spell one.

In a store the file is in the catalog, and no host is asked for it.  If the store is
opened again, its catalog finds the same under every key.  In a directory of the host the
path of the key leads to the file, since the directories on the way are still there.

A JSON value is written as its text.  So it is read as what the text says, and that is the
value itself.
-/

open Host Program

/-! ## Texts and their bytes -/

namespace Text

/-- What bytes are read as, if they are to be read as a text. -/
def read (key : String) (bytes : ByteArray) : Except FsError String :=
  match String.fromUTF8? bytes with
  | some text => .ok text
  | none => .error (.invalidUtf8 key)

theorem fromUTF8?_eq_some_iff {bytes : ByteArray} {text : String} :
    String.fromUTF8? bytes = some text ↔ text.toUTF8 = bytes := by
  rw [String.fromUTF8?]
  constructor
  · intro spells
    split at spells
    · cases spells
      rfl
    · cases spells
  · rintro rfl
    have valid : text.toUTF8.IsValidUTF8 := text.isValidUTF8
    rw [dif_pos valid]
    rfl

theorem read_eq_ok_iff {key : String} {bytes : ByteArray} {text : String} :
    read key bytes = .ok text ↔ text.toUTF8 = bytes := by
  rw [← fromUTF8?_eq_some_iff, read]
  cases String.fromUTF8? bytes <;> simp

theorem read_of_not_text {bytes : ByteArray} (spellsNone : ∀ text : String, text.toUTF8 ≠ bytes)
    (key : String) : read key bytes = .error (.invalidUtf8 key) := by
  have none : String.fromUTF8? bytes = none := by
    apply Option.eq_none_iff_forall_ne_some.mpr
    intro text spells
    exact spellsNone text (fromUTF8?_eq_some_iff.mp spells)
  rw [read, none]

end Text

namespace FileSystem

variable {tree left : FileSystem} {machine after : Machine} {path key root : String}
  {bytes : ByteArray} {content : Content} {backend : Backend}

/-- A file that is read as these bytes, and as the text that they spell. -/
structure ReadsBack (path key : String) (held : ByteArray) (tree : FileSystem) (machine : Machine) :
    Prop where
  asBytes : machine.run ((perform (.read path)).run tree) = ((.ok (.bytes held), tree), machine)
  asText : ∀ text : String, machine.run ((perform (.readText path)).run tree) =
    ((.ok (.text text), tree), machine) ↔ text.toUTF8 = held
  notText : (∀ text : String, text.toUTF8 ≠ held) →
    machine.run ((perform (.readText path)).run tree) = ((.error (.invalidUtf8 key), tree), machine)
  malformed : Text.Malformed held →
    machine.run ((perform (.readText path)).run tree) = ((.error (.invalidUtf8 key), tree), machine)

theorem readsBack_of_read
    (asBytes : machine.run ((perform (.read path)).run tree) = ((.ok (.bytes bytes), tree), machine))
    (asText : machine.run ((perform (.readText path)).run tree) =
      (((Text.read key bytes).map Answer.text, tree), machine)) :
    ReadsBack path key bytes tree machine := by
  have notText : (∀ text : String, text.toUTF8 ≠ bytes) →
      machine.run ((perform (.readText path)).run tree) =
        ((.error (.invalidUtf8 key), tree), machine) := by
    intro spellsNone
    rw [asText, Text.read_of_not_text spellsNone]
    rfl
  refine ⟨asBytes, ?_, notText, fun malformed => notText malformed.not_text⟩
  intro text
  rw [asText, ← Text.read_eq_ok_iff]
  cases Text.read key bytes <;> simp [Except.map]

/-! ## In a store -/

/-- An operation that only looks leaves the store and the host as they are. -/
theorem run_perform_of_looks {α : Type} {session : Session α} {operation : Operation}
    (answer : α → Answer) (looks : session.Looks)
    (performs : Virtual.perform operation = (do return answer (← session)))
    (machine : Machine) (backend : Backend) :
    machine.run ((perform operation).run (.stored backend)) =
      (((attempt Store.memory session backend.catalog).1.map answer, .stored backend), machine) := by
  rw [run_perform_stored, performs, Backend.run_of_looks (looks.bind fun _ => .pure _), attempt_answer]
  rfl

theorem readsBack_stored (admitted : Key.require path = .ok key)
    (stored : backend.catalog.get? key = some (.file content)) (machine : Machine) :
    ReadsBack path key content.toBytes (.stored backend) machine := by
  have looks := Virtual.attempt_contentAt_of_file stored
  have asBytes : attempt Store.memory (Virtual.readBytes path) backend.catalog =
      (.ok content.toBytes, backend.catalog) := by
    rw [Virtual.readBytes, Virtual.lift_require admitted, pure_bind, attempt_bind_of_ok looks]
    rfl
  have asText : attempt Store.memory (Virtual.readText path) backend.catalog =
      (Text.read key content.toBytes, backend.catalog) := by
    rw [Virtual.readText, Virtual.lift_require admitted, pure_bind, attempt_bind_of_ok looks,
      Content.toText?_eq, Text.read]
    cases String.fromUTF8? content.toBytes <;> rfl
  apply readsBack_of_read
  · rw [run_perform_of_looks Answer.bytes (Virtual.readBytes_looks path) rfl, asBytes]
    rfl
  · rw [run_perform_of_looks Answer.text (Virtual.readText_looks path) rfl, asText]

end FileSystem

/-! ## Writing in a store -/

/-- Of every session it is ensured that it ends somehow. -/
theorem Session.ensures_nothing {α : Type} (session : Session α) (catalog : Catalog) :
    session.Ensures (fun _ => True) (fun _ _ => True) catalog := by
  suffices all : ∀ program : Program Store.calls (Except FsError α),
      program.Ensures Store.faulty (fun _ => True) (fun _ _ => True) catalog from
    ⟨(all session.run).mono (fun _ holds => holds) fun _ _ _ _ _ _ => trivial⟩
  intro program
  induction program generalizing catalog with
  | done value => exact ⟨trivial, trivial⟩
  | call request next ih => exact ⟨trivial, fun _ _ => trivial, fun reply after _ => ih reply after⟩

/-- A file that was put is stored, whatever else the store has refused. -/
theorem Virtual.putFile_stores (key : String) (content : Content) (catalog : Catalog) :
    (putFile key content).Ensures (fun _ => True)
      (fun _ after => after.get? key = some (.file content)) catalog := by
  apply Session.Ensures.bind
  refine (Session.ensures_nothing _ catalog).mono ?_
  intro _ between _ _
  apply Session.Ensures.bind
  apply Session.Ensures.get trivial
  have puts : (Session.put ⟨key, .file content⟩).Ensures (fun _ => True)
      (fun _ after => after.get? key = some (.file content)) between := by
    apply Session.Ensures.put trivial trivial
    rw [Catalog.get?_put, if_pos rfl]
  cases between.get? key with
  | none => exact puts
  | some node =>
    cases node with
    | file old => exact puts
    | directory => exact .throw trivial

/-- Where a write has succeeded, on whatever host, the file is stored. -/
theorem Backend.stored_of_runs {before after : Backend} {path : String} {content : Content}
    {answer : Answer}
    (runs : Runs Host.unknown ((run (Virtual.perform (Virtual.Write.operation ⟨path, content⟩))).run before)
      () (.ok answer, after) ()) :
    ∃ key, Key.require path = .ok key ∧ after.catalog.get? key = some (.file content) := by
  have writes : (Virtual.writeFile path content).Ensures (fun _ => True)
      (fun _ after => ∃ key, Key.require path = .ok key ∧ after.get? key = some (.file content))
      before.catalog := by
    apply Session.Ensures.bind
    refine .lift trivial ?_
    intro key admitted
    exact (Virtual.putFile_stores key content before.catalog).mono
      fun _ _ _ stored => ⟨key, admitted, stored⟩
  have stores : (Virtual.perform (Virtual.Write.operation ⟨path, content⟩)).Ensures (fun _ => True)
      (fun _ after => ∃ key, Key.require path = .ok key ∧ after.get? key = some (.file content))
      before.catalog := by
    cases content <;> exact .bind (writes.mono fun _ _ _ stored => .pure trivial stored)
  exact ((run_ensures stores.program).of_runs runs).2.2 answer rfl

/-! ## On a machine -/

/-- A run in which no call fails of itself is one of those on a machine that may fail. -/
theorem Host.Machine.runs_of_run {α : Type} {program : Host.Program α} {machine after : Machine}
    {value : α} (ends : machine.run program = (value, after)) :
    Runs Machine.faulty program machine value after := by
  induction program generalizing machine with
  | done found =>
    cases ends
    exact .done _ _
  | call request next ih => exact .call (.served rfl) (ih _ ends)

namespace Durable

variable {document : String} {machine after : Machine} {store : Durable}

/-- What a session leaves in a durable store is found when the store is opened again. -/
theorem reopens_of_runs {α : Type} {program : Program Store.calls α} {value : α} {left : Backend}
    (site : Site store.document machine) (reopens : Reopens store.document machine store.image)
    (runs : Runs Machine.faulty ((program.run Backend.serve).run (.durable store)) machine
      (value, left) after) :
    Reopens store.document after left.catalog := by
  induction program generalizing store machine with
  | done found =>
    cases runs
    exact reopens
  | call request next ih =>
    rw [run_call, StateT.run_bind, Backend.serve_run_durable] at runs
    rcases runs.of_bind with ⟨_, between, served, rest⟩
    rcases served.of_bind with ⟨⟨reply, moved⟩, _, serves, ends⟩
    cases ends
    rcases (serve_transacts store site reopens request).of_runs serves with ⟨passed, moved_eq, found⟩
    have document_eq : moved.document = store.document := by
      rw [show moved = _ from moved_eq]
    rw [← document_eq] at found passed ⊢
    exact ih reply passed.site found rest

/-- A store that was opened where a walk can begin, and then used on a machine that may
fail. -/
inductive InUse (document : String) (machine : Machine) (store : Durable) : Prop where
  | intro {earlier opened : Machine} {first : Durable} {calls : List (Store.Call × Bool)}
      (begins : earlier.disk.kind? (earlier.start document) = some .directory)
      (opens : earlier.run (openAt document).run = (.ok first, opened))
      (served : Served first opened calls store machine) : InUse document machine store

theorem InUse.synced (inUse : InUse document machine store) :
    store.document = document ∧ Site document machine ∧ Reopens document machine store.image := by
  rcases inUse with ⟨begins, opens, served⟩
  rcases reopens_of_openAt begins opens with ⟨rfl, site, reopens⟩
  have synced := served.synced site reopens
  refine ⟨?_, synced.site, synced.reopens⟩
  rw [synced.current_eq]

/-- A store that was opened answers, if the host accepts every document of it. -/
theorem answering_of_openAt {earlier : Machine}
    (begins : earlier.disk.kind? (earlier.start document) = some .directory)
    (opens : earlier.run (openAt document).run = (.ok store, machine))
    (accepts : Accepts document machine) : Backend.Answering machine (.durable store) := by
  rcases reopens_of_openAt begins opens with ⟨rfl, site, reopens⟩
  exact .durable ⟨exists_ready site accepts, reopens⟩

end Durable

/-- A file that was written on a machine is found by the same path. -/
theorem Host.Machine.reads_of_write {machine after : Machine} {path : String} {bytes : ByteArray}
    (begins : machine.disk.kind? (machine.start path) = some .directory)
    (written : machine.write path bytes = .ok after) :
    ∃ place, after.locate path = .ok (place, .file) ∧ after.contents path = .ok bytes := by
  rcases checks_of_write written with ⟨noZero, bare, parent, name, located, admitted, _⟩
  rcases changes_of_write written with ⟨place, target, here, keeps, found⟩
  rcases leads_of_locateParent located with ⟨short, leads, directory, isLast, notDot, notUp⟩
  rw [target?_of_locateParent located] at target
  cases target
  have arrived : after.disk.get? (parent ++ [name]) = some (.file bytes) := by
    rw [found, if_pos rfl]
  have arrivedKind := Disk.kind?_eq_file_iff.mpr ⟨bytes, arrived⟩
  have walk : Leads after.disk (after.start path) (Location.segments path) (parent ++ [name]) := by
    rw [start_of_here here]
    exact (leads.of_keeps keeps begins directory).of_dropLast (keeps _ directory) isLast notDot notUp
      admitted arrivedKind
  have file := locate_file noZero short walk arrivedKind bare
  exact ⟨_, file, contents_of_file file arrived⟩

namespace Native

variable {root path : String} {machine after : Machine} {bytes : ByteArray}

/-- The last call of a write that succeeds writes the file. -/
theorem exists_write_of_attempt
    (writes : attempt Machine.serve (writeFile root path bytes) machine = (.ok (), after)) :
    ∃ key between, Key.require path = .ok key ∧ Machine.Extended machine between ∧
      between.write (hostPath root key) bytes = .ok after := by
  rcases attempt_bind_eq_ok writes with ⟨key, start, requires, puts⟩
  rw [attempt_lift] at requires
  rcases Prod.mk.inj requires with ⟨admitted, rfl⟩
  rcases attempt_bind_eq_ok puts with ⟨_, between, walks, last⟩
  have extended := ensureDirectories_extended root (Key.parent key) machine
  rw [walks] at extended
  rcases attempt_bind_eq_ok last with ⟨found, same, looks, writesFile⟩
  have unchanged : same = between := by
    rw [← looks_kind root key between, looks]
  subst unchanged
  refine ⟨key, same, admitted, extended, ?_⟩
  dsimp only at writesFile
  split at writesFile
  · cases writesFile
  · rw [attempt_write] at writesFile
    cases written : same.write (hostPath root key) bytes with
    | error error =>
      rw [written] at writesFile
      cases writesFile
    | ok last =>
      rw [written] at writesFile
      cases writesFile
      rfl

end Native

namespace FileSystem

variable {tree left : FileSystem} {machine after : Machine} {path key root : String}
  {bytes : ByteArray} {content : Content} {answer : Answer} {backend : Backend}

theorem run_perform_native (machine : Machine) (root : String) (operation : Operation) :
    machine.run ((perform operation).run (.native root)) =
      let (result, after) := attempt Machine.serve (Native.perform root operation) machine
      ((result, .native root), after) := by
  have steps : (perform operation).run (.native root) =
      (Native.perform root operation).run >>= fun result => pure (result, .native root) := by
    simp only [perform, StateT.run_bind, StateT.run_get, StateT.run_monadLift, monadLift_self, pure_bind]
  rw [steps, Machine.run_bind]
  rfl

theorem readsBack_native {place : Place} (admitted : Key.require path = .ok key)
    (located : machine.locate (Native.hostPath root key) = .ok (place, .file))
    (contents : machine.contents (Native.hostPath root key) = .ok bytes) :
    ReadsBack path key bytes (.native root) machine := by
  have found : attempt Machine.serve (Native.bytesAt root key) machine = (.ok bytes, machine) := by
    have looks := Native.attempt_kind? machine root key
    rw [located] at looks
    rw [Native.bytesAt, attempt_bind_of_ok looks, if_neg (by simp), Native.attempt_read, contents]
    rfl
  have asBytes : attempt Machine.serve (Native.readBytes root path) machine = (.ok bytes, machine) := by
    rw [Native.readBytes, Native.attempt_require admitted, found]
  have asText : attempt Machine.serve (Native.readText root path) machine =
      (Text.read key bytes, machine) := by
    rw [Native.readText, Native.attempt_require admitted, attempt_bind_of_ok found, Text.read]
    cases String.fromUTF8? bytes <;> rfl
  apply readsBack_of_read
  · rw [run_perform_native, Native.perform, attempt_answer, asBytes]
    rfl
  · rw [run_perform_native, Native.perform, attempt_answer, asText]

/-- An operation on a tree in a store runs a session with the store. -/
theorem exists_runs_of_stored {result : Except FsError Answer} {operation : Operation}
    (ends : machine.run ((perform operation).run (.stored backend)) = ((result, left), after)) :
    ∃ next, left = .stored next ∧
      Runs Machine.faulty ((Backend.run (Virtual.perform operation)).run backend) machine
        (result, next) after := by
  rw [run_perform_stored, Machine.run_bind] at ends
  cases session : machine.run ((Backend.run (Virtual.perform operation)).run backend) with
  | mk outcome last =>
  rw [session] at ends
  cases ends
  exact ⟨outcome.2, rfl, Machine.runs_of_run session⟩

theorem stored_of_write
    (writes : machine.run ((perform (Virtual.Write.operation ⟨path, content⟩)).run (.stored backend)) =
      ((.ok answer, left), after)) :
    ∃ next key, left = .stored next ∧ Key.require path = .ok key ∧
      next.catalog.get? key = some (.file content) := by
  rcases exists_runs_of_stored writes with ⟨next, rfl, runs⟩
  let unseen : Machine → Unit := fun _ => ()
  have seen : Runs Host.unknown
      ((Backend.run (Virtual.perform (Virtual.Write.operation ⟨path, content⟩))).run backend)
      (unseen machine) (.ok answer, next) (unseen after) := runs.project fun _ => trivial
  rcases Backend.stored_of_runs seen with ⟨key, admitted, stored⟩
  exact ⟨next, key, rfl, admitted, stored⟩

theorem readsBack_of_native (begins : machine.disk.kind? machine.here = some .directory)
    (writes : machine.run ((perform (Virtual.Write.operation ⟨path, content⟩)).run (.native root)) =
      ((.ok answer, left), after)) :
    left = .native root ∧ ∃ key, Key.require path = .ok key ∧
      ReadsBack path key content.toBytes (.native root) after := by
  have performs : Native.perform root (Virtual.Write.operation ⟨path, content⟩) =
      (do Native.writeFile root path content.toBytes; return .done) := by
    cases content <;> rfl
  rw [run_perform_native, performs, attempt_answer fun _ => Answer.done] at writes
  cases ends : attempt Machine.serve (Native.writeFile root path content.toBytes) machine with
  | mk outcome last =>
  rw [ends] at writes
  cases outcome with
  | error error => cases writes
  | ok =>
    cases writes
    rcases Native.exists_write_of_attempt ends with ⟨key, between, admitted, extended, written⟩
    have begun := extended.stands (Machine.start_directory begins (Native.hostPath root key))
    rcases Machine.reads_of_write begun written with ⟨place, located, contents⟩
    exact ⟨rfl, key, admitted, readsBack_native admitted located contents⟩

theorem exists_readsBack_of_write (begins : machine.disk.kind? machine.here = some .directory)
    (writes : machine.run ((perform (Virtual.Write.operation ⟨path, content⟩)).run tree) =
      ((.ok answer, left), after)) :
    ∃ key, Key.require path = .ok key ∧ ReadsBack path key content.toBytes left after := by
  cases tree with
  | native root =>
    rcases readsBack_of_native begins writes with ⟨rfl, key, admitted, readsBack⟩
    exact ⟨key, admitted, readsBack⟩
  | stored backend =>
    rcases stored_of_write writes with ⟨next, key, rfl, admitted, stored⟩
    exact ⟨key, admitted, readsBack_stored admitted stored after⟩

/-- A file that was written in a durable store is found when the store is opened again. -/
theorem exists_readsBack_of_reopen {document : String} {store : Durable}
    (inUse : Durable.InUse document machine store) (admitted : Key.require path = .ok key)
    (writes : machine.run ((perform (Virtual.Write.operation ⟨path, content⟩)).run
      (.stored (.durable store))) = ((.ok answer, left), after)) :
    ∃ found, after.run (Durable.openAt document).run = (.ok ⟨document, found⟩, after) ∧
      ReadsBack path key content.toBytes (.stored (.durable ⟨document, found⟩)) after := by
  rcases inUse.synced with ⟨rfl, site, reopens⟩
  rcases stored_of_write writes with ⟨next, other, rfl, same, stored⟩
  cases same.symm.trans admitted
  rcases exists_runs_of_stored writes with ⟨_, ⟨⟩, runs⟩
  rcases Durable.reopens_of_runs site reopens runs with ⟨found, opens, finds⟩
  refine ⟨found, opens, readsBack_stored admitted ?_ after⟩
  exact (finds key).trans stored

/-- A file was just written, as a text or as bytes.  It is read as the same bytes, and as
the text that they spell, if they spell one.  That holds as well after the store in which it
was written has been opened again. -/
theorem text_and_bytes_interconvert {tree left : FileSystem} {machine after : Machine} {path : String}
    {content : Content} (begins : machine.disk.kind? machine.here = some .directory)
    (writes : machine.run ((perform (Virtual.Write.operation ⟨path, content⟩)).run tree) =
      ((.ok .done, left), after)) :
    ∃ key, Key.require path = .ok key ∧ ReadsBack path key content.toBytes left after ∧
      ∀ document store, tree = .stored (.durable store) → Durable.InUse document machine store →
        ∃ found, after.run (Durable.openAt document).run = (.ok ⟨document, found⟩, after) ∧
          ReadsBack path key content.toBytes (.stored (.durable ⟨document, found⟩)) after := by
  rcases exists_readsBack_of_write begins writes with ⟨key, admitted, readsBack⟩
  refine ⟨key, admitted, readsBack, ?_⟩
  rintro document store rfl inUse
  exact exists_readsBack_of_reopen inUse admitted writes

/-- Bytes in a directory of the host that spell a letter with one byte more than it needs,
and a text in a store that is opened again. -/
theorem text_and_bytes_interconvert_reopened :
    (∃ after,
      Native.bare.run ((perform (.write "a/./b" ⟨#[0x61, 0xc1, 0xa1]⟩)).run (.native "root")) =
        ((.ok .done, .native "root"), after) ∧
      after.run ((perform (.readText "a/./b")).run (.native "root")) =
        ((.error (.invalidUtf8 "a/b"), .native "root"), after)) ∧
    ∃ left after found,
      Machine.run ⟨.empty, []⟩ ((perform (.writeText "a" "ü")).run (.stored (.durable ⟨"saves", .empty⟩))) =
        ((.ok .done, left), after) ∧
      after.run (Durable.openAt "saves").run = (.ok ⟨"saves", found⟩, after) ∧
      after.run ((perform (.readText "a")).run (.stored (.durable ⟨"saves", found⟩))) =
        ((.ok (.text "ü"), .stored (.durable ⟨"saves", found⟩)), after) := by
  constructor
  · obtain ⟨after, writes⟩ : ∃ after,
        Native.bare.run ((perform (.write "a/./b" ⟨#[0x61, 0xc1, 0xa1]⟩)).run (.native "root")) =
          ((.ok .done, .native "root"), after) := ⟨_, rfl⟩
    have wrong : Text.Malformed ⟨#[0x61, 0xc1, 0xa1]⟩ :=
      ⟨"a", [0xc1, 0xa1], .overlong (.inr (.inl rfl)), by decide⟩
    let content : Content := .bytes ⟨#[0x61, 0xc1, 0xa1]⟩
    have writes : Native.bare.run
        ((perform (Virtual.Write.operation ⟨"a/./b", content⟩)).run (.native "root")) =
          ((.ok .done, .native "root"), after) := writes
    rcases text_and_bytes_interconvert rfl writes with ⟨key, admitted, readsBack, _⟩
    cases admitted
    exact ⟨after, writes, readsBack.malformed wrong⟩
  · let machine : Machine := ⟨.empty, []⟩
    have opens : machine.run (Durable.openAt "saves").run = (.ok ⟨"saves", .empty⟩, machine) := rfl
    have answering : Backend.Answering machine (.durable ⟨"saves", .empty⟩) :=
      Durable.answering_of_openAt rfl opens fun _ => ⟨_, _, rfl, rfl⟩
    rcases answering.perform (Virtual.Write.operation ⟨"a", .text "ü"⟩) with
      ⟨result, next, after, inMemory, writes, _⟩
    cases inMemory
    rcases text_and_bytes_interconvert rfl writes with ⟨key, admitted, _, reopened⟩
    cases admitted
    rcases reopened "saves" ⟨"saves", .empty⟩ rfl (.intro rfl opens .none) with
      ⟨found, opensAgain, readsBack⟩
    exact ⟨_, after, found, writes, opensAgain, (readsBack.asText "ü").mpr rfl⟩

/-! ## JSON -/

section

open Json

variable {value : Value}

theorem run_readJson_of_text {α : Type} (parse : String → Except Error α) {text : String}
    (reads : machine.run ((perform (.readText path)).run tree) = ((.ok (.text text), left), after)) :
    machine.run ((readJson parse path).run tree) = (((parse text).mapError .json, left), after) := by
  rw [readJson, StateT.run_bind, Machine.run_bind, reads]
  rfl

/-- A successful write of a value is one of its text. -/
theorem exists_write_of_writeJson
    (writes : machine.run ((writeJson path value).run tree) = ((.ok (), left), after)) :
    ∃ answer, machine.run ((perform (Virtual.Write.operation ⟨path, .text value.pretty⟩)).run tree) =
      ((.ok answer, left), after) := by
  rw [run_writeJson] at writes
  cases ends : machine.run ((perform (.writeJson path value)).run tree) with
  | mk outcome last =>
  rcases outcome with ⟨result, next⟩
  rw [ends] at writes
  cases result with
  | error error => cases writes
  | ok answer =>
    cases writes
    exact ⟨answer, ends⟩

/-- Where a file is read as the text of a value, it is read as the value with maps for its
objects. -/
theorem ReadsBack.json (readsBack : ReadsBack path key (Content.text value.pretty).toBytes tree machine)
    (whole : value.Whole) (fits : value.depth ≤ 127) :
    machine.run ((readJson Value.parse path).run tree) = ((.ok value.sorted, tree), machine) := by
  have text := (readsBack.asText value.pretty).mpr rfl
  rw [run_readJson_of_text Value.parse text, Value.parse_pretty whole fits]
  rfl

end

/-- A JSON value was just written.  Its numbers are integers of 64 bits, and its arrays and
objects nest at most 127 deep.  Then the value is read from the file with its objects as
maps, which is the value itself if they are maps already.  That holds as well after the
store in which it was written has been opened again. -/
theorem readJson_undoes_writeJson {tree left : FileSystem} {machine after : Machine} {path : String}
    {value : Json.Value} (begins : machine.disk.kind? machine.here = some .directory)
    (whole : value.Whole) (fits : value.depth ≤ 127)
    (writes : machine.run ((writeJson path value).run tree) = ((.ok (), left), after)) :
    after.run ((readJson Json.Value.parse path).run left) = ((.ok value.sorted, left), after) ∧
      (value.sorted = value ↔ value.Ordered) ∧
      ∀ document store, tree = .stored (.durable store) → Durable.InUse document machine store →
        ∃ found, after.run (Durable.openAt document).run = (.ok ⟨document, found⟩, after) ∧
          after.run ((readJson Json.Value.parse path).run (.stored (.durable ⟨document, found⟩))) =
            ((.ok value.sorted, .stored (.durable ⟨document, found⟩)), after) := by
  rcases exists_write_of_writeJson writes with ⟨answer, written⟩
  rcases exists_readsBack_of_write begins written with ⟨key, admitted, readsBack⟩
  refine ⟨readsBack.json whole fits, Json.Value.sorted_eq_self_iff, ?_⟩
  rintro document store rfl inUse
  rcases exists_readsBack_of_reopen inUse admitted written with ⟨found, opens, reopened⟩
  exact ⟨found, opens, reopened.json whole fits⟩

/-- The least and the greatest integer, empty containers and names that need escapes or
several bytes, in a store that is opened again. -/
theorem readJson_undoes_writeJson_reopened :
    let value : Json.Value := .object [
      ("\n\"", .array [.number (.int (-0x8000000000000000)), .number (.int 0xffffffffffffffff)]),
      ("ä", .object [("", .array []), ("𝄞", .object [])])]
    ∃ left after found,
      Machine.run ⟨.empty, []⟩ ((writeJson "a/b" value).run (.stored (.durable ⟨"saves", .empty⟩))) =
        ((.ok (), left), after) ∧
      after.run ((readJson Json.Value.parse "a/b").run left) = ((.ok value, left), after) ∧
      after.run (Durable.openAt "saves").run = (.ok ⟨"saves", found⟩, after) ∧
      after.run ((readJson Json.Value.parse "a/b").run (.stored (.durable ⟨"saves", found⟩))) =
        ((.ok value, .stored (.durable ⟨"saves", found⟩)), after) := by
  intro value
  let machine : Machine := ⟨.empty, []⟩
  have opens : machine.run (Durable.openAt "saves").run = (.ok ⟨"saves", .empty⟩, machine) := rfl
  have writable : Backend.Writable machine (.durable ⟨"saves", .empty⟩) "a/b" :=
    ⟨Durable.answering_of_openAt rfl opens fun _ => ⟨_, _, rfl, rfl⟩, rfl⟩
  have admitted : Key.require "a/b" = .ok "a/b" := rfl
  rcases writable.write admitted value with ⟨next, after, writes, _⟩
  have whole : value.Whole := by
    simp [value, Json.Value.Whole, Json.Value.WholeMembers, Json.Value.WholeItems]
  have ordered : value.Ordered := by
    have outer : "\n\"" < "ä" := by decide
    have inner : "" < "𝄞" := by decide
    exact ⟨List.pairwise_pair.mpr outer, ⟨trivial, trivial, trivial⟩,
      ⟨List.pairwise_pair.mpr inner, trivial, ⟨.nil, trivial⟩, trivial⟩, trivial⟩
  rcases readJson_undoes_writeJson rfl whole (by decide) writes with ⟨reads, kept, reopened⟩
  rw [kept.mpr ordered] at reads reopened
  rcases reopened "saves" ⟨"saves", .empty⟩ rfl (.intro rfl opens .none) with
    ⟨found, opensAgain, readsAgain⟩
  exact ⟨_, after, found, writes, reads, opensAgain, readsAgain⟩

end FileSystem

end SaveTree
