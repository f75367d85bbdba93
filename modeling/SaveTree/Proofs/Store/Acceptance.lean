import SaveTree.Proofs.Host.Subtree
import SaveTree.Proofs.Store.Memory
import SaveTree.Proofs.Store.Transactions

namespace SaveTree

/-!
# Hosts that accept a document

If a host lets a document be committed once, it lets it be committed again: the
commit leaves the document as a file, nothing beside it, and everything else as it
was.  On such a host a durable store answers all its calls, and does so as a memory
does; and whoever opens its document finds what the memory holds.
-/

namespace Host.Machine

variable {machine after : Machine} {path name : String} {parent : Place} {bytes : ByteArray}

/-- A file is written in a directory, where no directory is. -/
theorem write_of_free (noZero : checkBytes path = .ok ())
    (located : machine.locateParent path = .ok (parent, some name))
    (bare : Location.endsWithSlash path = false) (admitted : admitName name = .ok ())
    (free : machine.disk.kind? (parent ++ [name]) ≠ some .directory) (bytes : ByteArray) :
    machine.write path bytes =
      .ok { machine with disk := machine.disk.putFile (parent ++ [name]) bytes } := by
  rw [write, noZero, located]
  dsimp only [Bind.bind, Except.bind]
  rw [bare, if_neg Bool.false_ne_true, admitted, if_neg free]
  rfl

/-- What the success of a write tells about its path. -/
theorem checks_of_write (written : machine.write path bytes = .ok after) :
    checkBytes path = .ok () ∧ Location.endsWithSlash path = false ∧
      ∃ parent name, machine.locateParent path = .ok (parent, some name) ∧
        admitName name = .ok () ∧ machine.disk.kind? (parent ++ [name]) ≠ some .directory := by
  rcases exists_of_bind written with ⟨_, noZero, written⟩
  rcases exists_of_bind written with ⟨⟨parent, last⟩, located, written⟩
  cases last with
  | none => cases written
  | some name =>
    dsimp only at written
    split at written
    · cases written
    · rename_i bare
      rcases exists_of_bind written with ⟨_, admitted, written⟩
      split at written
      · cases written
      · rename_i free
        exact ⟨noZero, Bool.eq_false_iff.mpr bare, parent, name, located, admitted, free⟩

end Host.Machine

namespace Durable

open Host Host.Machine Host.Location

variable {document : String} {machine after : Machine} {image : Catalog}

/-- The host lets the document be committed, whatever its bytes. -/
def Accepts (document : String) (machine : Machine) : Prop :=
  ∀ bytes, ∃ between after, machine.write (temporary document) bytes = .ok between ∧
    between.rename (temporary document) document = .ok after

/-- All that the host looks at when a document is committed. -/
structure Seat.Ready (seat : Seat document) (machine : Machine) : Prop where
  stands : seat.Stands machine
  alone : seat.behind = []
  noZero : checkBytes document = .ok ()
  short : admitLength document = .ok ()
  bare : endsWithSlash document = false
  admitted : admitName seat.name = .ok ()
  free : machine.disk.kind? (seat.place ++ [seat.name]) ≠ some .directory
  noZeroSpare : checkBytes (temporary document) = .ok ()
  shortSpare : admitLength (temporary document) = .ok ()
  bareSpare : endsWithSlash (temporary document) = false
  admittedSpare : admitName seat.spareName = .ok ()
  freeSpare : machine.disk.kind? (seat.place ++ [seat.spareName]) ≠ some .directory

namespace Seat.Ready

variable {seat : Seat document} (ready : seat.Ready machine)

include ready

theorem locateParent_document : machine.locateParent document = .ok (seat.place, some seat.name) := by
  have anchored := ready.stands.anchored ready.alone
  rw [locateParent_of_leads ready.short anchored.leads anchored.directory,
    seat.lastName?_of_bare ready.alone]

theorem locateParent_temporary :
    machine.locateParent (temporary document) = .ok (seat.place, some seat.spareName) := by
  have anchored := ready.stands.anchored_temporary
  rw [locateParent_of_leads ready.shortSpare anchored.leads anchored.directory,
    seat.lastName?_temporary]

/-- The host keeps ready as long as no directory takes one of the two places. -/
theorem of_keeps (here : after.here = machine.here) (keeps : Keeps machine.disk after.disk)
    (free : after.disk.kind? (seat.place ++ [seat.name]) ≠ some .directory)
    (freeSpare : after.disk.kind? (seat.place ++ [seat.spareName]) ≠ some .directory) :
    seat.Ready after :=
  { ready with stands := ready.stands.of_keeps here keeps, free := free, freeSpare := freeSpare }

/-- Once a file stands beside the document the host is still ready. -/
theorem of_write {bytes : ByteArray} (written : machine.write (temporary document) bytes = .ok after) :
    seat.Ready after ∧ after.disk.get? (seat.place ++ [seat.spareName]) = some (.file bytes) := by
  rcases changes_of_write written with ⟨spare, foundSpare, here, keeps, found⟩
  cases ready.stands.target?_temporary foundSpare
  have file : after.disk.get? (seat.place ++ [seat.spareName]) = some (.file bytes) := by
    rw [found, if_pos rfl]
  refine ⟨ready.of_keeps here keeps ?_ ?_, file⟩
  · rw [Disk.kind?, found, if_neg seat.spare_ne_file.symm]
    exact ready.free
  · rw [Disk.kind?, file]
    intro directory
    cases directory

/-- A file beside the document is renamed over it, and the host is ready again. -/
theorem exists_rename {bytes : ByteArray}
    (file : machine.disk.get? (seat.place ++ [seat.spareName]) = some (.file bytes)) :
    ∃ after, machine.rename (temporary document) document = .ok after ∧ seat.Ready after := by
  have apart : ∀ {first second : String}, seat.place ++ [first] ≠ seat.place ++ [second] →
      ¬ seat.place ++ [first] <+: seat.place ++ [second] :=
    fun different inside => different (inside.eq_of_length (by simp))
  have isFile := Disk.kind?_eq_file_iff.mpr ⟨bytes, file⟩
  have renamed := rename_of_free ready.noZeroSpare ready.noZero ready.locateParent_temporary
    ready.locateParent_document ready.admittedSpare ready.admitted isFile ready.bareSpare ready.bare
    (apart seat.spare_ne_file) (apart seat.spare_ne_file.symm) (by
      intro occupied stands
      cases occupied with
      | directory => exact absurd stands ready.free
      | file =>
        refine ⟨rfl, ?_⟩
        intro directory
        cases directory)
  rcases nonempty_renaming renamed with ⟨moving⟩
  have old_eq := ready.stands.target?_temporary moving.target?_source
  have new_eq := ready.stands.target?_document moving.target?_target
  have different : moving.old ≠ moving.new := by
    rw [old_eq, new_eq]
    exact seat.spare_ne_file
  rcases Renaming.changes different (old_eq ▸ file) with ⟨here, keeps, found⟩
  rw [old_eq, new_eq] at found
  refine ⟨_, renamed, ready.of_keeps here keeps ?_ ?_⟩
  · rw [Disk.kind?, found, if_pos rfl]
    intro directory
    cases directory
  · rw [Disk.kind?, found, if_neg seat.spare_ne_file, if_pos rfl]
    intro directory
    cases directory

theorem exists_commit (bytes : ByteArray) :
    ∃ between after, machine.write (temporary document) bytes = .ok between ∧
      between.rename (temporary document) document = .ok after ∧ seat.Ready after := by
  have written := write_of_free ready.noZeroSpare ready.locateParent_temporary ready.bareSpare
    ready.admittedSpare ready.freeSpare bytes
  rcases ready.of_write written with ⟨readyBetween, file⟩
  rcases readyBetween.exists_rename file with ⟨after, renamed, readyAfter⟩
  exact ⟨_, after, written, renamed, readyAfter⟩

end Seat.Ready

/-- A commit moves a file from its place beside the document to the document's, and
no directory is there. -/
theorem Seat.Stands.of_commit {seat : Seat document} {between : Machine} {bytes : ByteArray}
    (stands : seat.Stands machine) (written : machine.write (temporary document) bytes = .ok between)
    (moving : Renaming between (temporary document) document after) :
    moving.new = seat.place ++ [seat.name] ∧ moving.kind = .file ∧
      machine.disk.kind? (seat.place ++ [seat.name]) ≠ some .directory := by
  rcases changes_of_write written with ⟨spare, foundSpare, here, keeps, found⟩
  cases stands.target?_temporary foundSpare
  have standsBetween := stands.of_keeps here keeps
  have old_eq := standsBetween.target?_temporary moving.target?_source
  have new_eq := standsBetween.target?_document moving.target?_target
  have isFile : moving.kind = .file := by
    have stood : between.disk.kind? moving.old = some moving.kind := moving.stands
    rw [old_eq, Disk.kind?, found, if_pos rfl] at stood
    exact (Option.some.inj stood).symm
  have different : moving.old ≠ moving.new := by
    rw [old_eq, new_eq]
    exact seat.spare_ne_file
  have free : between.disk.kind? moving.new ≠ some .directory := (moving.moves different).1 isFile
  rw [new_eq, Disk.kind?, found, if_neg seat.spare_ne_file.symm] at free
  exact ⟨new_eq, isFile, free⟩

/-- A host that has let a document be committed was ready for it. -/
theorem exists_ready_of_commit {between : Machine} {bytes : ByteArray} (site : Site document machine)
    (written : machine.write (temporary document) bytes = .ok between)
    (renamed : between.rename (temporary document) document = .ok after) :
    ∃ seat : Seat document, seat.Ready machine := by
  rcases nonempty_renaming renamed with ⟨moving⟩
  cases site with
  | nowhere empty anchored =>
    subst empty
    cases (leads_of_locateParent moving.targetLocated).1
  | seated seat stands =>
  rcases stands.of_commit written moving with ⟨new_eq, isFile, free⟩
  rcases checks_of_write written with
    ⟨noZeroSpare, bareSpare, parent, name, located, admittedSpare, freeSpare⟩
  have alone : seat.behind = [] := by
    by_cases alone : seat.behind = []
    · exact alone
    · have unplaced : between.target? document = none :=
        target?_of_unnamed (seat.lastName?_of_not_bare alone)
      rw [moving.target?_target] at unplaced
      cases unplaced
  -- the names that the host has admitted are those of the seat
  have spare_eq := stands.target?_temporary (target?_of_locateParent located)
  have name_eq : moving.targetName = seat.name :=
    List.singleton_inj.mp (List.append_inj' new_eq rfl).2
  have spareName_eq : name = seat.spareName :=
    List.singleton_inj.mp (List.append_inj' spare_eq rfl).2
  exact ⟨seat, {
    stands := stands
    alone := alone
    noZero := moving.noZero
    short := (leads_of_locateParent moving.targetLocated).1
    bare := moving.bare isFile
    admitted := name_eq ▸ moving.admitted
    free := free
    noZeroSpare := noZeroSpare
    shortSpare := (leads_of_locateParent located).1
    bareSpare := bareSpare
    admittedSpare := spareName_eq ▸ admittedSpare
    freeSpare := spare_eq ▸ freeSpare }⟩

/-- A host that accepts a document is ready for it. -/
theorem exists_ready (site : Site document machine) (accepts : Accepts document machine) :
    ∃ seat : Seat document, seat.Ready machine := by
  rcases accepts .empty with ⟨between, after, written, renamed⟩
  exact exists_ready_of_commit site written renamed

/-! ## Stores on such hosts -/

/-- The host is ready for the document, and whoever opens it finds the image. -/
structure Working (document : String) (machine : Machine) (image : Catalog) : Prop where
  ready : ∃ seat : Seat document, seat.Ready machine
  reopens : Reopens document machine image

namespace Working

theorem site (working : Working document machine image) : Site document machine := by
  rcases working.ready with ⟨seat, ready⟩
  exact .seated seat ready.stands

/-- A commit succeeds. -/
theorem commit (working : Working document machine image) (next : Catalog) :
    ∃ after, machine.run (commit document next).run = (.ok (), after) ∧
      Working document after next := by
  rcases working.ready with ⟨seat, ready⟩
  rcases ready.exists_commit (Document.encode next) with
    ⟨between, after, written, renamed, readyAfter⟩
  rcases working.site.of_rename written renamed with ⟨siteAfter, _, holds⟩
  have writes : machine.act (Host.write (temporary document) (Document.encode next)) =
      (.ok (), between) := by
    rw [act_write, written]
  have renames : between.act (Host.rename (temporary document) document) = (.ok (), after) := by
    rw [act_rename, renamed]
  have commits : machine.act (Durable.commit document next) = (.ok (), after) := by
    rw [Durable.commit, act_bind, writes]
    exact renames
  exact ⟨after, commits, ⟨seat, readyAfter⟩, reopens_of_encode siteAfter holds⟩

/-- A store answers a call as a memory does. -/
theorem serve (working : Working document machine image) (call : Store.Call) :
    ∃ after, machine.run ((serve call).run ⟨document, image⟩) =
        ((.ok (call.answer image), ⟨document, call.effect image⟩), after) ∧
      Working document after (call.effect image) := by
  cases concern : concerns image call with
  | true =>
    rcases working.commit (call.effect image) with ⟨after, commits, workingAfter⟩
    refine ⟨after, ?_, workingAfter⟩
    rw [serve_run_of_concerns concern, Machine.run_bind, commits]
    rfl
  | false =>
    refine ⟨machine, ?_, ?_⟩
    · rw [serve_run_of_not_concerns concern, effect_eq_self concern]
      rfl
    · rw [effect_eq_self concern]
      exact working

/-- A store runs a program as a memory does. -/
theorem run {α : Type} (working : Working document machine image)
    (program : Program Store.calls α) :
    ∃ result next after,
      (Program.run Store.memory program : StateM Catalog α).run image = (result, next) ∧
      machine.run ((program.run Backend.serve).run (.durable ⟨document, image⟩)) =
        ((result, .durable ⟨document, next⟩), after) ∧
      Working document after next := by
  induction program generalizing machine image with
  | done value => exact ⟨value, image, machine, rfl, rfl, working⟩
  | call request next ih =>
    rcases working.serve request with ⟨between, served, workingBetween⟩
    rcases ih (.ok (request.answer image)) workingBetween with
      ⟨result, last, after, inMemory, onHost, workingAfter⟩
    refine ⟨result, last, after, inMemory, ?_, workingAfter⟩
    rw [Program.run_call, StateT.run_bind, Backend.serve_run_durable, bind_assoc, Machine.run_bind,
      served]
    exact onHost

end Working

end Durable
end SaveTree
