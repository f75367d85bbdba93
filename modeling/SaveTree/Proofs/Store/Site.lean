import SaveTree.Proofs.Host.Directories
import SaveTree.Proofs.Store.Codec
import SaveTree.Store.Durable

namespace SaveTree
namespace Durable

open Host Host.Machine Host.Location

/-!
# Where a document stands

Opening a store walks to the directory of its document and reads the document.
Once this has succeeded, the directory is there, and as long as it is there the
document and the file beside it keep their places.  Opening again then does
nothing but read the document, and a walk to the document does not see the file
beside it.
-/

/-- The path of a document cut at its file name, and the place of the directory
before it. -/
structure Seat (document : String) where
  parent : String
  name : String
  before : List String
  behind : List String
  place : Place
  stepped : Stepped document parent name before behind
  named : fileName? document = some name
  notUp : name ≠ ".."

namespace Seat

variable {document : String} (seat : Seat document) {machine after : Machine}

/-- The name of the file beside the document. -/
def spareName : String :=
  seat.name ++ ".tmp"

theorem name_ne_dot : seat.name ≠ "." := by
  intro dot
  have active := seat.stepped.active
  rw [dot] at active
  cases active

theorem length_spareName : 4 < seat.spareName.length := by
  have nonempty : seat.name.length ≠ 0 := by
    intro empty
    have active := seat.stepped.active
    rw [String.length_eq_zero_iff.mp empty] at active
    cases active
  have tail : ".tmp".length = 4 := rfl
  rw [spareName, String.length_append, tail]
  omega

theorem spareName_ne_of_length {other : String} (short : other.length ≤ 4) :
    seat.spareName ≠ other := by
  intro same
  have long := seat.length_spareName
  rw [same] at long
  omega

theorem spare_ne_file : seat.place ++ [seat.spareName] ≠ seat.place ++ [seat.name] := by
  intro same
  have lengths := congrArg String.length (List.singleton_inj.mp (List.append_cancel_left same))
  have tail : ".tmp".length = 4 := rfl
  rw [spareName, String.length_append, tail] at lengths
  omega

theorem clean_spareName : '/' ∉ seat.spareName.toList := by
  rw [spareName, String.toList_append]
  intro slash
  rcases List.mem_append.mp slash with inName | inTail
  · exact seat.stepped.clean inName
  · revert inTail
    decide

theorem temporary_eq : temporary document = join seat.parent seat.spareName := by
  rw [temporary, withFileName, seat.named, seat.stepped.parent_eq]
  rfl

theorem segments_temporary :
    segments (temporary document) = segments seat.parent ++ [seat.spareName] := by
  rw [temporary_eq]
  rw [segments_join, segments_name (seat.spareName_ne_of_length (by decide)) seat.clean_spareName]

include seat in
theorem start_temporary : machine.start (temporary document) = machine.start document := by
  rw [start, start, temporary_eq seat, isAbsolute_join seat.clean_spareName,
    seat.stepped.absolute_eq]

theorem lastName?_temporary : lastName? (temporary document) = some seat.spareName := by
  refine lastName?_eq_some_iff.mpr ⟨?_, ?_, ?_⟩
  · rw [segments_temporary seat, List.getLast?_concat]
  · exact seat.spareName_ne_of_length (by decide)
  · exact seat.spareName_ne_of_length (by decide)

theorem lastName?_of_bare (bare : seat.behind = []) : lastName? document = some seat.name := by
  refine lastName?_eq_some_iff.mpr ⟨?_, seat.name_ne_dot, seat.notUp⟩
  rw [seat.stepped.segments_eq, bare, ← List.append_assoc, List.getLast?_concat]

/-- With anything behind the name the last segment is a dot. -/
theorem lastName?_of_not_bare (more : seat.behind ≠ []) : lastName? document = none := by
  have last : (segments document).getLast? = some "." := by
    have dot := seat.stepped.dotsBehind _ (List.getLast_mem more)
    rcases List.getLast?_eq_some_iff.mp (List.getLast?_eq_some_getLast more) with ⟨front, split⟩
    rw [seat.stepped.segments_eq, split, dot, ← List.cons_append, ← List.append_assoc,
      ← List.append_assoc, List.getLast?_concat]
  rw [lastName?, last]
  rfl

/-- The directory of the document is there, and a walk along its path finds it. -/
structure Stands (machine : Machine) : Prop where
  begins : machine.disk.kind? (machine.start document) = some .directory
  leads : Leads machine.disk (machine.start document) (segments seat.parent) seat.place
  directory : machine.disk.kind? seat.place = some .directory
  admitted : seat.parent ≠ "" → checkBytes seat.parent = .ok () ∧ admitLength seat.parent = .ok ()

namespace Stands

variable {seat}

theorem of_keeps (stands : seat.Stands machine) (here : after.here = machine.here)
    (keeps : Keeps machine.disk after.disk) : seat.Stands after where
  begins := by
    rw [start_of_here here]
    exact keeps _ stands.begins
  leads := by
    rw [start_of_here here]
    exact stands.leads.of_keeps keeps stands.begins stands.directory
  directory := keeps _ stands.directory
  admitted := stands.admitted

theorem anchored_temporary (stands : seat.Stands machine) :
    Anchored machine (temporary document) seat.place where
  begins := by
    rw [seat.start_temporary]
    exact stands.begins
  leads := by
    rw [seat.start_temporary, seat.segments_temporary, List.dropLast_concat]
    exact stands.leads
  directory := stands.directory

/-- The walk to the document's directory, with the dots behind it. -/
theorem leads_before (stands : seat.Stands machine) :
    Leads machine.disk (machine.start document) (segments seat.parent ++ seat.before) seat.place :=
  leads_append.mpr ⟨seat.place, stands.leads, leads_dots seat.stepped.dotsBefore stands.directory⟩

theorem anchored (stands : seat.Stands machine) (bare : seat.behind = []) :
    Anchored machine document seat.place where
  begins := stands.begins
  leads := by
    rw [seat.stepped.segments_eq, bare, ← List.append_assoc, List.dropLast_concat]
    exact stands.leads_before
  directory := stands.directory

theorem target?_keeps (stands : seat.Stands machine) (here : after.here = machine.here)
    (keeps : Keeps machine.disk after.disk) : after.target? document = machine.target? document := by
  by_cases bare : seat.behind = []
  · rw [(stands.anchored bare).target?_eq, ((stands.of_keeps here keeps).anchored bare).target?_eq]
  · rw [target?_of_unnamed (seat.lastName?_of_not_bare bare),
      target?_of_unnamed (seat.lastName?_of_not_bare bare)]

theorem target?_temporary (stands : seat.Stands machine) {place : Place}
    (found : machine.target? (temporary document) = some place) :
    place = seat.place ++ [seat.spareName] :=
  stands.anchored_temporary.eq_of_target? seat.lastName?_temporary found

theorem target?_document (stands : seat.Stands machine) {place : Place}
    (found : machine.target? document = some place) : place = seat.place ++ [seat.name] := by
  by_cases bare : seat.behind = []
  · exact (stands.anchored bare).eq_of_target? (seat.lastName?_of_bare bare) found
  · rw [target?_of_unnamed (seat.lastName?_of_not_bare bare)] at found
    cases found

/-- The document is read alike on two machines with the same thing at its place. -/
theorem contents_congr (stands : seat.Stands machine) (here : after.here = machine.here)
    (keeps : Keeps machine.disk after.disk)
    (same : after.disk.get? (seat.place ++ [seat.name]) = machine.disk.get? (seat.place ++ [seat.name])) :
    after.contents document = machine.contents document := by
  have sameKind : after.disk.kind? (seat.place ++ [seat.name]) =
      machine.disk.kind? (seat.place ++ [seat.name]) := by
    rw [Disk.kind?, same, Disk.kind?]
  have split : segments document =
      (segments seat.parent ++ seat.before) ++ seat.name :: seat.behind := by
    rw [seat.stepped.segments_eq, List.append_assoc]
  have walks : (segments document).foldlM (enter after.disk) (after.start document) =
      (segments document).foldlM (enter machine.disk) (machine.start document) := by
    have walk := stands.leads_before
    have walkAfter := (stands.of_keeps here keeps).leads_before
    have sameHere : after.disk.kind? seat.place = machine.disk.kind? seat.place := by
      rw [stands.directory, keeps _ stands.directory]
    unfold Leads at walk walkAfter
    rw [split, List.foldlM_append, walkAfter, List.foldlM_append, walk]
    dsimp only [bind, Except.bind]
    rw [List.foldlM_cons, List.foldlM_cons, enter_congr sameHere sameKind]
    cases arrives : enter machine.disk seat.place seat.name with
    | error error => rfl
    | ok next =>
      -- dots behind the name look at nothing but the document itself
      rw [eq_of_enter_name seat.name_ne_dot seat.notUp arrives]
      exact foldlM_dots_congr seat.stepped.dotsBehind sameKind
  apply Machine.contents_congr walks
  intro place leads
  rw [split] at leads
  rcases leads_append.mp leads with ⟨between, first, rest⟩
  rcases leads_cons.mp rest with ⟨next, arrives, dots⟩
  have atPlace : between = seat.place := by
    have both := first.symm.trans stands.leads_before
    cases both
    rfl
  subst atPlace
  have atName := eq_of_enter_name seat.name_ne_dot seat.notUp arrives
  rw [eq_of_leads_dots seat.stepped.dotsBehind dots, atName]
  exact same

end Stands
end Seat

/-! ## Opening a store -/

variable {document : String} {machine after : Machine}

/-- Creates the directories above a document. -/
def prepare (document : String) : Action Unit :=
  (parent? document).elim (pure ()) createDirectories

/-- What opening a store makes of its document. -/
def outcome (document : String) : Except HostError ByteArray → Except FsError Durable
  | .ok bytes => (Document.decode document bytes).map fun image => ⟨document, image⟩
  | .error .notFound => .ok ⟨document, .empty⟩
  | .error error => .error (.storeUnavailable document error)

/-- Reads the document of a store. -/
def readAt (document : String) : ExceptT FsError Host.Program Durable := do
  match ← (Host.read document).run with
  | .ok bytes => return ⟨document, ← (Document.decode document bytes : Except FsError Catalog)⟩
  | .error .notFound => return ⟨document, .empty⟩
  | .error error => throw (.storeUnavailable document error)

theorem run_readAt (machine : Machine) (document : String) :
    machine.run (readAt document).run = (outcome document (machine.contents document), machine) := by
  have asks : ∃ next : Except HostError ByteArray → Host.Program (Except FsError Durable),
      (readAt document).run = .call (.read document) next ∧
      ∀ found, next found = .done (outcome document found) := by
    refine ⟨_, rfl, ?_⟩
    intro found
    cases found with
    | error error => cases error <;> rfl
    | ok bytes =>
      change ExceptT.bindCont (m := Host.Program) (fun image => pure (Durable.mk document image))
        (Document.decode document bytes) = _
      dsimp only [outcome]
      cases Document.decode document bytes <;> rfl
  rcases asks with ⟨next, asked, replied⟩
  have resumed : machine.run (.call (.read document) next) =
      machine.run (next (machine.contents document)) := rfl
  rw [asked, resumed, replied]
  rfl

theorem openAt_eq (document : String) :
    openAt document = (do
      Host.orFail (.storeUnavailable document) (prepare document)
      readAt document) := by
  unfold openAt prepare
  split
  · rename_i root
    rw [root]
    rfl
  · rename_i bare
    rw [bare]
    rfl
  · rename_i parent _ above
    rw [above]
    rfl

theorem run_openAt (machine : Machine) (document : String) :
    machine.run (openAt document).run =
      match machine.act (prepare document) with
      | (.ok (), after) => (outcome document (after.contents document), after)
      | (.error error, after) => (.error (.storeUnavailable document error), after) := by
  rw [openAt_eq, ExceptT.run_bind, run_bind, run_orFail]
  cases machine.act (prepare document) with
  | mk result between =>
    cases result with
    | ok => exact run_readAt between document
    | error error => rfl

theorem createDirectories_of_ne {path : String} (nonempty : path ≠ "") :
    createDirectories path = createUpwards (path :: Location.above path) := by
  rw [createDirectories, if_neg nonempty]

theorem extended_prepare (machine : Machine) (document : String) :
    Extended machine (machine.act (prepare document)).2 := by
  unfold prepare
  cases parent? document with
  | none => exact Extended.refl machine
  | some parent =>
    by_cases empty : parent = ""
    · subst empty
      exact Extended.refl machine
    · dsimp only [Option.elim]
      rw [createDirectories_of_ne empty]
      exact extended_createUpwards machine _

/-- The directory above a document is there when it has been prepared. -/
theorem leads_of_prepare {parent : String} (above : parent? document = some parent)
    (absolute : isAbsolute parent = isAbsolute document)
    (begins : machine.disk.kind? (machine.start document) = some .directory)
    (prepared : machine.act (prepare document) = (.ok (), after)) :
    ∃ place, Leads after.disk (after.start document) (segments parent) place ∧
      after.disk.kind? place = some .directory ∧
      (parent ≠ "" → checkBytes parent = .ok () ∧ admitLength parent = .ok ()) := by
  have sameStart : ∀ machine : Machine, machine.start parent = machine.start document := by
    intro machine
    rw [start, start, absolute]
  rw [prepare, above] at prepared
  dsimp only [Option.elim] at prepared
  by_cases empty : parent = ""
  · subst empty
    cases prepared
    exact ⟨machine.start document, leads_nil.mpr rfl, begins, fun nonempty => absurd rfl nonempty⟩
  · rw [createDirectories_of_ne empty] at prepared
    have created := created_createUpwards machine parent (Location.above parent)
    rw [prepared] at created
    rw [← sameStart] at begins
    rcases created.located begins rfl with ⟨place, located⟩
    rcases leads_of_locate located with ⟨noZero, short, leads, directory⟩
    rw [sameStart] at leads
    exact ⟨place, leads, directory, fun _ => ⟨noZero, short⟩⟩

/-- A document that is a directory cannot be opened. -/
theorem outcome_of_directory {place : Place} (nonempty : document ≠ "")
    (leads : Leads machine.disk (machine.start document) (segments document) place)
    (directory : machine.disk.kind? place = some .directory) (store : Durable) :
    outcome document (machine.contents document) ≠ .ok store := by
  by_cases zero : document.toList.contains '\x00' = true
  · have refused : machine.contents document = .error .zeroByte := by
      rw [Machine.contents, locate, checkBytes, if_pos zero]
      rfl
    rw [refused]
    intro opens
    cases opens
  have noZero : checkBytes document = .ok () := by
    rw [checkBytes, if_neg zero]
  by_cases long : pathLimit ≤ document.utf8ByteSize
  · have refused : machine.contents document = .error .nameTooLong := by
      rw [Machine.contents, locate, noZero, admitLength, if_neg nonempty, if_pos long]
      rfl
    rw [refused]
    intro opens
    cases opens
  have short : admitLength document = .ok () := by
    rw [admitLength, if_neg nonempty, if_neg long]
  rw [contents_of_directory (locate_directory noZero short leads directory)]
  intro opens
  cases opens

/-- A path without a file name leads to a directory if the one above it is there. -/
theorem exists_leads_of_no_fileName (nonempty : document ≠ "") (unnamed : fileName? document = none)
    (begins : machine.disk.kind? (machine.start document) = some .directory)
    (prepared : machine.act (prepare document) = (.ok (), after)) :
    ∃ place, Leads after.disk (after.start document) (segments document) place ∧
      after.disk.kind? place = some .directory := by
  have extended := extended_prepare machine document
  rw [prepared] at extended
  rcases stepped_of_no_fileName nonempty unnamed with dots | ⟨parent, before, behind, stepped⟩
  · exact ⟨after.start document, leads_dots dots (extended.stands begins), extended.stands begins⟩
  · rcases leads_of_prepare stepped.parent_eq stepped.absolute_eq begins prepared with
      ⟨place, leads, directory, _⟩
    have up : after.disk.kind? place.dropLast = some .directory := Disk.kind?_dropLast directory
    have notFile : after.disk.kind? place ≠ some .file := by
      rw [directory]
      nofun
    refine ⟨place.dropLast, ?_, up⟩
    rw [stepped.segments_eq]
    refine leads_append.mpr ⟨place, leads, leads_append.mpr ⟨place, ?_,
      leads_cons.mpr ⟨place.dropLast, ?_, ?_⟩⟩⟩
    · exact leads_dots stepped.dotsBefore directory
    · exact enter_of_entered notFile .up
    · exact leads_dots stepped.dotsBehind up

/-! ## Documents of open stores -/

/-- The document of an open store: the directory before its file name is there.
The empty path has none, and is never found. -/
inductive Site (document : String) (machine : Machine) : Prop where
  | nowhere (empty : document = "") (anchored : Anchored machine (temporary document) machine.here)
  | seated (seat : Seat document) (stands : seat.Stands machine)

/-- A store that was opened has its document somewhere, and holds what is read
there. -/
theorem site_of_openAt {store : Durable}
    (begins : machine.disk.kind? (machine.start document) = some .directory)
    (opens : machine.run (openAt document).run = (.ok store, after)) :
    Site document after ∧ Extended machine after ∧
      outcome document (after.contents document) = .ok store := by
  rw [run_openAt] at opens
  have extended := extended_prepare machine document
  cases prepared : machine.act (prepare document) with
  | mk result between =>
  cases result with
  | error error =>
    rw [prepared] at opens
    cases opens
  | ok =>
  rw [prepared] at opens extended
  rcases Prod.mk.inj opens with ⟨reads, same⟩
  subst same
  refine ⟨?_, extended, reads⟩
  by_cases empty : document = ""
  · subst empty
    exact .nowhere rfl ⟨extended.stands begins, leads_nil.mpr rfl, extended.stands begins⟩
  cases named : fileName? document with
  | none =>
    rcases exists_leads_of_no_fileName empty named begins prepared with ⟨place, leads, directory⟩
    exact absurd reads (outcome_of_directory empty leads directory store)
  | some name =>
    rcases stepped_of_fileName named with ⟨parent, before, behind, stepped, notUp⟩
    rcases leads_of_prepare stepped.parent_eq stepped.absolute_eq begins prepared with
      ⟨place, leads, directory, admitted⟩
    exact .seated ⟨parent, name, before, behind, place, stepped, named, notUp⟩
      ⟨extended.stands begins, leads, directory, admitted⟩

section Contents

variable {place : Place} {bytes : ByteArray}

/-- A path that leads to a file ends with its name. -/
theorem exists_fileName (begins : machine.disk.kind? (machine.start document) = some .directory)
    (nonempty : document ≠ "")
    (leads : Leads machine.disk (machine.start document) (segments document) place)
    (file : machine.disk.kind? place = some .file) : ∃ name, fileName? document = some name := by
  cases named : fileName? document with
  | some name => exact ⟨name, rfl⟩
  | none =>
    have directory : machine.disk.kind? place = some .directory := by
      rcases stepped_of_no_fileName nonempty named with dots | ⟨parent, before, behind, stepped⟩
      · rw [eq_of_leads_dots dots leads]
        exact begins
      · rw [stepped.segments_eq, ← List.append_assoc] at leads
        rcases leads_append.mp leads with ⟨between, first, rest⟩
        rcases leads_cons.mp rest with ⟨next, entered, later⟩
        have up := eq_of_enter_up entered
        rcases first.stands begins with ⟨kind, found⟩
        rw [eq_of_leads_dots stepped.dotsBehind later, up]
        exact Disk.kind?_dropLast found
    rw [directory] at file
    cases file

/-- Where a file can be read a store can have its document: the directory before
its name is there. -/
theorem site_of_contents (begins : machine.disk.kind? (machine.start document) = some .directory)
    (holds : machine.contents document = .ok bytes) : Site document machine := by
  rcases Machine.exists_of_contents holds with ⟨place, located⟩
  rcases leads_of_locate located with ⟨noZero, short, leads, file⟩
  have nonempty : document ≠ "" := by
    rintro rfl
    cases short
  rcases exists_fileName begins nonempty leads file with ⟨name, named⟩
  rcases stepped_of_fileName named with ⟨parent, before, behind, stepped, notUp⟩
  rw [stepped.segments_eq] at leads
  rcases leads_append.mp leads with ⟨upper, toParent, rest⟩
  rcases leads_append.mp rest with ⟨between, dots, final⟩
  rcases leads_cons.mp final with ⟨next, entered, _⟩
  cases eq_of_leads_dots stepped.dotsBefore dots
  have notFile := (entered_of_enter entered).1
  have directory : machine.disk.kind? upper = some .directory := by
    rcases toParent.stands begins with ⟨kind, found⟩
    cases kind with
    | directory => exact found
    | file => exact absurd found notFile
  have beginning := parent?_isPrefix stepped.parent_eq
  exact .seated ⟨parent, name, before, behind, upper, stepped, named, notUp⟩
    ⟨begins, toParent, directory, fun some =>
      ⟨checkBytes_of_isPrefix beginning noZero, admitLength_of_isPrefix beginning some short⟩⟩

end Contents

namespace Site

theorem of_keeps (site : Site document machine) (here : after.here = machine.here)
    (keeps : Keeps machine.disk after.disk) : Site document after := by
  cases site with
  | nowhere empty anchored => exact .nowhere empty (here ▸ anchored.of_keeps here keeps)
  | seated seat stands => exact .seated seat (stands.of_keeps here keeps)

/-- Opening the store again does nothing but read the document. -/
theorem run_openAt_eq (site : Site document machine) :
    machine.run (openAt document).run = (outcome document (machine.contents document), machine) := by
  have prepared : machine.act (prepare document) = (.ok (), machine) := by
    cases site with
    | nowhere empty anchored =>
      subst empty
      rfl
    | seated seat stands =>
      rw [prepare, seat.stepped.parent_eq]
      dsimp only [Option.elim]
      by_cases empty : seat.parent = ""
      · rw [empty]
        rfl
      · have sameStart : machine.start seat.parent = machine.start document := by
          rw [start, start, seat.stepped.absolute_eq]
        rcases stands.admitted empty with ⟨noZero, short⟩
        rw [createDirectories_of_ne empty]
        exact createUpwards_of_located (sameStart ▸ stands.begins)
          (locate_directory noZero short (sameStart ▸ stands.leads) stands.directory)
  rw [run_openAt, prepared]

theorem target?_keeps (site : Site document machine) (here : after.here = machine.here)
    (keeps : Keeps machine.disk after.disk) :
    after.target? document = machine.target? document ∧
      after.target? (temporary document) = machine.target? (temporary document) := by
  cases site with
  | nowhere empty anchored =>
    refine ⟨?_, ?_⟩
    · subst empty
      rfl
    · rw [(anchored.of_keeps here keeps).target?_eq, anchored.target?_eq]
  | seated seat stands =>
    refine ⟨stands.target?_keeps here keeps, ?_⟩
    rw [(stands.of_keeps here keeps).anchored_temporary.target?_eq,
      stands.anchored_temporary.target?_eq]

/-- The file beside the document has the document's name with four characters more. -/
theorem beside (site : Site document machine) {place spare : Place}
    (found : machine.target? document = some place)
    (foundSpare : machine.target? (temporary document) = some spare) :
    ∃ parent name, place = parent ++ [name] ∧ spare = parent ++ [name ++ ".tmp"] := by
  cases site with
  | nowhere empty anchored =>
    subst empty
    cases found
  | seated seat stands =>
    exact ⟨seat.place, seat.name, stands.target?_document found, stands.target?_temporary foundSpare⟩

theorem spare_ne (site : Site document machine) {place spare : Place}
    (found : machine.target? document = some place)
    (foundSpare : machine.target? (temporary document) = some spare) : spare ≠ place := by
  cases site with
  | nowhere empty anchored =>
    subst empty
    cases found
  | seated seat stands =>
    rw [stands.target?_document found, stands.target?_temporary foundSpare]
    exact seat.spare_ne_file

end Site

/-- Nothing has changed but the document and the file beside it, and they still
have their places. -/
structure Confined (document : String) (machine after : Machine) : Prop where
  place : after.target? document = machine.target? document
  spare : after.target? (temporary document) = machine.target? (temporary document)
  others : ∀ place, machine.target? document ≠ some place →
    machine.target? (temporary document) ≠ some place →
    after.disk.get? place = machine.disk.get? place

namespace Confined

theorem refl (document : String) (machine : Machine) : Confined document machine machine :=
  ⟨rfl, rfl, fun _ _ _ => rfl⟩

theorem trans {last : Machine} (first : Confined document machine after)
    (second : Confined document after last) : Confined document machine last where
  place := second.place.trans first.place
  spare := second.spare.trans first.spare
  others := by
    intro place notDocument notSpare
    have early := first.others place notDocument notSpare
    rw [← first.place] at notDocument
    rw [← first.spare] at notSpare
    exact (second.others place notDocument notSpare).trans early

end Confined

namespace Site

variable {bytes : ByteArray}

/-- Whatever is written beside the document, the document is read as before. -/
theorem of_write (site : Site document machine)
    (written : machine.write (temporary document) bytes = .ok after) :
    Site document after ∧ Confined document machine after ∧
      after.contents document = machine.contents document := by
  rcases changes_of_write written with ⟨spare, foundSpare, here, keeps, found⟩
  rcases site.target?_keeps here keeps with ⟨samePlace, sameSpare⟩
  refine ⟨site.of_keeps here keeps, ⟨samePlace, sameSpare, ?_⟩, ?_⟩
  · intro place _ notSpare
    have different : place ≠ spare := by
      rintro rfl
      exact notSpare foundSpare
    rw [found, if_neg different]
  · cases site with
    | nowhere empty anchored =>
      subst empty
      rfl
    | seated seat stands =>
      apply stands.contents_congr here keeps
      have different : seat.place ++ [seat.name] ≠ spare := by
        rw [stands.target?_temporary foundSpare]
        exact seat.spare_ne_file.symm
      rw [found, if_neg different]

/-- What was written beside the document is read from it once it has been renamed. -/
theorem of_rename {between : Machine} (site : Site document machine)
    (written : machine.write (temporary document) bytes = .ok between)
    (renamed : between.rename (temporary document) document = .ok after) :
    Site document after ∧ Confined document between after ∧ after.contents document = .ok bytes := by
  have siteBetween := (site.of_write written).1
  rcases changes_of_write written with ⟨spare, foundSpare, here, keeps, foundBetween⟩
  have file : between.disk.get? spare = some (.file bytes) := by
    rw [foundBetween, if_pos rfl]
  rw [← (site.target?_keeps here keeps).2] at foundSpare
  rcases nonempty_renaming renamed with ⟨moving⟩
  have foundPlace := moving.target?_target
  have same : spare = moving.old :=
    Option.some.inj (foundSpare.symm.trans moving.target?_source)
  subst same
  have different := siteBetween.spare_ne foundPlace foundSpare
  rcases Renaming.changes different file with ⟨hereAfter, keepsAfter, found⟩
  rcases siteBetween.target?_keeps hereAfter keepsAfter with ⟨samePlace, sameSpare⟩
  refine ⟨siteBetween.of_keeps hereAfter keepsAfter, ⟨samePlace, sameSpare, ?_⟩, ?_⟩
  · intro other notPlace notSpare
    have otherPlace : other ≠ moving.new := by
      rintro rfl
      exact notPlace foundPlace
    have otherSpare : other ≠ moving.old := by
      rintro rfl
      exact notSpare foundSpare
    rw [found, if_neg otherPlace, if_neg otherSpare]
  · cases siteBetween with
    | nowhere empty anchored =>
      subst empty
      cases foundPlace
    | seated seat stands =>
      exact Renaming.contents_eq different file stands.begins

end Site

end Durable
end SaveTree
