import SaveTree.Proofs.Host.Walk

namespace SaveTree
namespace Host
namespace Machine

/-!
# What the calls of a machine do

Each call that changes a disk is turned around once: from its success follow the
places that it acted on, what stood there, and the disk that is left.
-/

variable {machine after : Machine} {path name : String} {place : Place} {kind : Kind}
  {bytes : ByteArray}

/-! ## What is refused before the walk -/

section Refusals

variable {other : String}

theorem checkBytes_of_isPrefix (beginning : other.toList <+: path.toList)
    (noZero : checkBytes path = .ok ()) : checkBytes other = .ok () := by
  unfold checkBytes at noZero ⊢
  split at noZero
  · cases noZero
  · rename_i clean
    rw [if_neg]
    intro zero
    rw [List.contains_iff_mem] at clean zero
    exact clean (beginning.subset zero)

theorem admitLength_of_isPrefix (beginning : other.toList <+: path.toList) (nonempty : other ≠ "")
    (short : admitLength path = .ok ()) : admitLength other = .ok () := by
  rcases beginning with ⟨rest, split⟩
  have text : path = other ++ String.ofList rest := by
    apply String.toList_inj.mp
    rw [String.toList_append, String.toList_ofList, split]
  have size := congrArg String.utf8ByteSize text
  rw [String.utf8ByteSize_append] at size
  unfold admitLength at short ⊢
  split at short
  · cases short
  · split at short
    · cases short
    · rw [if_neg nonempty, if_neg (by omega)]

end Refusals

/-! ## Walks to a place -/

/-- A path leads to what stands at the end of its walk. -/
theorem leads_of_locate (located : machine.locate path = .ok (place, kind)) :
    checkBytes path = .ok () ∧ admitLength path = .ok () ∧
      Leads machine.disk (machine.start path) (Location.segments path) place ∧
      machine.disk.kind? place = some kind := by
  rcases exists_of_bind located with ⟨_, noZero, located⟩
  rcases exists_of_bind located with ⟨_, short, located⟩
  rcases exists_of_bind located with ⟨reached, leads, located⟩
  cases stands : machine.disk.kind? reached with
  | none =>
    rw [stands] at located
    cases located
  | some found =>
    rw [stands] at located
    cases found with
    | directory =>
      cases located
      exact ⟨noZero, short, leads, stands⟩
    | file =>
      dsimp only at located
      split at located
      · cases located
      · cases located
        exact ⟨noZero, short, leads, stands⟩

theorem locate_directory (noZero : checkBytes path = .ok ()) (short : admitLength path = .ok ())
    (leads : Leads machine.disk (machine.start path) (Location.segments path) place)
    (directory : machine.disk.kind? place = some .directory) :
    machine.locate path = .ok (place, .directory) := by
  have walk : (Location.segments path).foldlM (enter machine.disk) (machine.start path) = .ok place :=
    leads
  simp [locate, noZero, short, walk, directory, bind, Except.bind, pure, Except.pure]

theorem locate_file (noZero : checkBytes path = .ok ()) (short : admitLength path = .ok ())
    (leads : Leads machine.disk (machine.start path) (Location.segments path) place)
    (file : machine.disk.kind? place = some .file) (bare : Location.endsWithSlash path = false) :
    machine.locate path = .ok (place, .file) := by
  have walk : (Location.segments path).foldlM (enter machine.disk) (machine.start path) = .ok place :=
    leads
  simp [locate, noZero, short, walk, file, bare, bind, Except.bind, pure, Except.pure]

/-- A path whose last segment is a name stands in a directory. -/
theorem leads_of_locateParent (located : machine.locateParent path = .ok (place, some name)) :
    admitLength path = .ok () ∧
      Leads machine.disk (machine.start path) (Location.segments path).dropLast place ∧
      machine.disk.kind? place = some .directory ∧
      (Location.segments path).getLast? = some name ∧ name ≠ "." ∧ name ≠ ".." := by
  rcases exists_of_bind located with ⟨_, short, located⟩
  rcases exists_of_bind located with ⟨reached, leads, located⟩
  split at located
  · cases located
  · cases located
  · cases located
  · cases located
  · cases located
  · rename_i last notDot notUp directory isLast
    cases located
    exact ⟨short, leads, directory, isLast, notDot, notUp⟩

/-- The last segment of a path, if it is a name. -/
def lastName? (path : String) : Option String :=
  (Location.segments path).getLast?.filter fun name => name ≠ "." ∧ name ≠ ".."

theorem lastName?_eq_some_iff :
    lastName? path = some name ↔
      (Location.segments path).getLast? = some name ∧ name ≠ "." ∧ name ≠ ".." := by
  rw [lastName?, Option.filter_eq_some_iff, decide_eq_true_iff]

theorem locateParent_of_leads (short : admitLength path = .ok ())
    (leads : Leads machine.disk (machine.start path) (Location.segments path).dropLast place)
    (directory : machine.disk.kind? place = some .directory) :
    machine.locateParent path = .ok (place, lastName? path) := by
  have walk : (Location.segments path).dropLast.foldlM (enter machine.disk) (machine.start path) =
      .ok place := leads
  unfold locateParent
  simp only [short, walk, directory, bind, Except.bind]
  split
  · contradiction
  · contradiction
  · rename_i last
    rw [lastName?, last]
    rfl
  · rename_i last
    rw [lastName?, last]
    rfl
  · rename_i last
    rw [lastName?, last]
    rfl
  · rename_i name notDot notUp _ last
    have named : lastName? path = some name := lastName?_eq_some_iff.mpr ⟨last, notDot, notUp⟩
    rw [named]
    rfl

/-- A file that is written stands in a directory and takes the place of none. -/
theorem exists_of_write (written : machine.write path bytes = .ok after) :
    ∃ parent name, machine.locateParent path = .ok (parent, some name) ∧
      machine.disk.kind? (parent ++ [name]) ≠ some .directory ∧
      after = { machine with disk := machine.disk.putFile (parent ++ [name]) bytes } := by
  rcases exists_of_bind written with ⟨_, _, written⟩
  rcases exists_of_bind written with ⟨⟨parent, last⟩, located, written⟩
  cases last with
  | none => cases written
  | some name =>
    refine ⟨parent, name, located, ?_⟩
    dsimp only at written
    split at written
    · cases written
    · rcases exists_of_bind written with ⟨_, _, written⟩
      split at written
      · cases written
      · rename_i free
        cases written
        exact ⟨free, rfl⟩

/-- A directory that is made stands in a directory, at a place that was free. -/
theorem exists_of_makeDirectory (made : machine.makeDirectory path = .ok after) :
    ∃ parent name, checkBytes path = .ok () ∧ admitName name = .ok () ∧
      machine.locateParent path = .ok (parent, some name) ∧
      machine.disk.kind? (parent ++ [name]) = none ∧
      after = { machine with disk := machine.disk.makeDirectory (parent ++ [name]) } := by
  rcases exists_of_bind made with ⟨_, noZero, made⟩
  rcases exists_of_bind made with ⟨⟨parent, last⟩, located, made⟩
  cases last with
  | none => cases made
  | some name =>
    rcases exists_of_bind made with ⟨_, admitted, made⟩
    refine ⟨parent, name, noZero, admitted, located, ?_⟩
    dsimp only at made
    split at made
    · cases made
    · rename_i free
      cases made
      exact ⟨by simpa using free, rfl⟩

/-- What the success of a renaming tells about its two paths. -/
structure Renaming (machine : Machine) (source target : String) (after : Machine) where
  sourceParent : Place
  sourceName : String
  targetParent : Place
  targetName : String
  kind : Kind
  noZero : checkBytes target = .ok ()
  admitted : admitName targetName = .ok ()
  sourceLocated : machine.locateParent source = .ok (sourceParent, some sourceName)
  targetLocated : machine.locateParent target = .ok (targetParent, some targetName)
  stands : machine.disk.kind? (sourceParent ++ [sourceName]) = some kind
  bare : kind = .file → Location.endsWithSlash target = false
  moves : sourceParent ++ [sourceName] ≠ targetParent ++ [targetName] →
    (kind = .file → machine.disk.kind? (targetParent ++ [targetName]) ≠ some .directory) ∧
    after.here = machine.here ∧
    after.disk = machine.disk.move (sourceParent ++ [sourceName]) (targetParent ++ [targetName])

theorem nonempty_renaming {source target : String}
    (renamed : machine.rename source target = .ok after) :
    Nonempty (Renaming machine source target after) := by
  rcases exists_of_bind renamed with ⟨_, _, renamed⟩
  rcases exists_of_bind renamed with ⟨_, noZero, renamed⟩
  rcases exists_of_bind renamed with ⟨⟨sourceParent, sourceLast⟩, sourceLocated, renamed⟩
  rcases exists_of_bind renamed with ⟨⟨targetParent, targetLast⟩, targetLocated, renamed⟩
  cases sourceLast with
  | none => cases renamed
  | some sourceName =>
  cases targetLast with
  | none => cases renamed
  | some targetName =>
  rcases exists_of_bind renamed with ⟨_, _, renamed⟩
  cases stands : machine.disk.kind? (sourceParent ++ [sourceName]) with
  | none =>
    dsimp only at renamed
    rw [stands] at renamed
    cases renamed
  | some kind =>
  dsimp only at renamed
  rw [stands] at renamed
  rcases exists_of_bind renamed with ⟨_, admitted, renamed⟩
  split at renamed
  · cases renamed
  rename_i bare
  split at renamed
  · cases renamed
  split at renamed
  · cases renamed
  refine ⟨⟨sourceParent, sourceName, targetParent, targetName, kind, noZero, admitted, sourceLocated,
    targetLocated, stands, ?_, ?_⟩⟩
  · rintro rfl
    simpa using fun slash => bare ⟨rfl, .inr slash⟩
  -- of the kinds at both places only those are left that may replace each other
  intro different
  rw [if_neg different] at renamed
  cases occupied : machine.disk.kind? (targetParent ++ [targetName]) with
  | none =>
    rw [occupied] at renamed
    cases kind <;> cases renamed <;> exact ⟨fun _ => nofun, rfl, rfl⟩
  | some other =>
    rw [occupied] at renamed
    cases kind with
    | file =>
      cases other with
      | directory => cases renamed
      | file =>
        cases renamed
        exact ⟨fun _ => nofun, rfl, rfl⟩
    | directory =>
      cases other with
      | file => cases renamed
      | directory =>
        dsimp only at renamed
        split at renamed
        · cases renamed
        · cases renamed
          exact ⟨nofun, rfl, rfl⟩

theorem makeDirectory_of_unnamed (noZero : checkBytes path = .ok ())
    (located : machine.locateParent path = .ok (place, none)) :
    machine.makeDirectory path = .error .alreadyExists := by
  simp [makeDirectory, noZero, located, bind, Except.bind, throw, throwThe, MonadExceptOf.throw]

/-- A walk that arrives at a directory goes through the directory in which its last
segment is looked up. -/
theorem leads_dropLast {disk : Disk} {start : Place} {segments : List String} {last : String}
    (leads : Leads disk start segments place) (stands : disk.kind? start = some .directory)
    (isLast : segments.getLast? = some last) :
    ∃ parent, Leads disk start segments.dropLast parent ∧
      disk.kind? parent = some .directory ∧ Entered disk parent last place := by
  rcases List.getLast?_eq_some_iff.mp isLast with ⟨front, split⟩
  rw [split, leads_append] at leads
  rcases leads with ⟨parent, first, final⟩
  rcases leads_cons.mp final with ⟨next, entered, same⟩
  cases leads_nil.mp same
  rcases entered_of_enter entered with ⟨notFile, step⟩
  rcases first.stands stands with ⟨kind, found⟩
  refine ⟨parent, ?_, ?_, step⟩
  · rw [split, List.dropLast_concat]
    exact first
  · cases kind with
    | directory => exact found
    | file => exact absurd found notFile

/-- A directory that is there cannot be made again. -/
theorem makeDirectory_of_located (stands : machine.disk.kind? (machine.start path) = some .directory)
    (located : machine.locate path = .ok (place, .directory)) :
    machine.makeDirectory path = .error .alreadyExists := by
  rcases leads_of_locate located with ⟨noZero, short, leads, directory⟩
  cases segments : (Location.segments path).getLast? with
  | none =>
    have parent : Leads machine.disk (machine.start path) (Location.segments path).dropLast
        (machine.start path) := by
      rw [List.getLast?_eq_none_iff.mp segments]
      exact leads_nil.mpr rfl
    have unnamed : lastName? path = none := by
      rw [lastName?, segments]
      rfl
    have found := locateParent_of_leads short parent stands
    exact makeDirectory_of_unnamed noZero (unnamed ▸ found)
  | some last =>
    rcases leads_dropLast leads stands segments with ⟨between, parent, betweenDirectory, step⟩
    have found := locateParent_of_leads short parent betweenDirectory
    cases named : lastName? path with
    | none => exact makeDirectory_of_unnamed noZero (named ▸ found)
    | some name =>
      rcases lastName?_eq_some_iff.mp named with ⟨isLast, notDot, notUp⟩
      rw [segments] at isLast
      rw [named] at found
      cases isLast
      cases step with
      | stay => exact absurd rfl notDot
      | up => exact absurd rfl notUp
      | down _ _ admitted stands =>
        simp [makeDirectory, noZero, found, admitted, stands, bind, Except.bind, throw, throwThe,
          MonadExceptOf.throw]

/-! ## Reading a file -/

/-- The bytes of the file that a path leads to. -/
def contents (machine : Machine) (path : String) : Except HostError ByteArray := do
  let (place, _) ← machine.locate path
  match machine.disk.get? place with
  | some (.file bytes) => return bytes
  | _ => throw .isADirectory

theorem contents_of_file (located : machine.locate path = .ok (place, .file))
    (found : machine.disk.get? place = some (.file bytes)) : machine.contents path = .ok bytes := by
  simp [contents, located, found, bind, Except.bind, pure, Except.pure]

theorem contents_of_directory (located : machine.locate path = .ok (place, .directory)) :
    machine.contents path = .error .isADirectory := by
  have found := Disk.kind?_eq_directory_iff.mp (leads_of_locate located).2.2.2
  simp [contents, located, found, bind, Except.bind, throw, throwThe, MonadExceptOf.throw]

/-- Only a file can be read. -/
theorem exists_of_contents (holds : machine.contents path = .ok bytes) :
    ∃ place, machine.locate path = .ok (place, .file) := by
  cases located : machine.locate path with
  | error error =>
    rw [contents, located] at holds
    cases holds
  | ok found =>
    rcases found with ⟨place, kind⟩
    cases kind with
    | file => exact ⟨place, rfl⟩
    | directory =>
      rw [contents_of_directory located] at holds
      cases holds

/-- A path leads to the same thing on two machines if the walks along it and what
stands at their end are alike. -/
theorem locate_congr
    (walks : (Location.segments path).foldlM (enter after.disk) (after.start path) =
      (Location.segments path).foldlM (enter machine.disk) (machine.start path))
    (kinds : ∀ place, Leads machine.disk (machine.start path) (Location.segments path) place →
      after.disk.kind? place = machine.disk.kind? place) :
    after.locate path = machine.locate path := by
  unfold locate
  rw [walks]
  cases arrives : (Location.segments path).foldlM (enter machine.disk) (machine.start path) with
  | error error => rfl
  | ok place =>
    dsimp only [bind, Except.bind]
    rw [kinds place arrives]

theorem contents_congr
    (walks : (Location.segments path).foldlM (enter after.disk) (after.start path) =
      (Location.segments path).foldlM (enter machine.disk) (machine.start path))
    (found : ∀ place, Leads machine.disk (machine.start path) (Location.segments path) place →
      after.disk.get? place = machine.disk.get? place) :
    after.contents path = machine.contents path := by
  have located : after.locate path = machine.locate path := by
    refine locate_congr walks ?_
    intro place leads
    rw [Disk.kind?, found place leads, Disk.kind?]
  rw [contents, located, contents]
  cases arrives : machine.locate path with
  | error error => rfl
  | ok place =>
    dsimp only [bind, Except.bind]
    rw [found place.1 (leads_of_locate arrives).2.2.1]

/-! ## The place of a path's last name -/

/-- The place of a path's last name in the directory before it.  Nothing needs to
stand there. -/
def target? (machine : Machine) (path : String) : Option Place :=
  match machine.locateParent path with
  | .ok (parent, some name) => some (parent ++ [name])
  | _ => none

theorem target?_of_locateParent (located : machine.locateParent path = .ok (place, some name)) :
    machine.target? path = some (place ++ [name]) := by
  rw [target?, located]

theorem target?_of_unnamed (unnamed : lastName? path = none) : machine.target? path = none := by
  unfold target?
  split
  · rename_i parent name located
    rcases leads_of_locateParent located with ⟨_, _, _, named⟩
    rw [lastName?_eq_some_iff.mpr named] at unnamed
    cases unnamed
  · rfl

/-- The last segment of a path is looked up in the directory at a place. -/
structure Anchored (machine : Machine) (path : String) (place : Place) : Prop where
  begins : machine.disk.kind? (machine.start path) = some .directory
  leads : Leads machine.disk (machine.start path) (Location.segments path).dropLast place
  directory : machine.disk.kind? place = some .directory

theorem start_of_here (here : after.here = machine.here) : after.start path = machine.start path := by
  rw [start, start, here]

/-- Walks begin in a directory, if the machine's programs start in one. -/
theorem start_directory (begins : machine.disk.kind? machine.here = some .directory) (path : String) :
    machine.disk.kind? (machine.start path) = some .directory := by
  rw [start]
  split
  · rfl
  · exact begins

theorem Anchored.of_keeps (anchored : Anchored machine path place)
    (here : after.here = machine.here) (keeps : Keeps machine.disk after.disk) :
    Anchored after path place where
  begins := by
    rw [start_of_here here]
    exact keeps _ anchored.begins
  leads := by
    rw [start_of_here here]
    exact anchored.leads.of_keeps keeps anchored.begins anchored.directory
  directory := keeps _ anchored.directory

theorem Anchored.target?_eq (anchored : Anchored machine path place) :
    machine.target? path =
      (admitLength path).toOption.bind fun _ => (lastName? path).map fun name => place ++ [name] := by
  cases short : admitLength path with
  | error error =>
    rw [target?, locateParent, short]
    rfl
  | ok =>
    rw [target?, locateParent_of_leads short anchored.leads anchored.directory]
    cases lastName? path <;> rfl

theorem Anchored.eq_of_target? {other : Place} (anchored : Anchored machine path place)
    (named : lastName? path = some name) (found : machine.target? path = some other) :
    other = place ++ [name] := by
  rw [anchored.target?_eq, named] at found
  cases short : admitLength path with
  | error error =>
    rw [short] at found
    cases found
  | ok =>
    rw [short] at found
    cases found
    rfl

/-- A file that is written comes to stand at its place, and nothing else changes. -/
theorem changes_of_write (written : machine.write path bytes = .ok after) :
    ∃ place, machine.target? path = some place ∧ after.here = machine.here ∧
      Keeps machine.disk after.disk ∧
      ∀ other, after.disk.get? other =
        if other = place then some (.file bytes) else machine.disk.get? other := by
  rcases exists_of_write written with ⟨parent, name, located, free, rfl⟩
  have directory := (leads_of_locateParent located).2.2.1
  have found : ∀ other, (machine.disk.putFile (parent ++ [name]) bytes).get? other =
      if other = parent ++ [name] then some (.file bytes) else machine.disk.get? other := by
    intro other
    apply Disk.get?_putFile _ free
    rw [List.dropLast_concat]
    exact directory
  refine ⟨parent ++ [name], target?_of_locateParent located, rfl, ?_, found⟩
  intro other stands
  rw [Disk.kind?_eq_directory_iff] at stands ⊢
  have different : other ≠ parent ++ [name] := by
    rintro rfl
    exact free (Disk.kind?_eq_directory_iff.mpr stands)
  rw [found, if_neg different]
  exact stands

namespace Renaming

variable {source target : String} (moving : Renaming machine source target after)

/-- Where the file stood. -/
def old : Place :=
  moving.sourceParent ++ [moving.sourceName]

/-- Where it comes to stand. -/
def new : Place :=
  moving.targetParent ++ [moving.targetName]

theorem target?_source : machine.target? source = some moving.old :=
  target?_of_locateParent moving.sourceLocated

theorem target?_target : machine.target? target = some moving.new :=
  target?_of_locateParent moving.targetLocated

variable {moving} (different : moving.old ≠ moving.new)
  (file : machine.disk.get? moving.old = some (.file bytes))

include different file

/-- A file that is renamed goes from the one place to the other, and nothing else
changes. -/
theorem changes :
    after.here = machine.here ∧ Keeps machine.disk after.disk ∧
      ∀ other, after.disk.get? other =
        if other = moving.new then some (.file bytes) else if other = moving.old then none
        else machine.disk.get? other := by
  have isFile := Disk.kind_eq_file file moving.stands
  have parent : machine.disk.kind? moving.new.dropLast = some .directory := by
    rw [new, List.dropLast_concat]
    exact (leads_of_locateParent moving.targetLocated).2.2.1
  rcases moving.moves different with ⟨free, here, moved⟩
  have found : ∀ other, after.disk.get? other =
      if other = moving.new then some (.file bytes) else if other = moving.old then none
      else machine.disk.get? other := by
    intro other
    rw [moved]
    exact Disk.get?_move file parent (free isFile) different
  refine ⟨here, ?_, found⟩
  intro other directory
  rw [Disk.kind?_eq_directory_iff] at directory ⊢
  have notNew : other ≠ moving.new := by
    rintro rfl
    exact free isFile (Disk.kind?_eq_directory_iff.mpr directory)
  have notOld : other ≠ moving.old := by
    rintro rfl
    rw [file] at directory
    cases directory
  rw [found, if_neg notNew, if_neg notOld, directory]

/-- A file that was renamed is read under its new path. -/
theorem contents_eq (begins : machine.disk.kind? (machine.start target) = some .directory) :
    after.contents target = .ok bytes := by
  have isFile := Disk.kind_eq_file file moving.stands
  rcases changes different file with ⟨here, keeps, found⟩
  rcases leads_of_locateParent moving.targetLocated with
    ⟨short, leads, directory, isLast, notDot, notUp⟩
  have arrived : after.disk.get? moving.new = some (.file bytes) := by
    rw [found, if_pos rfl]
  have arrivedKind := Disk.kind?_eq_file_iff.mpr ⟨bytes, arrived⟩
  have walk : Leads after.disk (after.start target) (Location.segments target) moving.new := by
    rw [start_of_here here]
    exact (leads.of_keeps keeps begins directory).of_dropLast (keeps _ directory) isLast
      notDot notUp moving.admitted arrivedKind
  exact contents_of_file
    (locate_file moving.noZero short walk arrivedKind (moving.bare isFile)) arrived

end Renaming

/-! ## Machines with more directories -/

/-- Nothing but directories was added to a machine. -/
structure Extended (machine after : Machine) : Prop where
  here : after.here = machine.here
  keeps : Keeps machine.disk after.disk
  files : ∀ place bytes, after.disk.get? place = some (.file bytes) ↔
    machine.disk.get? place = some (.file bytes)

theorem Extended.refl (machine : Machine) : Extended machine machine :=
  ⟨rfl, Keeps.refl machine.disk, fun _ _ => Iff.rfl⟩

theorem Extended.trans {last : Machine} (first : Extended machine after)
    (second : Extended after last) : Extended machine last where
  here := second.here.trans first.here
  keeps := first.keeps.trans second.keeps
  files := fun place bytes => (second.files place bytes).trans (first.files place bytes)

/-- Walks still begin in a directory. -/
theorem Extended.stands (extended : Extended machine after)
    (stands : machine.disk.kind? (machine.start path) = some .directory) :
    after.disk.kind? (after.start path) = some .directory := by
  rw [start_of_here extended.here]
  exact extended.keeps _ stands

/-- What stood somewhere still stands there. -/
theorem Extended.kind?_eq (extended : Extended machine after)
    (stands : machine.disk.kind? place = some kind) : after.disk.kind? place = some kind := by
  cases kind with
  | directory => exact extended.keeps place stands
  | file =>
    rcases Disk.kind?_eq_file_iff.mp stands with ⟨bytes, found⟩
    exact Disk.kind?_eq_file_iff.mpr ⟨bytes, (extended.files place bytes).mpr found⟩

/-- A walk still leads where it led. -/
theorem Extended.leads {start : Place} {segments : List String} (extended : Extended machine after)
    (leads : Leads machine.disk start segments place) : Leads after.disk start segments place := by
  induction segments generalizing start with
  | nil => exact leads_nil.mpr (leads_nil.mp leads)
  | cons segment rest ih =>
    rcases leads_cons.mp leads with ⟨next, entered, later⟩
    rcases entered_of_enter entered with ⟨notFile, step⟩
    have notFileAfter : after.disk.kind? start ≠ some .file := by
      intro file
      rcases Disk.kind?_eq_file_iff.mp file with ⟨bytes, found⟩
      exact notFile (Disk.kind?_eq_file_iff.mpr ⟨bytes, (extended.files start bytes).mp found⟩)
    refine leads_cons.mpr ⟨next, enter_of_entered notFileAfter ?_, ih later⟩
    cases step with
    | stay => exact .stay
    | up => exact .up
    | down notDot notUp admitted stands => exact .down notDot notUp admitted (extended.kind?_eq stands)

/-- A file that could be read is still read. -/
theorem Extended.contents_eq (extended : Extended machine after)
    (holds : machine.contents path = .ok bytes) : after.contents path = .ok bytes := by
  rcases exists_of_contents holds with ⟨place, located⟩
  rcases leads_of_locate located with ⟨_, _, leads, file⟩
  rcases Disk.kind?_eq_file_iff.mp file with ⟨stored, found⟩
  rw [← holds]
  refine contents_congr ?_ ?_
  · rw [start_of_here extended.here]
    exact (extended.leads leads).trans leads.symm
  · intro other arrives
    have same : place = other := Except.ok.inj (leads.symm.trans arrives)
    rw [← same, found, (extended.files place stored).mpr found]

theorem get?_of_makeDirectory {parent : Place} (directory : machine.disk.kind? parent = some .directory)
    (free : machine.disk.kind? (parent ++ [name]) = none) (other : Place) :
    (machine.disk.makeDirectory (parent ++ [name])).get? other =
      if other = parent ++ [name] then some .directory else machine.disk.get? other := by
  apply Disk.get?_makeDirectory _ free
  rw [List.dropLast_concat]
  exact directory

theorem extended_of_makeDirectory (made : machine.makeDirectory path = .ok after) :
    Extended machine after := by
  rcases exists_of_makeDirectory made with ⟨parent, name, _, _, located, free, rfl⟩
  rcases leads_of_locateParent located with ⟨_, _, directory, _⟩
  have found := get?_of_makeDirectory directory free
  refine ⟨rfl, ?_, ?_⟩
  · intro other standing
    rw [Disk.kind?_eq_directory_iff] at standing ⊢
    dsimp only
    rw [found]
    split
    · rfl
    · exact standing
  · intro place bytes
    dsimp only
    rw [found]
    split
    · rename_i same
      have nothing : machine.disk.get? place = none := by
        rw [same]
        exact Option.map_eq_none_iff.mp free
      simp [nothing]
    · exact Iff.rfl

/-- A directory that was made is there. -/
theorem locate_of_makeDirectory (stands : machine.disk.kind? (machine.start path) = some .directory)
    (made : machine.makeDirectory path = .ok after) :
    ∃ place, after.locate path = .ok (place, .directory) := by
  have keeps := (extended_of_makeDirectory made).keeps
  rcases exists_of_makeDirectory made with ⟨parent, name, noZero, admitted, located, free, rfl⟩
  rcases leads_of_locateParent located with ⟨short, leads, directory, isLast, notDot, notUp⟩
  have new : (machine.disk.makeDirectory (parent ++ [name])).kind? (parent ++ [name]) =
      some .directory := by
    rw [Disk.kind?_eq_directory_iff, get?_of_makeDirectory directory free, if_pos rfl]
  refine ⟨parent ++ [name], locate_directory noZero short ?_ new⟩
  exact (leads.of_keeps keeps stands directory).of_dropLast (keeps parent directory) isLast
    notDot notUp admitted new

end Machine
end Host
end SaveTree
