import SaveTree.Proofs.Program.Interleaving
import SaveTree.Proofs.Virtual.Enumeration
import SaveTree.Proofs.Virtual.Writing

namespace SaveTree

/-!
# Files that are written at the same time

To write a file takes several calls: at each place above it one looks and perhaps puts
a directory, then one looks at the file's own key and puts the file.  Nothing is
locked in between, so that many writes may be under way at once.

If the keys of the files differ and none lies above another, the writes do not notice
each other.  A write relies on little: its own key is left alone, and the places above
it change only where nothing is, and there become directories, which is what it would
put there itself.  That is all that other writes do.  So what comes of a write is
settled by what was stored before any of them began, and so is what all of them leave.
-/

open Program Key

namespace Virtual

open Catalog

/-- A file to be written. -/
structure Write where
  path : String
  content : Content

namespace Write

/-- The operation that writes the file, as text or as bytes. -/
def operation : Write → Operation
  | ⟨path, .text text⟩ => .writeText path text
  | ⟨path, .bytes bytes⟩ => .write path bytes

/-- The calls that write the file. -/
def code (write : Write) : Program Store.calls (Except FsError Answer) :=
  (perform write.operation).run

/-- The keys of the two files differ, and neither lies above the other. -/
def Apart (first second : Write) : Prop :=
  ∀ {key other : String}, require first.path = .ok key → require second.path = .ok other →
    key ≠ other ∧ isBelow key other = false ∧ isBelow other key = false

/-- What comes of the write if a catalog is left alone until it has ended. -/
def verdict (start : Catalog) (write : Write) : Except FsError Answer :=
  (require write.path).bind fun key =>
    match start.refusal? key with
    | some error => .error error
    | none => .ok .done

section

variable {start : Catalog} {write : Write} {key : String} {error : FsError}

theorem verdict_of_inadmissible (inadmissible : require write.path = .error error) :
    write.verdict start = .error error := by
  rw [verdict, inadmissible]
  rfl

theorem verdict_of_refused (admitted : require write.path = .ok key)
    (refused : start.refusal? key = some error) : write.verdict start = .error error := by
  simp only [verdict, admitted, Except.bind, refused]

theorem verdict_of_clear (admitted : require write.path = .ok key)
    (clear : start.refusal? key = none) : write.verdict start = .ok .done := by
  simp only [verdict, admitted, Except.bind, clear]

end

end Write

/-! ## What a write does and what it relies on -/

variable {start before between after catalog : Catalog} {write other : Write} {key place : String}
  {content : Content}

/-- What one call of a write puts: a directory above its key, or the file. -/
inductive Puts (key : String) (content : Content) (before : Catalog) : Catalog → Prop where
  | directory {place : String} (above : isBelow place key = true)
      (rooted : ∀ upper, isBelow upper place = true → before.get? upper = some .directory)
      (fits : before.get? place = none ∨ before.get? place = some .directory) :
      Puts key content before (before.put ⟨place, .directory⟩)
  | file (rooted : ∀ above, isBelow above key = true → before.get? above = some .directory)
      (fits : before.get? key ≠ some .directory) :
      Puts key content before (before.put ⟨key, .file content⟩)

/-- The place is as it was, or a directory was put where nothing was. -/
def Furnished (before after : Catalog) (place : String) : Prop :=
  after.get? place = before.get? place ∨ before.get? place = none ∧ after.get? place = some .directory

/-- A write's key is left alone, and above it there are at most more directories. -/
structure Relies (key : String) (before after : Catalog) : Prop where
  alone : after.get? key = before.get? key
  furnished : ∀ above, isBelow above key = true → Furnished before after above

theorem Furnished.trans (first : Furnished before between place) (second : Furnished between after place) :
    Furnished before after place := by
  rcases second with same | ⟨missing, directory⟩
  · rcases first with equal | ⟨missing, directory⟩
    · exact .inl (same.trans equal)
    · exact .inr ⟨missing, same.trans directory⟩
  · rcases first with equal | ⟨_, directory⟩
    · exact .inr ⟨equal ▸ missing, directory⟩
    · rw [directory] at missing
      cases missing

theorem Furnished.directory (furnished : Furnished before after place)
    (directory : before.get? place = some .directory) : after.get? place = some .directory := by
  rcases furnished with same | ⟨missing, _⟩
  · exact same.trans directory
  · rw [directory] at missing
    cases missing

namespace Relies

theorem refl (key : String) (catalog : Catalog) : Relies key catalog catalog :=
  ⟨rfl, fun _ _ => .inl rfl⟩

theorem trans (first : Relies key before between) (second : Relies key between after) :
    Relies key before after where
  alone := second.alone.trans first.alone
  furnished := fun above below => (first.furnished above below).trans (second.furnished above below)

/-- A directory that is put where nothing else is. -/
theorem put_directory (different : key ≠ place)
    (fits : before.get? place = none ∨ before.get? place = some .directory) :
    Relies key before (before.put ⟨place, .directory⟩) where
  alone := by rw [get?_put, if_neg different]
  furnished := by
    intro above _
    rw [Furnished, get?_put]
    by_cases same : above = place
    · subst same
      rw [if_pos rfl]
      rcases fits with missing | directory
      · exact .inr ⟨missing, rfl⟩
      · exact .inl directory.symm
    · exact .inl (if_neg same)

/-- A place above the key that is no file now was none before. -/
theorem isFile_eq_false (relies : Relies key before after) (above : isBelow place key = true)
    (directory : after.get? place = some .directory) : before.isFile place = false := by
  apply Bool.eq_false_iff.mpr
  intro file
  rcases isFile_iff.mp file with ⟨content, stored⟩
  rcases relies.furnished place above with same | ⟨missing, _⟩
  · rw [same, stored] at directory
    cases directory
  · rw [stored] at missing
    cases missing

end Relies

namespace Puts

/-- Nothing is put but at the key and above it. -/
theorem get?_eq (puts : Puts key content before after) {elsewhere : String} (different : elsewhere ≠ key)
    (notAbove : isBelow elsewhere key = false) : after.get? elsewhere = before.get? elsewhere := by
  cases puts with
  | @directory place above =>
    have apart : elsewhere ≠ place := by
      rintro rfl
      rw [above] at notAbove
      cases notAbove
    rw [get?_put, if_neg apart]
  | file => rw [get?_put, if_neg different]

/-- Other files rely on no more than that. -/
theorem relies (puts : Puts key content before after) {otherKey : String} (different : key ≠ otherKey)
    (notAbove : isBelow key otherKey = false) (notBelow : isBelow otherKey key = false) :
    Relies otherKey before after := by
  cases puts with
  | @directory place above _ fits =>
    apply Relies.put_directory _ fits
    rintro rfl
    rw [above] at notBelow
    cases notBelow
  | file =>
    refine ⟨by rw [get?_put, if_neg (Ne.symm different)], ?_⟩
    intro upper below
    have apart : upper ≠ key := by
      rintro rfl
      rw [below] at notAbove
      cases notAbove
    exact .inl (by rw [get?_put, if_neg apart])

theorem isSaveTree (puts : Puts key content before after) (canonical : Canonical key)
    (tree : before.IsSaveTree) : after.IsSaveTree := by
  cases puts with
  | directory above rooted _ => exact tree.put (canonical.of_isBelow above) rooted (.inl rfl)
  | file rooted fits => exact tree.put canonical rooted (.inr fits)

end Puts

/-! ## The discipline of a write -/

/-- A write has settled: its file and the directories above it are there. -/
def Stored (write : Write) (key : String) (catalog : Catalog) : Prop :=
  catalog.get? key = some (.file write.content) ∧
    ∀ above, isBelow above key = true → catalog.get? above = some .directory

/-- The rules that a write keeps to, among others, if all of them began with the same
catalog.  Nothing is put for a file that would be refused. -/
def discipline (start : Catalog) : Discipline Catalog fun _ : Write => Except FsError Answer where
  rely := fun write before after => ∀ key, require write.path = .ok key → Relies key before after
  guarantee := fun write before after => after = before ∨
    ∃ key, require write.path = .ok key ∧ start.refusal? key = none ∧
      Puts key write.content before after
  post := fun write value after => value = write.verdict start ∧
    ∀ key, require write.path = .ok key → start.refusal? key = none → Stored write key after
  refl := fun _ catalog key _ => .refl key catalog
  trans := fun first second key admitted => (first key admitted).trans (second key admitted)

/-- Writes of files that are apart tolerate each other. -/
theorem tolerates_of_apart (apart : Write.Apart write other) :
    (discipline start).Tolerates write other := by
  rintro before after (rfl | ⟨otherKey, admitted, _, puts⟩)
  · exact (discipline start).refl write _
  · intro key admittedHere
    rcases apart admittedHere admitted with ⟨different, notAbove, notBelow⟩
    exact puts.relies (Ne.symm different) notBelow notAbove

theorem Write.Apart.symm (apart : Write.Apart write other) : Write.Apart other write := by
  intro key otherKey admitted admittedOther
  rcases apart admittedOther admitted with ⟨different, notAbove, notBelow⟩
  exact ⟨Ne.symm different, notBelow, notAbove⟩

section

variable {next : Option Node → Session Answer} {rest : Session Answer}

theorem secure_get
    (later : ∀ {before}, (discipline start).rely write catalog before →
      Secure Store.reliable (discipline start) write (next (before.get? key)).run before) :
    Secure Store.reliable (discipline start) write (Session.get key >>= next).run catalog := by
  refine .call ?_ ?_
  · rintro before reply after _ ⟨rfl, rfl⟩
    exact .inl rfl
  · rintro before reply after rely ⟨rfl, rfl⟩
    exact later rely

theorem secure_put {entry : Entry}
    (fits : ∀ {before}, (discipline start).rely write catalog before →
      (discipline start).guarantee write before (before.put entry))
    (later : ∀ {before}, (discipline start).rely write catalog before →
      Secure Store.reliable (discipline start) write rest.run (before.put entry)) :
    Secure Store.reliable (discipline start) write (Session.put entry >>= fun _ => rest).run catalog := by
  refine .call ?_ ?_
  · rintro before reply after rely ⟨rfl, rfl⟩
    exact fits rely
  · rintro before reply after rely ⟨rfl, rfl⟩
    exact later rely

/-- A write that is refused, as it would be from the start. -/
theorem secure_throw {error : FsError} (admitted : require write.path = .ok key)
    (refused : start.refusal? key = some error) :
    Secure Store.reliable (discipline start) write (throw error : Session Answer).run catalog := by
  refine .done fun _ => ⟨(Write.verdict_of_refused admitted refused).symm, ?_⟩
  · intro other admittedOther clear
    rw [admitted] at admittedOther
    cases admittedOther
    rw [refused] at clear
    cases clear

end

/-- The last steps of a write, when the directories above the key are there. -/
def placeFile (key : String) (content : Content) : Session Unit := do
  match ← Session.get key with
  | some .directory => throw (.conflict key)
  | _ => Session.put ⟨key, .file content⟩

theorem perform_operation (write : Write) :
    perform write.operation = (do writeFile write.path write.content; return .done) := by
  rcases write with ⟨path, text | bytes⟩ <;> rfl

theorem perform_eq (admitted : require write.path = .ok key) :
    perform write.operation = (do
      (chain (parent key)).forM ensurePlace
      placeFile key write.content
      return .done) := by
  have walks : putFile key write.content = (do
      (chain (parent key)).forM ensurePlace
      placeFile key write.content) := rfl
  have lifted : (liftM (.ok key : Except FsError String) : Session String) = pure key := rfl
  rw [perform_operation, writeFile, admitted, lifted, pure_bind, walks, bind_assoc]

/-- Where something is missing above the key, nothing refuses the file. -/
theorem refusal?_of_missing (tree : start.IsSaveTree) (canonical : Canonical key)
    (above : isBelow place key = true) (missing : start.get? place = none)
    (clear : ∀ upper, isBelow upper place = true → start.isFile upper = false) :
    start.refusal? key = none := by
  have nothing : ∀ {lower node}, isBelow place lower = true → start.get? lower ≠ some node := by
    intro lower node below stored
    rw [tree.rooted stored below] at missing
    cases missing
  rw [refusal?_of_clear canonical, if_neg (nothing above)]
  intro upper isAbove
  rcases isBelow_or_isBelow isAbove above with rfl | higher | lower
  · rw [isFile, missing]
    rfl
  · exact clear upper higher
  · apply Bool.eq_false_iff.mpr
    intro file
    rcases isFile_iff.mp file with ⟨content, stored⟩
    exact nothing lower stored

/-- What is above a place of the walk was passed before it. -/
theorem mem_of_isBelow {passed rest : List String} {upper : String} (canonical : Canonical key)
    (whole : chain (parent key) = passed ++ place :: rest) (below : isBelow upper place = true) :
    upper ∈ passed := by
  have downwards : (passed ++ place :: rest).Pairwise fun above below => isBelow above below = true := by
    rcases canonical.exists_parent with ⟨names, name, areNames, _, parent_eq⟩
    rw [← whole, parent_eq]
    exact chain_pairwise fun other member => areNames other (List.mem_append_left _ member)
  have inside : place ∈ chain (parent key) := by
    rw [whole]
    exact List.mem_append_right passed List.mem_cons_self
  have above := isBelow_trans below ((mem_chain_parent_iff canonical).mp inside)
  rw [← mem_chain_parent_iff canonical, whole] at above
  rcases List.mem_append.mp above with found | behind
  · exact found
  · rcases List.mem_cons.mp behind with rfl | deeper
    · rw [not_isBelow_self] at below
      cases below
    · have circle := (List.pairwise_cons.mp (List.pairwise_append.mp downwards).2.1).1 upper deeper
      have self := isBelow_trans below circle
      rw [not_isBelow_self] at self
      cases self

section

variable (admitted : require write.path = .ok key)
include admitted

/-- The file is put below its directories, and stays. -/
theorem file_secure (clear : start.refusal? key = none)
    (rooted : ∀ above, isBelow above key = true → catalog.get? above = some .directory)
    (free : catalog.get? key ≠ some .directory) :
    Secure Store.reliable (discipline start) write
      (do Session.put ⟨key, .file write.content⟩; return .done : Session Answer).run catalog := by
  have stays : ∀ {before}, (discipline start).rely write catalog before →
      ∀ above, isBelow above key = true → before.get? above = some .directory :=
    fun rely above below => ((rely key admitted).furnished above below).directory (rooted above below)
  apply secure_put
  · intro before rely
    refine .inr ⟨key, admitted, clear, .file (stays rely) ?_⟩
    rw [(rely key admitted).alone]
    exact free
  · intro before rely
    refine .done fun relyLast => ⟨(Write.verdict_of_clear admitted clear).symm, ?_⟩
    intro other admittedOther _
    cases admitted.symm.trans admittedOther
    have last := relyLast key admitted
    refine ⟨?_, ?_⟩
    · rw [last.alone, get?_put, if_pos rfl]
    · intro above below
      apply (last.furnished above below).directory
      rw [get?_put, if_neg (Ne.symm (ne_of_isBelow below))]
      exact stays rely above below

theorem placeFile_secure (since : Relies key start catalog)
    (rooted : ∀ above, isBelow above key = true → catalog.get? above = some .directory) :
    Secure Store.reliable (discipline start) write
      (do placeFile key write.content; return .done : Session Answer).run catalog := by
  have clear : ∀ above, isBelow above key = true → start.isFile above = false :=
    fun above below => since.isFile_eq_false below (rooted above below)
  have refusal := refusal?_of_clear (canonical_of_require admitted) clear
  rw [placeFile, bind_assoc]
  apply secure_get
  intro before rely
  have between := rely key admitted
  have stillRooted : ∀ above, isBelow above key = true → before.get? above = some .directory :=
    fun above below => (between.furnished above below).directory (rooted above below)
  rw [← (since.trans between).alone] at refusal
  cases found : before.get? key with
  | none =>
    rw [found, if_neg (by intro equal; cases equal)] at refusal
    exact file_secure admitted refusal stillRooted (by rw [found]; intro equal; cases equal)
  | some node =>
    cases node with
    | file content =>
      rw [found, if_neg (by intro equal; cases equal)] at refusal
      exact file_secure admitted refusal stillRooted (by rw [found]; intro equal; cases equal)
    | directory =>
      rw [if_pos found] at refusal
      exact secure_throw admitted refusal

/-- A step of the walk.  The places that were passed are directories, and stay so; the
next one is seen as it was at the start, or as a directory that somebody has put
meanwhile. -/
theorem ensurePlace_secure {passed rest : List String} {next : Session Answer} (tree : start.IsSaveTree)
    (whole : chain (parent key) = passed ++ place :: rest) (since : Relies key start catalog)
    (walked : ∀ upper ∈ passed, catalog.get? upper = some .directory)
    (goesOn : ∀ {later}, Relies key catalog later → later.get? place = some .directory →
      Secure Store.reliable (discipline start) write next.run later) :
    Secure Store.reliable (discipline start) write (do ensurePlace place; next).run catalog := by
  have canonical := canonical_of_require admitted
  have areAbove : ∀ upper ∈ passed ++ place :: rest, isBelow upper key = true := by
    rw [← whole]
    exact fun upper => (mem_chain_parent_iff canonical).mp
  have above := areAbove place (List.mem_append_right passed List.mem_cons_self)
  have clear : ∀ upper ∈ passed, start.isFile upper = false := fun upper member =>
    since.isFile_eq_false (areAbove upper (List.mem_append_left _ member)) (walked upper member)
  rw [ensurePlace, bind_assoc]
  apply secure_get
  intro before rely
  have between := rely key admitted
  have seen := (since.trans between).furnished place above
  cases found : before.get? place with
  | some node =>
    cases node with
    | directory => exact goesOn between found
    | file content =>
      apply secure_throw admitted
      apply refusal?_of_file whole clear
      rcases seen with same | ⟨_, directory⟩
      · exact isFile_iff.mpr ⟨content, same.symm.trans found⟩
      · rw [found] at directory
        cases directory
  | none =>
    have missing : start.get? place = none := by
      rcases seen with same | ⟨missing, _⟩
      · exact same.symm.trans found
      · exact missing
    -- between the look and the put somebody else may put the directory
    have fits : ∀ {later}, Relies key before later →
        later.get? place = none ∨ later.get? place = some .directory := by
      intro later relies
      rcases relies.furnished place above with same | ⟨_, directory⟩
      · exact .inl (same.trans found)
      · exact .inr directory
    apply secure_put
    · intro later relyLater
      have relies := between.trans (relyLater key admitted)
      refine .inr ⟨key, admitted, ?_, .directory above ?_ (fits (relyLater key admitted))⟩
      · apply refusal?_of_missing tree canonical above missing
        exact fun upper below => clear upper (mem_of_isBelow canonical whole below)
      · intro upper below
        have passes := mem_of_isBelow canonical whole below
        exact (relies.furnished upper (areAbove upper (List.mem_append_left _ passes))).directory
          (walked upper passes)
    · intro later relyLater
      apply goesOn
      · exact (between.trans (relyLater key admitted)).trans
          (.put_directory (ne_of_isBelow above) (fits (relyLater key admitted)))
      · rw [get?_put, if_pos rfl]

/-- The walk down to the key, and then the file. -/
theorem walk_secure (tree : start.IsSaveTree) (passed rest : List String)
    (whole : chain (parent key) = passed ++ rest) (since : Relies key start catalog)
    (walked : ∀ place ∈ passed, catalog.get? place = some .directory) :
    Secure Store.reliable (discipline start) write (do
      rest.forM ensurePlace
      placeFile key write.content
      return .done : Session Answer).run catalog := by
  have above_iff : ∀ {place}, place ∈ passed ++ rest ↔ isBelow place key = true := by
    rw [← whole]
    exact mem_chain_parent_iff (canonical_of_require admitted)
  induction rest generalizing passed catalog with
  | nil =>
    apply placeFile_secure admitted since
    intro above below
    rw [← above_iff, List.append_nil] at below
    exact walked above below
  | cons place rest ih =>
    have first : (place :: rest).forM ensurePlace = (do ensurePlace place; rest.forM ensurePlace) := rfl
    have shifted : passed ++ place :: rest = (passed ++ [place]) ++ rest := by
      rw [List.append_assoc]
      rfl
    rw [first, bind_assoc]
    apply ensurePlace_secure admitted tree whole since walked
    intro later relies directory
    rw [shifted] at whole above_iff
    apply ih (passed ++ [place]) whole (since.trans relies) _ above_iff
    intro upper member
    rcases List.mem_append.mp member with old | new
    · have below := above_iff.mp (List.mem_append_left rest (List.mem_append_left [place] old))
      exact (relies.furnished upper below).directory (walked upper old)
    · cases List.mem_singleton.mp new
      exact directory

end

/-- Every write keeps its discipline, if it begins with the catalog of the start. -/
theorem code_secure (tree : start.IsSaveTree) (write : Write) :
    Secure Store.reliable (discipline start) write write.code start := by
  cases admitted : require write.path with
  | error error =>
    have ends : write.code = .done (.error error) := by
      rw [Write.code, perform_operation, writeFile, admitted]
      rfl
    rw [ends]
    refine .done fun _ => ⟨(Write.verdict_of_inadmissible admitted).symm, ?_⟩
    intro key admittedHere
    rw [admitted] at admittedHere
    cases admittedHere
  | ok key =>
    rw [Write.code, perform_eq admitted]
    exact walk_secure admitted tree [] (chain (parent key)) (List.nil_append _).symm (.refl key start)
      fun _ member => absurd member List.not_mem_nil

/-! ## What all writes leave -/

/-- A file that is not refused belongs at the place or below it. -/
def Touched (start : Catalog) (writes : List Write) (place : String) : Prop :=
  ∃ write ∈ writes, ∃ key, require write.path = .ok key ∧ start.refusal? key = none ∧
    (place = key ∨ isBelow place key = true)

/-- A tree while files are written. -/
structure Progress (start : Catalog) (writes : List Write) (catalog : Catalog) : Prop where
  tree : catalog.IsSaveTree
  elsewhere : ∀ place, catalog.get? place = start.get? place ∨ Touched start writes place

theorem Progress.step {writes : List Write} (progress : Progress start writes before)
    (member : write ∈ writes) (change : (discipline start).guarantee write before after) :
    Progress start writes after := by
  rcases change with rfl | ⟨key, admitted, clear, puts⟩
  · exact progress
  · refine ⟨puts.isSaveTree (canonical_of_require admitted) progress.tree, ?_⟩
    intro place
    by_cases here : place = key ∨ isBelow place key = true
    · exact .inr ⟨write, member, key, admitted, clear, here⟩
    · rw [not_or, Bool.not_eq_true] at here
      rw [puts.get?_eq here.1 here.2]
      exact progress.elsewhere place

/-- A tree when files have been written. -/
structure Settled (start : Catalog) (writes : List Write) (catalog : Catalog) : Prop where
  stored : ∀ write ∈ writes, ∀ key, require write.path = .ok key → start.refusal? key = none →
    Stored write key catalog
  elsewhere : ∀ place, catalog.get? place = start.get? place ∨ Touched start writes place

/-- The same files leave the same. -/
theorem Settled.same {writes others : List Write} {other : Catalog} (settled : Settled start writes catalog)
    (settledOther : Settled start others other) (perm : writes.Perm others) : Same catalog other := by
  intro place
  by_cases touched : Touched start writes place
  · rcases touched with ⟨write, member, key, admitted, clear, here⟩
    have stored := settled.stored write member key admitted clear
    have storedOther := settledOther.stored write (perm.mem_iff.mp member) key admitted clear
    rcases here with rfl | above
    · rw [stored.1, storedOther.1]
    · rw [stored.2 place above, storedOther.2 place above]
  · have untouched : ¬ Touched start others place := by
      rintro ⟨write, member, rest⟩
      exact touched ⟨write, perm.mem_iff.mpr member, rest⟩
    rw [(settled.elsewhere place).resolve_right touched,
      (settledOther.elsewhere place).resolve_right untouched]

section

variable {log : List Mark} {jobs : List (Job Store.calls fun _ : Write => Except FsError Answer)}
  {outcomes : List (Outcome fun _ : Write => Except FsError Answer)}
  (tree : start.IsSaveTree)
include tree

/-- Writes of files that are apart, in any order of their calls. -/
theorem undisturbed_of_apart (history : History Store.reliable Write.code start log jobs catalog)
    (apart : (jobs.map Job.kind).Pairwise Write.Apart) :
    Undisturbed Store.reliable (discipline start) Write.code jobs catalog ∧
      Progress start (jobs.map Job.kind) catalog := by
  apply history.undisturbed (code_secure tree)
  · exact apart.imp fun apart => ⟨tolerates_of_apart apart, tolerates_of_apart apart.symm⟩
  · exact ⟨tree, fun _ => .inl rfl⟩
  · intro write member before after change progress
    exact progress.step member change

/-- When all of them have ended, each has come to what the start has settled. -/
theorem settled_of_ended
    (history : History Store.reliable Write.code start log (outcomes.map Job.ended) catalog)
    (apart : (outcomes.map Sigma.fst).Pairwise Write.Apart) :
    outcomes = (outcomes.map Sigma.fst).map (fun write => ⟨write, write.verdict start⟩) ∧
      Settled start (outcomes.map Sigma.fst) catalog := by
  rw [← Job.map_kind_ended outcomes] at apart
  rcases undisturbed_of_apart tree history apart with ⟨undisturbed, progress⟩
  rw [Job.map_kind_ended] at progress
  have posts : ∀ outcome ∈ outcomes, (discipline start).post outcome.1 outcome.2 catalog :=
    fun outcome member => (undisturbed.begun _ (List.mem_map.mpr ⟨outcome, member, rfl⟩)).post_of_done
  refine ⟨?_, ?_, progress.elsewhere⟩
  · have verdicts : ∀ outcome ∈ outcomes, id outcome = ⟨outcome.1, outcome.1.verdict start⟩ := by
      rintro ⟨write, value⟩ member
      have settled : value = write.verdict start := (posts ⟨write, value⟩ member).1
      rw [settled, id]
    rw [List.map_map]
    exact (List.map_id outcomes).symm.trans (List.map_congr_left verdicts)
  · intro write member
    rcases List.mem_map.mp member with ⟨outcome, inside, rfl⟩
    exact (posts outcome inside).2

end

end Virtual

namespace Backend

open Virtual

/-- Files that are apart are written at the same time, to an open store that holds a
tree and whose host refuses nothing.  Whatever order the single calls have come in so
far, the store holds a tree.  When all writes have ended, one may compare with writing
the files one after the other, in any order: that can be done, and however it is done,
each write comes to the same, and the store holds the same. -/
theorem concurrent_writes_undisturbed {start after : Backend} {log : List Mark}
    {jobs : List (Job Store.calls fun _ : Write => Except FsError Answer)}
    (tree : start.catalog.IsSaveTree)
    (history : History (onHost Host.willing) Write.code start log jobs after)
    (apart : (jobs.map Job.kind).Pairwise Write.Apart) :
    after.catalog.IsSaveTree ∧
    ∀ outcomes, jobs = outcomes.map Job.ended →
      ∀ order : List Write, order.Perm (jobs.map Job.kind) →
        (∃ turns last, turns.map Sigma.fst = order ∧
          InTurn (onHost Host.willing) Write.code turns start last) ∧
        ∀ turns last, turns.map Sigma.fst = order →
          InTurn (onHost Host.willing) Write.code turns start last →
          turns.Perm outcomes ∧ last.catalog.Same after.catalog := by
  refine ⟨(undisturbed_of_apart tree (history.project reliable_of_onHost) apart).2.tree, ?_⟩
  rintro outcomes rfl order perm
  refine ⟨InTurn.exists_of_total exists_onHost_turn Write.code order start, ?_⟩
  rintro turns last rfl inTurn
  rcases inTurn.history .nothing with ⟨serial, inOrder⟩
  rw [List.nil_append] at inOrder
  rw [Job.map_kind_ended] at perm apart
  have apartInOrder : (turns.map Sigma.fst).Pairwise Write.Apart :=
    perm.symm.pairwise apart fun apart => apart.symm
  rcases settled_of_ended tree (history.project reliable_of_onHost) apart with ⟨verdicts, settled⟩
  rcases settled_of_ended tree (inOrder.project reliable_of_onHost) apartInOrder with
    ⟨verdictsInOrder, settledInOrder⟩
  refine ⟨?_, settledInOrder.same settled perm⟩
  rw [verdicts, verdictsInOrder]
  exact perm.map _

/-- Two files below one directory that is missing.  Both writes find it missing, and
both put it. -/
theorem concurrent_writes_undisturbed_below_missing :
    ∃ after log, History (onHost Host.willing) Write.code (memory .empty) log
        [.ended ⟨⟨"a/b", .text "1"⟩, .ok .done⟩, .ended ⟨⟨"a/c", .text "2"⟩, .ok .done⟩] after ∧
      after.catalog.get? "a" = some .directory ∧ after.catalog.IsSaveTree ∧
      ∃ turns last, turns.map Sigma.fst = [⟨"a/c", .text "2"⟩, ⟨"a/b", .text "1"⟩] ∧
        InTurn (onHost Host.willing) Write.code turns (memory .empty) last ∧
        turns.Perm [⟨⟨"a/b", .text "1"⟩, .ok .done⟩, ⟨⟨"a/c", .text "2"⟩, .ok .done⟩] ∧
        last.catalog.Same after.catalog := by
  have move : ∀ {log jobs catalog} (index : Nat) {write : Write} {request : Store.Call}
      {next : Except FsError request.Answer → Program Store.calls (Except FsError Answer)},
      History (onHost Host.willing) Write.code (memory .empty) log jobs (memory catalog) →
      jobs[index]? = some ⟨write, .call request next⟩ →
      History (onHost Host.willing) Write.code (memory .empty) (log ++ [.moved index])
        (jobs.set index ⟨write, next (.ok (request.answer catalog))⟩)
        (memory (request.effect catalog)) := by
    intro log jobs catalog index write request next history here
    exact history.move here (.done _ _)
  have begun : History (onHost Host.willing) Write.code (memory .empty) _ _ (memory .empty) :=
    (History.nothing.begin ⟨"a/b", .text "1"⟩).begin ⟨"a/c", .text "2"⟩
  -- each call of the first write is followed by the same call of the second
  have looked := move 1 (move 0 begun rfl) rfl
  have furnished := move 1 (move 0 looked rfl) rfl
  have checked := move 1 (move 0 furnished rfl) rfl
  have ended := move 1 (move 0 checked rfl) rfl
  have apart : List.Pairwise Write.Apart [⟨"a/b", .text "1"⟩, ⟨"a/c", .text "2"⟩] := by
    apply List.pairwise_pair.mpr
    intro key other admitted admittedOther
    cases admitted
    cases admittedOther
    exact ⟨by decide, by decide, by decide⟩
  have tree : (memory .empty).catalog.IsSaveTree := Catalog.isSaveTree_empty
  rcases concurrent_writes_undisturbed tree ended apart with ⟨treeAfter, serial⟩
  rcases serial [⟨⟨"a/b", .text "1"⟩, .ok .done⟩, ⟨⟨"a/c", .text "2"⟩, .ok .done⟩] rfl
    [⟨"a/c", .text "2"⟩, ⟨"a/b", .text "1"⟩] (.swap _ _ _) with ⟨⟨turns, last, kinds, inTurn⟩, same⟩
  exact ⟨_, _, ended, rfl, treeAfter, turns, last, kinds, inTurn, same turns last kinds inTurn⟩

end Backend
end SaveTree
