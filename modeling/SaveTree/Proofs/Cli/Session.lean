import SaveTree.Proofs.Cli.Printing
import SaveTree.Proofs.Store.Answering

namespace SaveTree

/-!
# Sessions of command lines

Each command line is run in a process of its own: it opens the store anew and
leaves nothing to the next one but the document.  Still a session of command lines
is one save tree in memory, as long as all of them name the same document and the
host accepts it.  The document keeps no order of the rows, so each process finds
what the one before has left, but perhaps in another order; no operation sees
that.
-/

open Host Program

namespace Cli

namespace Command

/-- The operation on the tree that a command asks for.  What is to be brought into
the tree is read on the host. -/
def operation? (machine : Machine) : Command → Option Operation
  | write path text => some (.writeText path text)
  | bring path file => (machine.contents file).toOption.map (.write path)
  | read path => some (.readText path)
  | readBytes path => some (.read path)
  | find path => some (.find path)
  | makeDirectory path recursive => some (.makeDirectory path recursive)
  | list path recursive _ => some (.list path recursive)
  | remove path recursive => some (.remove path recursive)
  | copy source target => some (.copy source target)
  | rename source target => some (.rename source target)
  | autosave _ _ _ _ => none

/-- The command prints a listing as JSON. -/
def printsJson : Command → Bool
  | list _ _ json => json
  | _ => false

end Command

/-- The report tells the result of an operation: its answer is printed, or the run
has failed for the same reason. -/
inductive Tells (json : Bool) : Except FsError Answer → Report → Prop where
  | printed {answer : Answer} {report : Report} (succeeds : report.failure? = none)
      (prints : report.output.render = answerText json answer) : Tells json (.ok answer) report
  | failed (error : FsError) : Tells json (.error error) (.failed (.fs error))

theorem Tells.code_eq_zero_iff {json : Bool} {result : Except FsError Answer} {report : Report}
    (tells : Tells json result report) : report.code = 0 ↔ ∃ answer, result = .ok answer := by
  cases tells with
  | printed succeeds _ => simp [Report.code, succeeds]
  | failed error => cases error <;> simp [Report.code, Report.failed]

/-! ## One operation on an open store -/

section Working

open Durable

variable {document : String} {machine : Machine} {image : Catalog}

/-- An operation on the tree in a document is an operation in memory. -/
theorem run_perform (working : Working document machine image) (operation : Operation) :
    ∃ result next after,
      attempt Store.memory (Virtual.perform operation) image = (result, next) ∧
      machine.run ((FileSystem.perform operation).run (.stored (.durable ⟨document, image⟩))) =
        ((result, .stored (.durable ⟨document, next⟩)), after) ∧
      Working document after next := by
  rcases (Backend.Answering.durable working).perform operation with
    ⟨result, next, after, inMemory, onHost, answering⟩
  cases answering with
  | durable workingAfter => exact ⟨result, next, after, inMemory, onHost, workingAfter⟩

/-- What a command leaves of the tree in a document, and what it tells of the
operation it asks for. -/
def Answers (document : String) (machine : Machine) (image : Catalog) (operation : Operation)
    (json : Bool) (program : FileSystem.Using Report) : Prop :=
  ∃ result next report after,
    attempt Store.memory (Virtual.perform operation) image = (result, next) ∧
    machine.run (program.run (.stored (.durable ⟨document, image⟩))) =
      ((report, .stored (.durable ⟨document, next⟩)), after) ∧
    Tells json result report ∧ Working document after next

theorem performing_answers (working : Working document machine image) (operation : Operation)
    (json : Bool) : Answers document machine image operation json (performing operation json) := by
  rcases run_perform working operation with ⟨result, next, after, inMemory, onHost, workingAfter⟩
  cases result with
  | ok answer =>
    refine ⟨.ok answer, next, .printed (answerText json answer), after, inMemory, ?_,
      .printed rfl rfl, workingAfter⟩
    rw [performing, StateT.run_bind, Machine.run_bind, onHost]
    rfl
  | error error =>
    refine ⟨.error error, next, .failed (.fs error), after, inMemory, ?_, .failed error,
      workingAfter⟩
    rw [performing, StateT.run_bind, Machine.run_bind, onHost]
    rfl

/-- A write that succeeds has nothing to answer. -/
theorem eq_done_of_write {path : String} {bytes : ByteArray} {answer : Answer} {next : Catalog}
    (written : attempt Store.memory (Virtual.perform (.write path bytes)) image = (.ok answer, next)) :
    answer = .done := by
  have answers : attempt Store.memory (Virtual.perform (.write path bytes)) image =
      ((attempt Store.memory (Virtual.writeFile path (.bytes bytes)) image).1.map fun _ => .done,
        (attempt Store.memory (Virtual.writeFile path (.bytes bytes)) image).2) :=
    attempt_answer fun _ => Answer.done
  rw [written] at answers
  cases outcome : (attempt Store.memory (Virtual.writeFile path (.bytes bytes)) image).1 with
  | ok value =>
    rw [outcome] at answers
    cases answers
    rfl
  | error error =>
    rw [outcome] at answers
    cases answers

theorem bringing_answers {path file : String} {bytes : ByteArray}
    (working : Working document machine image) (readable : machine.contents file = .ok bytes) :
    Answers document machine image (.write path bytes) false (bringing path file) := by
  rcases run_perform working (.write path bytes) with
    ⟨result, next, after, inMemory, onHost, workingAfter⟩
  have reads : machine.run (Host.read file).run = (.ok bytes, machine) := by
    rw [← readable]
    rfl
  cases result with
  | ok answer =>
    cases eq_done_of_write inMemory
    let notice := "Imported " ++ Nat.repr bytes.size ++ " bytes into " ++ path ++ "\n"
    have tells : Tells false (.ok .done) ⟨.plain "", notice, none⟩ := .printed rfl rfl
    refine ⟨_, next, _, after, inMemory, ?_, tells, workingAfter⟩
    rw [bringing, StateT.run_bind, StateT.run_monadLift, monadLift_self, bind_assoc, Machine.run_bind,
      reads, pure_bind, StateT.run_bind, Machine.run_bind, onHost]
    rfl
  | error error =>
    refine ⟨.error error, next, .failed (.fs error), after, inMemory, ?_, .failed error,
      workingAfter⟩
    rw [bringing, StateT.run_bind, StateT.run_monadLift, monadLift_self, bind_assoc, Machine.run_bind,
      reads, pure_bind, StateT.run_bind, Machine.run_bind, onHost]
    rfl

/-- A command tells what comes of the operation it asks for. -/
theorem Command.run_answers {command : Command} {operation : Operation}
    (working : Working document machine image) (asks : command.operation? machine = some operation)
    (retry : RetryPolicy) :
    Answers document machine image operation command.printsJson (command.run retry) := by
  cases command with
  | bring path file =>
    cases readable : machine.contents file with
    | error error =>
      rw [operation?, readable] at asks
      cases asks
    | ok bytes =>
      rw [operation?, readable] at asks
      cases asks
      exact bringing_answers working readable
  | autosave path ticks every tickMs => cases asks
  | write | read | readBytes | find | makeDirectory | list | remove | copy | rename =>
    cases asks
    exact performing_answers working _ _

end Working

/-! ## One command line -/

theorem looks_readText (path : String) : Looks Machine.serve (Host.readText path) := by
  apply Looks.bind fun _ => rfl
  intro bytes
  cases String.fromUTF8? bytes with
  | some text => exact .pure text
  | none => exact .throw HostError.notText

theorem looks_load (path : String) : Looks Machine.serve (Settings.load path) := by
  apply Looks.bind
  · intro machine
    have reads : attempt Machine.serve (Host.orFail FsError.host (Host.readText path)) machine = _ :=
      Machine.run_orFail machine FsError.host (Host.readText path)
    rw [reads]
    exact looks_readText path machine
  · intro text
    cases (Settings.parse text).mapError FsError.json with
    | ok settings => exact .pure settings
    | error error => exact .throw error

/-- To find out the settings is to look at the host. -/
theorem looks_settings (invocation : Invocation) : Looks Machine.serve invocation.settings := by
  unfold Invocation.settings
  rcases invocation.settings? with _ | path
  · refine .bind (.pure _) ?_
    intro settings
    split
    · exact .pure _
    · cases invocation.store? <;> exact .pure _
  · refine .bind (looks_load path) ?_
    intro settings
    split
    · exact .pure _
    · cases invocation.store? <;> exact .pure _

/-- A command line that works on a document, and the operation that it asks for. -/
structure Line (document : String) (machine : Machine) (arguments : List String)
    (operation : Operation) where
  invocation : Invocation
  settings : Settings
  fits : Invocation.ofArguments? arguments = some invocation
  loads : (machine.run invocation.settings.run).1 = .ok settings
  chooses : settings.store = .durable document ∨ settings.store = .auto document
  asks : invocation.command.operation? machine = some operation

/-- The document opens with what a catalog holds, and the host accepts it. -/
def Available (document : String) (machine : Machine) (catalog : Catalog) : Prop :=
  ∃ image opened, machine.run (Durable.openAt document).run = (.ok ⟨document, image⟩, opened) ∧
    Machine.Extended machine opened ∧ Durable.Working document opened image ∧ image.Same catalog

section

variable {document : String} {machine opened after : Machine} {image catalog : Catalog}

theorem available_of_working (working : Durable.Working document machine image)
    (same : image.Same catalog) : Available document machine catalog := by
  rcases working.reopens with ⟨found, opens, agrees⟩
  refine ⟨found, machine, opens, .refl machine, ⟨working.ready, found, opens, fun _ => rfl⟩, ?_⟩
  exact fun key => (agrees key).trans (same key)

/-- A memory is not resorted to if the document opens. -/
theorem run_auto {program : Host.Program (Except FsError Durable)} {store : Durable}
    (opens : machine.run program = (.ok store, opened)) :
    machine.run (do
      try return Backend.durable (← ExceptT.mk program)
      catch _ => return .memory .empty : ExceptT FsError Host.Program Backend).run =
      (.ok (.durable store), opened) := by
  induction program generalizing machine with
  | done value =>
    cases opens
    rfl
  | call request next ih => exact ih _ opens

theorem run_openChoice {choice : StoreChoice} {store : Durable}
    (chooses : choice = .durable document ∨ choice = .auto document)
    (opens : machine.run (Durable.openAt document).run = (.ok store, opened)) :
    attempt Machine.serve (FileSystem.openChoice choice) machine =
      (.ok (.stored (.durable store)), opened) := by
  have backend : attempt Machine.serve (Backend.openChoice choice) machine =
      (.ok (.durable store), opened) := by
    rcases chooses with rfl | rfl
    · exact attempt_bind_of_ok opens
    · exact run_auto opens
  rw [FileSystem.openChoice, attempt_answer, backend]
  rfl

/-- What a command asks for does not change when directories are added. -/
theorem operation?_of_extended {command : Command} {operation : Operation}
    (extended : Machine.Extended machine opened) (asks : command.operation? machine = some operation) :
    command.operation? opened = some operation := by
  cases command with
  | bring path file =>
    cases readable : machine.contents file with
    | error error =>
      rw [Command.operation?, readable] at asks
      cases asks
    | ok bytes =>
      rw [← asks, Command.operation?, Command.operation?, readable, extended.contents_eq readable]
  | autosave path ticks every tickMs => cases asks
  | write | read | readBytes | find | makeDirectory | list | remove | copy | rename => exact asks

theorem run_invocation {invocation : Invocation} {settings : Settings} {tree treeAfter : FileSystem}
    {report : Report}
    (loads : attempt Machine.serve invocation.settings machine = (.ok settings, machine))
    (opens : attempt Machine.serve (FileSystem.openChoice settings.store) machine = (.ok tree, opened))
    (runs : opened.run ((invocation.command.run settings.queue).run tree) =
      ((report, treeAfter), after)) :
    machine.run invocation.run = (report, after) := by
  have first : machine.run (do
      let settings ← invocation.settings
      return (settings, ← FileSystem.openChoice settings.store) :
        ExceptT FsError Host.Program (Settings × FileSystem)).run = (.ok (settings, tree), opened) := by
    apply (attempt_bind_of_ok loads).trans
    rw [attempt_answer, opens]
    rfl
  rw [Invocation.run, Machine.run_bind, first]
  show opened.run ((invocation.command.run settings.queue).run tree >>= fun outcome =>
    pure outcome.1) = _
  rw [Machine.run_bind, runs]
  rfl

/-- A command line tells what comes of the operation in memory, and leaves its
effect in the document. -/
theorem Line.run {arguments : List String} {operation : Operation}
    (line : Line document machine arguments operation) (available : Available document machine catalog) :
    ∃ result next report after,
      attempt Store.memory (Virtual.perform operation) catalog = (result, next) ∧
      machine.run line.invocation.run = (report, after) ∧
      Tells line.invocation.command.printsJson result report ∧
      Durable.Reopens document after next ∧ Available document after next := by
  rcases available with ⟨image, opened, opens, extended, working, same⟩
  have loads : attempt Machine.serve line.invocation.settings machine = (.ok line.settings, machine) :=
    Prod.ext line.loads (looks_settings line.invocation machine)
  rcases Command.run_answers working (operation?_of_extended extended line.asks)
    line.settings.queue with ⟨result, left, report, after, inMemory, onHost, tells, workingAfter⟩
  -- the image has its rows in another order than the catalog, perhaps
  have agree := Virtual.perform_agrees operation same
  rw [inMemory] at agree
  rcases workingAfter.reopens with ⟨found, reopens, agrees⟩
  refine ⟨result, (attempt Store.memory (Virtual.perform operation) catalog).2, report, after,
    Prod.ext agree.same.symm rfl, run_invocation loads (run_openChoice line.chooses opens) onHost,
    tells, ?_, available_of_working workingAfter agree.related⟩
  exact ⟨found, reopens, fun key => (agrees key).trans (agree.related key)⟩

end

/-! ## Sessions -/

/-- The document is missing.  Its directory is there or can be made, and the host
accepts the document. -/
structure Fresh (document : String) (initial : Machine) : Prop where
  begins : initial.disk.kind? (initial.start document) = some .directory
  missing : ∃ opened, initial.act (Durable.prepare document) = (.ok (), opened) ∧
    opened.contents document = .error .notFound ∧ Durable.Accepts document opened

/-- A session on a document: command lines that are run one after the other, each
in a process of its own, and the operations they ask for. -/
inductive Ran (document : String) (initial : Machine) : List Operation → Machine → Prop where
  | none : Ran document initial [] initial
  | line {operations : List Operation} {machine after : Machine} {arguments : List String}
      {operation : Operation} {report : Report} (ran : Ran document initial operations machine)
      (line : Line document machine arguments operation)
      (runs : machine.run line.invocation.run = (report, after)) :
      Ran document initial (operations ++ [operation]) after

section

variable {document : String} {initial machine after : Machine} {operations : List Operation}

theorem Fresh.available (fresh : Fresh document initial) : Available document initial .empty := by
  rcases fresh.missing with ⟨opened, prepared, missing, accepts⟩
  have opens : initial.run (Durable.openAt document).run = (.ok ⟨document, .empty⟩, opened) := by
    rw [Durable.run_openAt, prepared]
    dsimp only
    rw [missing]
    rfl
  rcases Durable.site_of_openAt fresh.begins opens with ⟨site, extended, reads⟩
  have reopens : Durable.Reopens document opened .empty := by
    refine ⟨.empty, ?_, fun _ => rfl⟩
    rw [site.run_openAt_eq, reads]
  exact ⟨.empty, opened, opens, extended, ⟨Durable.exists_ready site accepts, reopens⟩, .refl _⟩

theorem after_concat (operations : List Operation) (operation : Operation) (catalog : Catalog) :
    Virtual.after (operations ++ [operation]) catalog =
      (attempt Store.memory (Virtual.perform operation) (Virtual.after operations catalog)).2 := by
  rw [Virtual.after, List.foldl_append]
  rfl

theorem isSaveTree_after (operations : List Operation) {catalog : Catalog}
    (tree : catalog.IsSaveTree) : (Virtual.after operations catalog).IsSaveTree := by
  induction operations generalizing catalog with
  | nil => exact tree
  | cons operation rest ih =>
    exact ih (Store.kept_of_ensures catalog (Virtual.perform_ensures tree operation).program)

/-- After every command line of a session the document is there for the next one. -/
theorem Ran.available (ran : Ran document initial operations machine)
    (fresh : Fresh document initial) :
    Available document machine (Virtual.after operations .empty) := by
  induction ran with
  | none => exact fresh.available
  | line ran line runs ih =>
    rcases line.run ih with ⟨result, next, report, after, inMemory, onHost, _, _, available⟩
    rw [runs] at onHost
    cases onHost
    rw [after_concat, inMemory]
    exact available

/-- A session of command lines on a fresh document is one save tree in memory.  The
next command line succeeds exactly if the next operation does, prints its answer or
fails for its reason, and whoever opens the document then finds what is in memory. -/
theorem session_is_one_tree {arguments : List String} {operation : Operation} {report : Report}
    (fresh : Fresh document initial) (ran : Ran document initial operations machine)
    (line : Line document machine arguments operation)
    (runs : machine.run line.invocation.run = (report, after)) :
    ∃ result next, attempt Store.memory (Virtual.perform operation)
        (Virtual.after operations .empty) = (result, next) ∧
      (report.code = 0 ↔ ∃ answer, result = .ok answer) ∧
      (∀ answer, result = .ok answer →
        Renders line.invocation.command.printsJson operation answer report.output.render) ∧
      (∀ error, result = .error error → report = .failed (.fs error)) ∧
      Durable.Reopens document after next := by
  rcases line.run (ran.available fresh) with
    ⟨result, next, told, left, inMemory, onHost, tells, reopens, _⟩
  rw [runs] at onHost
  cases onHost
  refine ⟨result, next, inMemory, tells.code_eq_zero_iff, ?_, ?_, reopens⟩
  · rintro answer rfl
    cases tells with
    | printed _ prints =>
      rw [prints]
      exact renders_answerText (isSaveTree_after operations Catalog.isSaveTree_empty) inMemory
  · rintro error rfl
    cases tells with
    | failed => rfl

end

/-- A file of the host is imported and the directory it came to is moved; the
directory of the document is made on the way.  Then the tree is listed, once by
lines and once in JSON. -/
theorem session_is_one_tree_after_move :
    ∃ (initial machine after other : Machine) (report second : Report),
      initial.contents "notes" = .ok .empty ∧ Fresh "saves/tree" initial ∧
      Ran "saves/tree" initial [.write "a/b" .empty, .rename "a" "c"] machine ∧
      Invocation.ofArguments? ["-s", "saves/tree", "ls", "-r"] =
        some ⟨some "saves/tree", false, none, .list "" true false⟩ ∧
      machine.run (Invocation.mk (some "saves/tree") false none (.list "" true false)).run =
        (report, after) ∧
      report.code = 0 ∧ report.output.render = "c/\n  b\n" ∧
      Invocation.ofArguments? ["-s", "saves/tree", "ls", "--json", "/", "-r"] =
        some ⟨some "saves/tree", false, none, .list "/" true true⟩ ∧
      machine.run (Invocation.mk (some "saves/tree") false none (.list "/" true true)).run =
        (second, other) ∧
      second.code = 0 ∧
      second.output.render = "[\n  \x7b\n    \"path\": \"c\",\n    \"name\": \"c\",\n" ++
        "    \"isFile\": false,\n    \"isDirectory\": true,\n    \"children\": [\n      \x7b\n" ++
        "        \"path\": \"c/b\",\n        \"name\": \"b\",\n        \"isFile\": true,\n" ++
        "        \"isDirectory\": false\n      \x7d\n    ]\n  \x7d\n]\n" ∧
      ∃ image, after.run (Durable.openAt "saves/tree").run = (.ok ⟨"saves/tree", image⟩, after) ∧
        image.get? "c/b" = some (.file (.bytes .empty)) ∧ image.get? "a/b" = none := by
  let initial : Machine := ⟨Disk.empty.putFile ["notes"] .empty, []⟩
  let opened : Machine := ⟨initial.disk.makeDirectory ["saves"], []⟩
  have fresh : Fresh "saves/tree" initial :=
    ⟨rfl, opened, rfl, rfl, fun _ => ⟨_, _, rfl, rfl⟩⟩
  let settings : Settings := { store := .durable "saves/tree" }
  let imports : Line "saves/tree" initial ["--store", "saves/tree", "import", "a/b", "notes"]
      (.write "a/b" .empty) :=
    ⟨⟨some "saves/tree", false, none, .bring "a/b" "notes"⟩, settings, rfl, rfl, .inl rfl, rfl⟩
  rcases importing : initial.run imports.invocation.run with ⟨first, imported⟩
  let moves : Line "saves/tree" imported ["--store=saves/tree", "mv", "a", "c"] (.rename "a" "c") :=
    ⟨⟨some "saves/tree", false, none, .rename "a" "c"⟩, settings, rfl, rfl, .inl rfl, rfl⟩
  rcases moving : imported.run moves.invocation.run with ⟨second, moved⟩
  let lists : Line "saves/tree" moved ["-s", "saves/tree", "ls", "-r"] (.list "" true) :=
    ⟨⟨some "saves/tree", false, none, .list "" true false⟩, settings, rfl, rfl, .inl rfl, rfl⟩
  rcases listing : moved.run lists.invocation.run with ⟨report, after⟩
  let tells : Line "saves/tree" moved ["-s", "saves/tree", "ls", "--json", "/", "-r"]
      (.list "/" true) :=
    ⟨⟨some "saves/tree", false, none, .list "/" true true⟩, settings, rfl, rfl, .inl rfl, rfl⟩
  rcases telling : moved.run tells.invocation.run with ⟨third, other⟩
  have ran : Ran "saves/tree" initial [.write "a/b" .empty, .rename "a" "c"] moved :=
    .line (.line .none imports importing) moves moving
  rcases session_is_one_tree fresh ran lists listing with
    ⟨result, next, inMemory, succeeds, prints, _, found, opens, agrees⟩
  have shown (path : String) (root : Key.ofPath path = "") :
      attempt Store.memory (Virtual.perform (.list path true))
        (Virtual.after [.write "a/b" .empty, .rename "a" "c"] .empty) =
      (.ok (.listing [.mk "c" "c" .directory (some [.mk "c/b" "b" .file none])]),
        Virtual.after [.write "a/b" .empty, .rename "a" "c"] .empty) := by
    rw [Virtual.perform, Virtual.list, root]
    rfl
  rw [shown "" (by decide)] at inMemory
  cases inMemory
  rcases session_is_one_tree fresh ran tells telling with
    ⟨result, next, inMemory, succeedsToo, printsToo, _⟩
  rw [shown "/" (by decide)] at inMemory
  cases inMemory
  have lines := Renders.eq_lines (prints _ rfl)
  rcases Renders.exists_values (printsToo _ rfl) with ⟨values, portrayed, json⟩
  refine ⟨initial, moved, after, other, report, third, rfl, fresh, ran, rfl, listing,
    succeeds.mpr ⟨_, rfl⟩, lines.trans (by decide), rfl, telling, succeedsToo.mpr ⟨_, rfl⟩, ?_,
    found, opens, agrees "c/b", agrees "a/b"⟩
  rw [json]
  cases portrayed with
  | cons directory none =>
    cases none
    cases directory with
    | opened _ _ _ below =>
      cases below with
      | cons file none =>
        cases none
        cases file
        decide +kernel

end Cli
end SaveTree
