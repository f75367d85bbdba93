import SaveTree.Proofs.Native.Simulation

namespace SaveTree

/-!
# Paths that lead to nothing

What operations answer about a path under whose key nothing stands.  In a store
they answer that nothing is there, and they find that out by looking alone.  In a
directory of the host they answer the same, unless the host refuses to look: it
does so when a file stands above the key, and when the host path is too long.
-/

/-- An operation on a path, and what it answers if nothing stands under the path's
key. -/
inductive Misses (path key : String) : Operation → Except FsError Answer → Prop where
  | find : Misses path key (.find path) (.ok (.found false))
  | remove (recursive : Bool) : Misses path key (.remove path recursive) (.ok .done)
  | readText : Misses path key (.readText path) (.error (.fileNotFound key))
  | read : Misses path key (.read path) (.error (.fileNotFound key))
  | copy {target targetKey : String} (admitted : Key.require target = .ok targetKey) :
      Misses path key (.copy path target) (.error (.fileNotFound key))
  | rename {target targetKey : String} (admitted : Key.require target = .ok targetKey) :
      Misses path key (.rename path target) (.error (.fileNotFound key))

variable {path key : String} {operation : Operation} {answer : Except FsError Answer}

/-! ## In a store -/

section Observation

variable {α β : Type} {catalog : Catalog}

/-- The program only looks at the catalog, and ends with the value. -/
def Program.Observes (catalog : Catalog) (result : α) : Program Store.calls α → Prop
  | .done value => value = result
  | .call request next =>
    request.changes = false ∧ Observes catalog result (next (.ok (request.answer catalog)))

theorem Program.Observes.bind {program : Program Store.calls α} {next : α → Program Store.calls β}
    {value : α} {result : β} (first : Observes catalog value program)
    (later : Observes catalog result (next value)) : Observes catalog result (program >>= next) := by
  induction program with
  | done found =>
    cases first
    exact later
  | call request resume ih => exact ⟨first.1, ih _ first.2⟩

theorem Durable.concerns_of_not_changes {call : Store.Call} (looks : call.changes = false)
    (image : Catalog) : concerns image call = false := by
  cases call <;> first | rfl | cases looks

/-- An open store answers a look at once and stays as it is. -/
theorem Backend.serve_run_of_not_changes {call : Store.Call} (looks : call.changes = false)
    (backend : Backend) :
    (serve call).run backend = pure (.ok (call.answer backend.catalog), backend) := by
  cases backend with
  | memory catalog =>
    have effect_eq : call.effect catalog = catalog := by
      cases call <;> first | rfl | cases looks
    have served : (serve call).run (memory catalog) =
        pure (.ok (call.answer catalog), memory (call.effect catalog)) := rfl
    rw [served, effect_eq]
    rfl
  | durable store =>
    have idle := Durable.concerns_of_not_changes looks store.image
    rw [serve_run_durable, Durable.serve_run_of_not_concerns idle]
    rfl

/-- A program that only looks makes no call on the host. -/
theorem Backend.run_of_observes {program : Program Store.calls α} {result : α} {backend : Backend}
    (observes : program.Observes backend.catalog result) :
    (program.run serve).run backend = pure (result, backend) := by
  induction program with
  | done value =>
    cases observes
    rfl
  | call request next ih =>
    rw [Program.run_call, StateT.run_bind, serve_run_of_not_changes observes.1, pure_bind]
    exact ih _ observes.2

namespace Session

/-- The session only looks at the catalog, and ends with the result. -/
structure Observes (catalog : Catalog) (result : Except FsError α) (session : Session α) : Prop where
  program : Program.Observes catalog result session.run

namespace Observes

variable {session : Session α} {next : α → Session β}

theorem pure (value : α) : Observes catalog (.ok value) (Pure.pure value) :=
  ⟨rfl⟩

theorem throw (error : FsError) : Observes catalog (.error error) (MonadExcept.throw error : Session α) :=
  ⟨rfl⟩

theorem bind_of_ok {value : α} {result : Except FsError β}
    (first : Observes catalog (.ok value) session) (later : Observes catalog result (next value)) :
    Observes catalog result (session >>= next) :=
  ⟨Program.Observes.bind first.program later.program⟩

theorem bind_of_error {error : FsError} (first : Observes catalog (.error error) session) :
    Observes catalog (.error error) (session >>= next) :=
  ⟨Program.Observes.bind first.program rfl⟩

theorem get {result : Except FsError β} {next : Option Node → Session β}
    (later : Observes catalog result (next (catalog.get? key))) :
    Observes catalog result (Session.get key >>= next) :=
  ⟨rfl, later.program⟩

/-- A path that is admitted. -/
theorem require {result : Except FsError β} {next : String → Session β}
    (admitted : Key.require path = .ok key) (later : Observes catalog result (next key)) :
    Observes catalog result (do next (← (Key.require path : Except FsError String))) := by
  rw [admitted]
  exact later

end Observes

end Session

end Observation

namespace Virtual

variable {catalog : Catalog}

theorem contentAt_observes (missing : catalog.get? key = none) :
    (contentAt key).Observes catalog (.error (.fileNotFound key)) := by
  apply Session.Observes.get
  rw [missing]
  exact .throw (.fileNotFound key)

/-- In a save tree a missing key has nothing below it either. -/
theorem remove_observes {recursive : Bool} (tree : catalog.IsSaveTree)
    (admitted : Key.require path = .ok key) (missing : catalog.get? key = none) :
    (remove path recursive).Observes catalog (.ok ()) := by
  have inside := (Key.require_eq_ok_iff.mp admitted).2.1
  have nothing : catalog.below key = [] := Native.below_eq_nil_of_leaf tree (missing ▸ nofun)
  have lists : (descendants key).Observes catalog (.ok []) := by
    rw [← nothing]
    exact ⟨rfl, rfl⟩
  rw [remove, if_neg inside]
  apply Session.Observes.require admitted
  apply Session.Observes.get
  apply Session.Observes.bind_of_ok lists
  rw [missing]
  exact .pure ()

theorem perform_observes (tree : catalog.IsSaveTree) (admitted : Key.require path = .ok key)
    (missing : catalog.get? key = none) (misses : Misses path key operation answer) :
    (perform operation).Observes catalog answer := by
  have content := contentAt_observes missing
  cases misses with
  | find =>
    rcases Key.require_eq_ok_iff.mp admitted with ⟨key_eq, inside, _⟩
    have looks : (find path).Observes catalog (.ok false) := by
      rw [find, if_neg inside, ← key_eq]
      apply Session.Observes.get
      rw [missing]
      exact .pure false
    exact .bind_of_ok looks (.pure (Answer.found false))
  | remove recursive => exact .bind_of_ok (remove_observes tree admitted missing) (.pure Answer.done)
  | readText => exact .bind_of_error (.require admitted (.bind_of_error content))
  | read => exact .bind_of_error (.require admitted (.bind_of_error content))
  | copy admittedTarget =>
    exact .bind_of_error (.require admitted (.require admittedTarget (.bind_of_error content)))
  | rename admittedTarget =>
    refine .bind_of_error (.require admitted (.require admittedTarget (.get ?_)))
    rw [missing]
    exact .throw (.fileNotFound key)

end Virtual

/-! ## In a directory of the host -/

namespace Native

open Host Location Machine Program

variable {root : String} {machine : Machine} {place : Place}

/-- An admitted path is used as its key. -/
theorem attempt_require {α : Type} {next : String → Act α} (admitted : Key.require path = .ok key) :
    attempt Machine.serve (liftM (Key.require path) >>= next) machine =
      attempt Machine.serve (next key) machine := by
  rw [admitted]
  rfl

/-- The answer, or the obstacle that the host has met. -/
def refusedOr {α : Type} (obstacle : Option HostError) (answer : Except FsError α) :
    Except FsError α :=
  obstacle.elim answer fun error => .error (.host error)

/-- All that such an operation does is a look at the key, if the host lets it. -/
theorem attempt_of_look {obstacle : Option HostError} (admitted : Key.require path = .ok key)
    (looks : attempt Machine.serve (kind? root key) machine = (refusedOr obstacle (.ok none), machine))
    (misses : Misses path key operation answer) :
    attempt Machine.serve (perform root operation) machine = (refusedOr obstacle answer, machine) := by
  have bytes : attempt Machine.serve (bytesAt root key) machine =
      (refusedOr obstacle (.error (.fileNotFound key)), machine) := by
    rw [bytesAt, attempt_bind, looks]
    cases obstacle <;> rfl
  rcases Key.require_eq_ok_iff.mp admitted with ⟨key_eq, inside, _⟩
  cases misses with
  | find =>
    rw [perform, attempt_answer, find, if_neg inside, ← key_eq, attempt_bind, looks]
    cases obstacle <;> rfl
  | remove recursive =>
    rw [perform, attempt_bind, remove, if_neg inside, attempt_require admitted, attempt_bind, looks]
    cases obstacle <;> rfl
  | readText =>
    rw [perform, attempt_answer, readText, attempt_require admitted, attempt_bind, bytes]
    cases obstacle <;> rfl
  | read =>
    rw [perform, attempt_answer, readBytes, attempt_require admitted, bytes]
    cases obstacle <;> rfl
  | copy admittedTarget =>
    rw [perform, attempt_bind, copy, attempt_require admitted, attempt_require admittedTarget,
      attempt_bind, bytes]
    cases obstacle <;> rfl
  | rename admittedTarget =>
    rw [perform, attempt_bind, rename, attempt_require admitted, attempt_require admittedTarget,
      attempt_bind, looks]
    cases obstacle <;> rfl

/-- The host has no objection to the key itself: no byte of it is zero, and no name
in it is too long. -/
structure Nameable (key : String) : Prop where
  clean : '\x00' ∉ key.toList
  short : ∀ step ∈ Key.steps key, step.utf8ByteSize ≤ nameLimit

/-- What keeps the host from looking at a key under which nothing stands. -/
def obstacle? (machine : Machine) (root : String) (place : Place) (key : String) : Option HostError :=
  if pathLimit ≤ (hostPath root key).utf8ByteSize then some .nameTooLong
  else if (Key.beginnings (Key.steps key)).any
      fun upper => machine.disk.kind? (place ++ upper) = some .file then some .notADirectory
  else none

theorem checkBytes_hostPath (clean : checkBytes root = .ok ()) (cleanKey : '\x00' ∉ key.toList) :
    checkBytes (hostPath root key) = .ok () := by
  have noZero : '\x00' ∉ root.toList := by
    intro inside
    rw [checkBytes, List.contains_iff_mem.mpr inside] at clean
    cases clean
  have absent : '\x00' ∉ (hostPath root key).toList := by
    rw [hostPath, join]
    split
    · exact noZero
    · split <;> simp [noZero, cleanKey]
  rw [checkBytes, if_neg (mt List.contains_iff_mem.mp absent)]

/-- A look at a missing key sees that it is missing, unless there is an obstacle. -/
theorem attempt_kind?_of_missing (located : machine.locate root = .ok (place, .directory))
    (admitted : Key.require path = .ok key) (nameable : Nameable key)
    (missing : machine.disk.kind? (place ++ Key.steps key) = none) :
    attempt Machine.serve (kind? root key) machine =
      (refusedOr (obstacle? machine root place key) (.ok none), machine) := by
  have nonempty := root_ne_empty located
  have clean := checkBytes_hostPath (leads_of_locate located).1 nameable.clean
  rw [attempt_kind?, obstacle?]
  split
  · rename_i long
    have refused : machine.locate (hostPath root key) = .error .nameTooLong := by
      rw [locate, clean, admitLength, if_neg (hostPath_ne_empty nonempty key), if_pos long]
      rfl
    rw [refused]
    rfl
  rename_i short
  rcases (Key.canonical_of_require admitted).exists_steps with ⟨steps, _, areNames, rfl⟩
  have areSteps := areSteps_of_areNames areNames
  rw [areNames.steps_text] at missing ⊢
  have fits : Fits root steps := by
    refine ⟨clean, ?_, ?_⟩
    · rw [admitLength, if_neg (hostPath_ne_empty nonempty _), if_neg short]
    · intro step member
      have small := nameable.short step (areNames.steps_text.symm ▸ member)
      rw [admitName, if_neg (Nat.not_lt.mpr small)]
  split
  · rename_i blocked
    rcases List.any_eq_true.mp blocked with ⟨upper, inside, isFile⟩
    have file := of_decide_eq_true isFile
    have above := (Key.mem_beginnings_iff.mp inside).2
    have proper : upper ≠ steps := by
      rintro rfl
      rw [missing] at file
      cases file
    rw [locate_of_blocked located areSteps fits above proper file]
    rfl
  · rename_i free
    have clear : ∀ upper, upper <+: steps → machine.disk.kind? (place ++ upper) ≠ some .file := by
      intro upper above file
      by_cases top : upper = []
      · rw [top, List.append_nil, (leads_of_locate located).2.2.2] at file
        cases file
      · exact free (List.any_eq_true.mpr
          ⟨upper, Key.mem_beginnings_iff.mpr ⟨top, above⟩, decide_eq_true file⟩)
    rw [locate_of_missing located areSteps fits missing clear]
    rfl

end Native

/-- Of a path under whose key nothing stands, a store that was reached from an empty
one says so, without any call on the host.  So does a directory of the host, unless
an obstacle keeps the host from looking.  Neither is changed. -/
theorem missing_path_is_missing {path key : String} {operation : Operation}
    {answer : Except FsError Answer} (admitted : Key.require path = .ok key)
    (misses : Misses path key operation answer) :
    (∀ backend, Backend.Reached backend → backend.catalog.get? key = none →
      (Backend.run (Virtual.perform operation)).run backend = pure (answer, backend)) ∧
    ∀ machine root place, Host.Machine.locate machine root = .ok (place, .directory) →
      machine.disk.kind? (place ++ Key.steps key) = none → Native.Nameable key →
      Program.attempt Host.Machine.serve (Native.perform root operation) machine =
        (Native.refusedOr (Native.obstacle? machine root place key) answer, machine) := by
  constructor
  · intro backend reached missing
    have tree := Backend.isSaveTree_of_reached reached
    exact Backend.run_of_observes (Virtual.perform_observes tree admitted missing misses).program
  · intro machine root place located missing nameable
    have looks := Native.attempt_kind?_of_missing located admitted nameable missing
    exact Native.attempt_of_look admitted looks misses

/-- A move from a path that was to be written, in a store that could commit no more
than the directory above it, and in a root that holds another file. -/
theorem missing_path_is_missing_after_failure :
    ∃ backend, Backend.Reached backend ∧ backend.catalog.get? "a" = some .directory ∧
      (Backend.run (Virtual.perform (.rename "/x/..//a/b" "save"))).run backend =
        pure (.error (.fileNotFound "a/b"), backend) ∧
      Program.attempt Host.Machine.serve
          (Native.perform "root" (.rename "/x/..//a/b" "save")) Native.quiet =
        (.error (.fileNotFound "a/b"), Native.quiet) := by
  have reached : Backend.Reached (.durable ⟨"saves", Catalog.put .empty ⟨"a", .directory⟩⟩) :=
    Backend.Reached.perform (.writeText "a/b" "x") (.durable "saves")
      (.call (show Host.unknown.turn () (.write _ _) (.ok ()) () from trivial)
        (.call (show Host.unknown.turn () (.rename _ _) (.ok ()) () from trivial)
          (.call (show Host.unknown.turn () (.write _ _) (.ok ()) () from trivial)
            (.call (show Host.unknown.turn () (.rename _ _) (.error .busy) () from trivial)
              (.done _ _)))))
  have nameable : Native.Nameable "a/b" := ⟨by decide, by decide⟩
  have admitted : Key.require "/x/..//a/b" = .ok "a/b" := rfl
  have admittedTarget : Key.require "save" = .ok "save" := rfl
  have missing := missing_path_is_missing admitted (.rename admittedTarget)
  exact ⟨_, reached, rfl, missing.1 _ reached rfl,
    missing.2 Native.quiet "root" ["root"] rfl rfl nameable⟩

/-- Nothing can stand below a file, and yet the host does not say so. -/
theorem find_refused_below_file :
    Key.require "save/x" = .ok "save/x" ∧ Native.Nameable "save/x" ∧
      Native.quiet.locate "root" = .ok (["root"], .directory) ∧
      Native.quiet.disk.kind? (["root"] ++ Key.steps "save/x") = none ∧
      Program.attempt Host.Machine.serve (Native.perform "root" (.find "save/x")) Native.quiet =
        (.error (.host .notADirectory), Native.quiet) :=
  ⟨rfl, ⟨by decide, by decide⟩, rfl, rfl, rfl⟩

end SaveTree
