import SaveTree.Program

namespace SaveTree
namespace Program

/-!
# Attempts

Most programs can fail.  With a server that keeps a state, such a program gives a
value or an error, and leaves a state in either case.  The lemmas of this module
say how that outcome is put together from the outcomes of its parts, so that
programs are followed step by step.

Some programs only look: they leave the state as it is.

Two attempts agree if they give the same and leave states that belong together.
They may be attempts of different programs, with different servers.
-/

variable {face other : Interface} {σ τ ε α β : Type}

/-- What a program that can fail gives, and the state it leaves. -/
def attempt (serve : (call : face.Call) → StateM σ (face.Reply call))
    (program : ExceptT ε (Program face) α) (state : σ) : Except ε α × σ :=
  (Program.run serve program.run : StateM σ (Except ε α)).run state

section

variable (serve : (call : face.Call) → StateM σ (face.Reply call)) (state : σ)

@[simp]
theorem attempt_pure (value : α) :
    attempt serve (pure value : ExceptT ε (Program face) α) state = (.ok value, state) :=
  rfl

@[simp]
theorem attempt_throw (error : ε) :
    attempt serve (throw error : ExceptT ε (Program face) α) state = (.error error, state) :=
  rfl

/-- What was found without any call. -/
@[simp]
theorem attempt_lift (found : Except ε α) :
    attempt serve (liftM found : ExceptT ε (Program face) α) state = (found, state) := by
  cases found <;> rfl

/-- A program goes on where the first part of it has ended, unless that part has
failed. -/
theorem attempt_bind (program : ExceptT ε (Program face) α)
    (next : α → ExceptT ε (Program face) β) :
    attempt serve (program >>= next) state =
      match attempt serve program state with
      | (.ok value, after) => attempt serve (next value) after
      | (.error error, after) => (.error error, after) := by
  unfold attempt
  rw [ExceptT.run_bind, run_bind, StateT.run_bind]
  cases (Program.run serve program.run : StateM σ (Except ε α)).run state with
  | mk outcome after => cases outcome <;> rfl

end

section

variable {serve : (call : face.Call) → StateM σ (face.Reply call)} {state after : σ}
  {program : ExceptT ε (Program face) α} {next : α → ExceptT ε (Program face) β}

theorem attempt_bind_of_ok {value : α} (first : attempt serve program state = (.ok value, after)) :
    attempt serve (program >>= next) state = attempt serve (next value) after := by
  rw [attempt_bind, first]

theorem attempt_bind_of_error {error : ε}
    (first : attempt serve program state = (.error error, after)) :
    attempt serve (program >>= next) state = (.error error, after) := by
  rw [attempt_bind, first]

/-- What is made of the result changes no state. -/
theorem attempt_answer (result : α → β) :
    attempt serve (do return result (← program)) state =
      ((attempt serve program state).1.map result, (attempt serve program state).2) := by
  rw [attempt_bind]
  cases attempt serve program state with
  | mk outcome after => cases outcome <;> rfl

theorem attempt_answer_eq_error_iff {result : α → β} {error : ε} :
    (attempt serve (do return result (← program)) state).1 = .error error ↔
      (attempt serve program state).1 = .error error := by
  rw [attempt_answer]
  rcases attempt serve program state with ⟨failure | value, after⟩
  · simp [Except.map]
  · simp [Except.map]

/-- Programs that leave the state as it is, one after the other. -/
theorem attempt_mapM {list : List α} {body : α → ExceptT ε (Program face) β} {result : α → β}
    (each : ∀ item ∈ list, attempt serve (body item) state = (.ok (result item), state)) :
    attempt serve (list.mapM body) state = (.ok (list.map result), state) := by
  induction list with
  | nil => rfl
  | cons item rest ih =>
    have later := ih fun other member => each other (.tail _ member)
    rw [List.mapM_cons, attempt_bind_of_ok (each item List.mem_cons_self), attempt_bind_of_ok later]
    rfl

/-- A program that succeeds has succeeded in its first part and in what follows it. -/
theorem attempt_bind_eq_ok {value : β}
    (succeeds : attempt serve (program >>= next) state = (.ok value, after)) :
    ∃ first between, attempt serve program state = (.ok first, between) ∧
      attempt serve (next first) between = (.ok value, after) := by
  rw [attempt_bind] at succeeds
  cases outcome : attempt serve program state with
  | mk result between =>
    rw [outcome] at succeeds
    cases result with
    | error error => cases succeeds
    | ok first => exact ⟨first, between, rfl, succeeds⟩

/-- An error of a program is an error of its first part, or of what follows it. -/
theorem attempt_bind_eq_error {error : ε}
    (fails : attempt serve (program >>= next) state = (.error error, after)) :
    attempt serve program state = (.error error, after) ∨
      ∃ value between, attempt serve program state = (.ok value, between) ∧
        attempt serve (next value) between = (.error error, after) := by
  rw [attempt_bind] at fails
  cases first : attempt serve program state with
  | mk outcome between =>
    rw [first] at fails
    cases outcome with
    | error other =>
      cases fails
      exact .inl rfl
    | ok value => exact .inr ⟨value, between, rfl, fails⟩

end

/-! ## Programs that only look -/

/-- The program leaves every state as it is. -/
def Looks (serve : (call : face.Call) → StateM σ (face.Reply call))
    (program : ExceptT ε (Program face) α) : Prop :=
  ∀ state, (attempt serve program state).2 = state

namespace Looks

variable {serve : (call : face.Call) → StateM σ (face.Reply call)}
  {program : ExceptT ε (Program face) α} {next : α → ExceptT ε (Program face) β}

theorem pure (value : α) : Looks serve (Pure.pure value : ExceptT ε (Program face) α) :=
  fun _ => rfl

theorem throw (error : ε) : Looks serve (MonadExcept.throw error : ExceptT ε (Program face) α) :=
  fun _ => rfl

theorem bind (first : Looks serve program) (later : ∀ value, Looks serve (next value)) :
    Looks serve (program >>= next) := by
  intro state
  have stays := first state
  cases outcome : attempt serve program state with
  | mk result after =>
    rw [outcome] at stays
    cases result with
    | ok value =>
      rw [attempt_bind_of_ok outcome, later value after]
      exact stays
    | error error =>
      rw [attempt_bind_of_error outcome]
      exact stays

theorem mapM {list : List α} {body : α → ExceptT ε (Program face) β}
    (each : ∀ item ∈ list, Looks serve (body item)) : Looks serve (list.mapM body) := by
  induction list with
  | nil => exact pure []
  | cons item rest ih =>
    rw [List.mapM_cons]
    apply bind (each item List.mem_cons_self)
    intro first
    apply bind (ih fun other member => each other (.tail _ member))
    intro others
    exact pure (first :: others)

end Looks

/-! ## Attempts that agree -/

/-- The same is given, and the states that are left belong together. -/
structure Agree (related : σ → τ → Prop) (left : Except ε α × σ) (right : Except ε α × τ) : Prop where
  same : left.1 = right.1
  related : related left.2 right.2

namespace Agree

variable {related : σ → τ → Prop}
  {serve : (call : face.Call) → StateM σ (face.Reply call)}
  {serveOther : (call : other.Call) → StateM τ (other.Reply call)}
  {program : ExceptT ε (Program face) α} {programOther : ExceptT ε (Program other) α}
  {next : α → ExceptT ε (Program face) β} {nextOther : α → ExceptT ε (Program other) β}
  {state : σ} {stateOther : τ}

/-- What one side gives, the other one gives as well. -/
theorem exists_of_right {outcome : Except ε α × σ} {result : Except ε α}
    (agree : Agree related outcome (result, stateOther)) :
    ∃ after, outcome = (result, after) ∧ related after stateOther :=
  ⟨outcome.2, Prod.ext agree.same rfl, agree.related⟩

/-- Programs agree if their first parts do, and what follows these in states that
belong together. -/
theorem bind
    (first : Agree related (attempt serve program state) (attempt serveOther programOther stateOther))
    (later : ∀ value after afterOther,
      attempt serve program state = (.ok value, after) →
      attempt serveOther programOther stateOther = (.ok value, afterOther) →
      related after afterOther →
      Agree related (attempt serve (next value) after)
        (attempt serveOther (nextOther value) afterOther)) :
    Agree related (attempt serve (program >>= next) state)
      (attempt serveOther (programOther >>= nextOther) stateOther) := by
  cases left : attempt serve program state with
  | mk outcome after =>
  cases right : attempt serveOther programOther stateOther with
  | mk outcomeOther afterOther =>
  rw [left, right] at first
  cases first.same
  cases outcome with
  | error error =>
    rw [attempt_bind_of_error left, attempt_bind_of_error right]
    exact ⟨rfl, first.related⟩
  | ok value =>
    rw [attempt_bind_of_ok left, attempt_bind_of_ok right]
    exact later value after afterOther left right first.related

/-- One side goes on alone where its first part has ended. -/
theorem bind_left {first : ExceptT ε (Program face) β} {next : β → ExceptT ε (Program face) α}
    {value : β} {after : σ} {right : Except ε α × τ}
    (ends : attempt serve first state = (.ok value, after))
    (later : Agree related (attempt serve (next value) after) right) :
    Agree related (attempt serve (first >>= next) state) right := by
  rw [attempt_bind_of_ok ends]
  exact later

theorem bind_right {first : ExceptT ε (Program other) β} {next : β → ExceptT ε (Program other) α}
    {value : β} {after : τ} {left : Except ε α × σ}
    (ends : attempt serveOther first stateOther = (.ok value, after))
    (later : Agree related left (attempt serveOther (next value) after)) :
    Agree related left (attempt serveOther (first >>= next) stateOther) := by
  rw [attempt_bind_of_ok ends]
  exact later

end Agree

end Program
end SaveTree
