import SaveTree.Program

namespace SaveTree

/-!
# What a program ensures in a world

A server fixes one reply for every call.  A world is more liberal: it says which
replies a call may get and which states it may leave, so that a call can succeed
today and fail tomorrow.  It also says what a call may leave behind that is cut
short before it replies.

`Ensures` is the strongest thing to say of a program in such a world: some
property holds in all states that the program can pass, those of a cut call
included, and another one holds of its value and the state in which it ends.
Programs are put together by `bind`, and so is what they ensure.
-/

/-- How calls may turn out in states `σ`. -/
structure World (face : Interface) (σ : Type) where
  /-- The call may get this reply and leave this state. -/
  turn : σ → (call : face.Call) → face.Reply call → σ → Prop
  /-- The call may leave this state if it is cut short. -/
  torn : σ → face.Call → σ → Prop

namespace Program

variable {face : Interface} {σ α β : Type} {world : World face σ}

/-- A program that is run to its end. -/
inductive Runs (world : World face σ) : Program face α → σ → α → σ → Prop where
  | done (value : α) (state : σ) : Runs world (.done value) state value state
  | call {request : face.Call} {next : face.Reply request → Program face α}
      {reply : face.Reply request} {before between after : σ} {value : α}
      (turn : world.turn before request reply between)
      (rest : Runs world (next reply) between value after) :
      Runs world (.call request next) before value after

/-- A run of two programs in a row is a run of each. -/
theorem Runs.of_bind {program : Program face α} {next : α → Program face β} {before after : σ}
    {value : β} (runs : Runs world (program >>= next) before value after) :
    ∃ first between, Runs world program before first between ∧
      Runs world (next first) between value after := by
  induction program generalizing before with
  | done first => exact ⟨first, before, .done first before, runs⟩
  | call request resume ih =>
    cases runs with
    | call turn rest =>
      rcases ih _ rest with ⟨first, between, early, later⟩
      exact ⟨first, between, .call turn early, later⟩

/-- Where every call may turn out in some way, a program can be run. -/
theorem exists_runs (total : ∀ state request, ∃ reply after, world.turn state request reply after)
    (program : Program face α) (state : σ) : ∃ value after, Runs world program state value after := by
  induction program generalizing state with
  | done value => exact ⟨value, state, .done value state⟩
  | call request next ih =>
    rcases total state request with ⟨reply, between, turn⟩
    rcases ih reply between with ⟨value, after, rest⟩
    exact ⟨value, after, .call turn rest⟩

/-- A run seen through something that the state determines. -/
theorem Runs.project {τ : Type} {seen : World face τ} {view : σ → τ} {program : Program face α}
    {before after : σ} {value : α} (runs : Runs world program before value after)
    (turns : ∀ {before request reply after}, world.turn before request reply after →
      seen.turn (view before) request reply (view after)) :
    Runs seen program (view before) value (view after) := by
  induction runs with
  | done value state => exact .done value (view state)
  | call turn _ ih => exact .call (turns turn) ih

/-- The states that are left when a program is stopped: before it begins, in the
middle of a call, between two calls, or when it has ended. -/
inductive Passes (world : World face σ) : Program face α → σ → σ → Prop where
  | here (program : Program face α) (state : σ) : Passes world program state state
  | amid {request : face.Call} {next : face.Reply request → Program face α} {before after : σ}
      (torn : world.torn before request after) : Passes world (.call request next) before after
  | later {request : face.Call} {next : face.Reply request → Program face α}
      {reply : face.Reply request} {before between after : σ}
      (turn : world.turn before request reply between)
      (rest : Passes world (next reply) between after) :
      Passes world (.call request next) before after

/-- However the calls turn out, `kept` holds in all states on the way and `post`
holds of the value and the last state. -/
def Ensures (world : World face σ) (kept : σ → Prop) (post : α → σ → Prop) :
    Program face α → σ → Prop
  | .done value, state => kept state ∧ post value state
  | .call request next, state =>
    kept state ∧ (∀ after, world.torn state request after → kept after) ∧
      ∀ reply after, world.turn state request reply after →
        Ensures world kept post (next reply) after

namespace Ensures

variable {kept : σ → Prop} {post : α → σ → Prop} {program : Program face α} {state after : σ}

theorem kept_here (ensures : Ensures world kept post program state) : kept state := by
  cases program with
  | done value => exact ensures.1
  | call request next => exact ensures.1

/-- What is ensured holds at the end of every run. -/
theorem of_runs {value : α} (ensures : Ensures world kept post program state)
    (runs : Runs world program state value after) : kept after ∧ post value after := by
  induction runs with
  | done value state => exact ensures
  | call turn rest ih => exact ih (ensures.2.2 _ _ turn)

/-- What is kept holds wherever the program is stopped. -/
theorem of_passes (ensures : Ensures world kept post program state)
    (passes : Passes world program state after) : kept after := by
  induction passes with
  | here program state => exact ensures.kept_here
  | amid torn => exact ensures.2.1 _ torn
  | later turn rest ih => exact ih (ensures.2.2 _ _ turn)

theorem mono {weaker : σ → Prop} {result : α → σ → Prop}
    (ensures : Ensures world kept post program state) (weaken : ∀ state, kept state → weaker state)
    (imply : ∀ value state, kept state → post value state → result value state) :
    Ensures world weaker result program state := by
  induction program generalizing state with
  | done value => exact ⟨weaken state ensures.1, imply value state ensures.1 ensures.2⟩
  | call request next ih =>
    refine ⟨weaken state ensures.1, fun after torn => weaken after (ensures.2.1 after torn), ?_⟩
    intro reply after turn
    exact ih reply (ensures.2.2 reply after turn)

/-- A program followed by another one. -/
theorem bind {next : α → Program face β} {result : β → σ → Prop}
    (first : Ensures world kept (fun value state => Ensures world kept result (next value) state)
      program state) :
    Ensures world kept result (program >>= next) state := by
  induction program generalizing state with
  | done value => exact first.2
  | call request resume ih =>
    refine ⟨first.1, first.2.1, ?_⟩
    intro reply after turn
    exact ih reply (first.2.2 reply after turn)

end Ensures

end Program

end SaveTree
