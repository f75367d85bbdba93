namespace SaveTree

/-!
# Programs over calls

A program computes a value and may make calls on the way.  What a call does is
not part of the program: a server answers it, and the same program can be run by
servers that keep a table in memory, that act on a tree of files, or that fail
when they like.

Between two calls a program does nothing that others could see, so a call is the
unit in which programs interleave and break off.
-/

/-- The calls that can be made, and the type of each one's reply. -/
structure Interface where
  Call : Type
  Reply : Call → Type

/-- A computation that makes calls of an interface. -/
inductive Program (face : Interface) (α : Type) where
  | done (value : α)
  | call (request : face.Call) (next : face.Reply request → Program face α)

namespace Program

variable {face : Interface} {α β : Type}

/-- Runs a second program on the value of the first. -/
def bind : Program face α → (α → Program face β) → Program face β
  | done value, next => next value
  | call request resume, next => call request fun reply => (resume reply).bind next

instance : Monad (Program face) where
  pure := done
  bind := bind

/-- The program that makes one call. -/
def request (call : face.Call) : Program face (face.Reply call) :=
  .call call done

/-- Runs a program with a server that answers every call. -/
def run {m : Type → Type} [Monad m] (serve : (call : face.Call) → m (face.Reply call)) :
    Program face α → m α
  | done value => pure value
  | call request next => do
    let reply ← serve request
    (next reply).run serve

@[simp]
theorem run_done {m : Type → Type} [Monad m]
    (serve : (call : face.Call) → m (face.Reply call)) (value : α) :
    (done value : Program face α).run serve = pure value :=
  rfl

@[simp]
theorem run_call {m : Type → Type} [Monad m]
    (serve : (call : face.Call) → m (face.Reply call)) (request : face.Call)
    (next : face.Reply request → Program face α) :
    (call request next).run serve = serve request >>= fun reply => (next reply).run serve :=
  rfl

/-- Running one program after another is running their combination. -/
theorem run_bind {m : Type → Type} [Monad m] [LawfulMonad m]
    (serve : (call : face.Call) → m (face.Reply call))
    (program : Program face α) (next : α → Program face β) :
    (program >>= next).run serve =
      program.run serve >>= fun value => (next value).run serve := by
  induction program with
  | done value => exact (pure_bind value fun value => (next value).run serve).symm
  | call request resume ih =>
    rw [run_call, bind_assoc]
    refine bind_congr fun reply => ?_
    exact ih reply

/-- A program that passes its value on unchanged. -/
theorem bind_done (program : Program face α) : program.bind done = program := by
  induction program with
  | done value => rfl
  | call request resume ih => exact congrArg (call request) (funext ih)

/-- It does not matter how three programs in a row are bracketed. -/
theorem bind_bind {γ : Type} (program : Program face α) (first : α → Program face β)
    (second : β → Program face γ) :
    (program.bind first).bind second = program.bind fun value => (first value).bind second := by
  induction program with
  | done value => rfl
  | call request resume ih => exact congrArg (call request) (funext ih)

instance : LawfulMonad (Program face) :=
  LawfulMonad.mk' (Program face) bind_done (fun _ _ => rfl) bind_bind

end Program

end SaveTree
