import SaveTree.Proofs.Program.Ensures

namespace SaveTree
namespace Program

/-!
# Programs that run at the same time

Programs share a state.  Each of them may begin at any time, and whoever is given a
turn makes the next call of his program.  A history is all that has happened so far,
in whatever order; nothing is assumed of the order, and programs may be left in the
middle.

To reason about one program among others, one says what it relies on: how the others
may change the state between two of its calls.  In return it guarantees how its own
calls change the state.  If what each program guarantees is within what all others
rely on, then none of them notices that it is not alone.
-/

variable {face : Interface} {σ τ κ : Type} {α : κ → Type}

/-- A program that has begun, and what is left of it. -/
structure Job (face : Interface) (α : κ → Type) where
  kind : κ
  rest : Program face (α kind)

/-- What came of a program of some kind. -/
abbrev Outcome (α : κ → Type) := (kind : κ) × α kind

namespace Job

/-- A job that has ended. -/
def ended (outcome : Outcome α) : Job face α :=
  ⟨outcome.1, .done outcome.2⟩

theorem map_kind_ended (outcomes : List (Outcome α)) :
    (outcomes.map ended : List (Job face α)).map kind = outcomes.map Sigma.fst := by
  rw [List.map_map]
  rfl

end Job

/-- What is noted of a step: which job it is of. -/
inductive Mark where
  | began (index : Nat)
  | moved (index : Nat)
  deriving DecidableEq

/-- What may have happened: the log of all steps, the jobs in the order in which they
began, and the state they share. -/
inductive History (world : World face σ) (code : (kind : κ) → Program face (α kind)) (start : σ) :
    List Mark → List (Job face α) → σ → Prop where
  | nothing : History world code start [] [] start
  | begin {log : List Mark} {jobs : List (Job face α)} {state : σ} (kind : κ)
      (history : History world code start log jobs state) :
      History world code start (log ++ [.began jobs.length]) (jobs ++ [⟨kind, code kind⟩]) state
  | move {log : List Mark} {jobs : List (Job face α)} {state after : σ} {index : Nat} {kind : κ}
      {request : face.Call} {next : face.Reply request → Program face (α kind)}
      {reply : face.Reply request} (history : History world code start log jobs state)
      (here : jobs[index]? = some ⟨kind, .call request next⟩)
      (turn : world.turn state request reply after) :
      History world code start (log ++ [.moved index]) (jobs.set index ⟨kind, next reply⟩) after

variable {world : World face σ} {code : (kind : κ) → Program face (α kind)} {start state after : σ}
  {log : List Mark} {jobs : List (Job face α)}

/-- A move leaves the kinds of the jobs as they are. -/
theorem map_kind_set {index : Nat} {kind : κ} {rest later : Program face (α kind)}
    (here : jobs[index]? = some ⟨kind, rest⟩) :
    (jobs.set index ⟨kind, later⟩).map Job.kind = jobs.map Job.kind := by
  apply List.ext_getElem?
  intro other
  rw [List.map_set, List.getElem?_set]
  by_cases same : index = other
  · subst same
    have inside : index < (jobs.map Job.kind).length := by
      rw [List.length_map]
      exact (List.getElem?_eq_some_iff.mp here).1
    rw [if_pos rfl, if_pos inside, List.getElem?_map, here]
    rfl
  · rw [if_neg same]

/-- A history seen through something that the state determines. -/
theorem History.project {seen : World face τ} {view : σ → τ}
    (history : History world code start log jobs state)
    (turns : ∀ {before request reply after}, world.turn before request reply after →
      seen.turn (view before) request reply (view after)) :
    History seen code (view start) log jobs (view state) := by
  induction history with
  | nothing => exact .nothing
  | begin kind _ ih => exact ih.begin kind
  | move _ here turn ih => exact ih.move here (turns turn)

/-! ## Before and after -/

/-- All that the first job has ever done was done before the second one began. -/
def Precedes (log : List Mark) (first second : Nat) : Prop :=
  ∃ early late, log = early ++ .began second :: late ∧ .began first ∈ early ∧ .moved first ∉ late

/-- With a further step nothing precedes a job that did not precede it before, unless
the job begins with that step. -/
theorem precedes_of_concat {mark : Mark} {first second : Nat}
    (precedes : Precedes (log ++ [mark]) first second) :
    mark = .began second ∨ Precedes log first second ∧ mark ≠ .moved first := by
  rcases precedes with ⟨early, late, whole, begun, resting⟩
  rcases List.eq_nil_or_concat late with rfl | ⟨shorter, last, rfl⟩
  · exact .inl (List.cons.inj (List.append_inj' whole rfl).2).1
  · rw [List.concat_eq_append] at whole resting
    rw [← List.cons_append, ← List.append_assoc] at whole
    rcases List.append_inj' whole rfl with ⟨log_eq, last_eq⟩
    cases last_eq
    refine .inr ⟨⟨early, shorter, log_eq, begun, ?_⟩, ?_⟩
    · exact fun moved => resting (List.mem_append_left _ moved)
    · rintro rfl
      exact resting (List.mem_append_right _ List.mem_cons_self)

/-- Only jobs that have begun are in the log. -/
theorem History.lt_of_began (history : History world code start log jobs state) {index : Nat}
    (begun : .began index ∈ log) : index < jobs.length := by
  induction history with
  | nothing => cases begun
  | begin kind _ ih =>
    rw [List.length_append, List.length_singleton]
    rcases List.mem_append.mp begun with old | new
    · exact Nat.lt_succ_of_lt (ih old)
    · cases List.mem_singleton.mp new
      exact Nat.lt_succ_self _
  | move _ _ _ ih =>
    rw [List.length_set]
    rcases List.mem_append.mp begun with old | new
    · exact ih old
    · cases List.mem_singleton.mp new

theorem History.lt_of_precedes (history : History world code start log jobs state) {first second : Nat}
    (precedes : Precedes log first second) : first < jobs.length := by
  rcases precedes with ⟨early, late, rfl, begun, _⟩
  exact history.lt_of_began (List.mem_append_left _ begun)

/-! ## One after the other -/

/-- The programs are run one after the other, each to its end. -/
inductive InTurn (world : World face σ) (code : (kind : κ) → Program face (α kind)) :
    List (Outcome α) → σ → σ → Prop where
  | none (state : σ) : InTurn world code [] state state
  | next {kind : κ} {value : α kind} {rest : List (Outcome α)} {before between after : σ}
      (runs : Runs world (code kind) before value between)
      (later : InTurn world code rest between after) :
      InTurn world code (⟨kind, value⟩ :: rest) before after

/-- Where every call may turn out in some way, programs can be run in any order. -/
theorem InTurn.exists_of_total
    (total : ∀ state request, ∃ reply after, world.turn state request reply after)
    (code : (kind : κ) → Program face (α kind)) (kinds : List κ) (state : σ) :
    ∃ (outcomes : List (Outcome α)) (after : σ),
      outcomes.map Sigma.fst = kinds ∧ InTurn world code outcomes state after := by
  induction kinds generalizing state with
  | nil => exact ⟨[], state, rfl, .none state⟩
  | cons kind rest ih =>
    rcases exists_runs total (code kind) state with ⟨value, between, runs⟩
    rcases ih between with ⟨outcomes, after, kinds_eq, later⟩
    exact ⟨⟨kind, value⟩ :: outcomes, after, congrArg (kind :: ·) kinds_eq, .next runs later⟩

/-- A job that is left alone runs to its end. -/
theorem History.run_job {index : Nat} {kind : κ} {rest : Program face (α kind)} {value : α kind}
    (runs : Runs world rest state value after) (history : History world code start log jobs state)
    (here : jobs[index]? = some ⟨kind, rest⟩) :
    ∃ longer, History world code start longer (jobs.set index ⟨kind, .done value⟩) after := by
  rcases List.getElem?_eq_some_iff.mp here with ⟨inside, standing⟩
  induction runs generalizing log jobs with
  | done value state =>
    rw [← standing, List.set_getElem_self]
    exact ⟨log, history⟩
  | @call request next reply before between after value turn rest ih =>
    have stands : (jobs.set index ⟨kind, next reply⟩)[index]? = some ⟨kind, next reply⟩ :=
      List.getElem?_set_self inside
    rcases List.getElem?_eq_some_iff.mp stands with ⟨stillInside, same⟩
    rcases ih (history.move here turn) stands stillInside same with ⟨longer, ends⟩
    rw [List.set_set] at ends
    exact ⟨longer, ends⟩

/-- Programs that are run one after the other make a history. -/
theorem InTurn.history {outcomes : List (Outcome α)} (turns : InTurn world code outcomes state after)
    (history : History world code start log jobs state) :
    ∃ longer, History world code start longer (jobs ++ outcomes.map Job.ended) after := by
  induction turns generalizing log jobs with
  | none state => exact ⟨log, by rwa [List.map_nil, List.append_nil]⟩
  | @next kind value rest before between after runs _ ih =>
    have here : (jobs ++ [⟨kind, code kind⟩])[jobs.length]? = some ⟨kind, code kind⟩ :=
      List.getElem?_concat_length
    rcases (history.begin kind).run_job runs here with ⟨longer, ends⟩
    rw [List.set_append_right _ _ (Nat.le_refl _), Nat.sub_self] at ends
    rcases ih ends with ⟨longest, all⟩
    exact ⟨longest, by simpa [Job.ended] using all⟩

/-! ## Programs that are not disturbed -/

/-- What programs of each kind rely on, what they guarantee in return, and what holds
of their values from their ends on. -/
structure Discipline (σ : Type) (α : κ → Type) where
  rely : κ → σ → σ → Prop
  guarantee : κ → σ → σ → Prop
  post : (kind : κ) → α kind → σ → Prop
  refl : ∀ kind state, rely kind state state
  trans : ∀ {kind before between after}, rely kind before between → rely kind between after →
    rely kind before after

/-- The program keeps the discipline of its kind from a state on, however its calls
turn out and whatever happens in between that it relies on. -/
inductive Secure (world : World face σ) (discipline : Discipline σ α) (kind : κ) :
    Program face (α kind) → σ → Prop where
  | done {value : α kind} {state : σ}
      (holds : ∀ {later}, discipline.rely kind state later → discipline.post kind value later) :
      Secure world discipline kind (.done value) state
  | call {request : face.Call} {next : face.Reply request → Program face (α kind)} {state : σ}
      (guarantees : ∀ {before reply after}, discipline.rely kind state before →
        world.turn before request reply after → discipline.guarantee kind before after)
      (secures : ∀ {before reply after}, discipline.rely kind state before →
        world.turn before request reply after → Secure world discipline kind (next reply) after) :
      Secure world discipline kind (.call request next) state

variable {discipline : Discipline σ α} {kind : κ}

/-- What a program relies on does not disturb it. -/
theorem Secure.of_rely {rest : Program face (α kind)} (secure : Secure world discipline kind rest state)
    (change : discipline.rely kind state after) : Secure world discipline kind rest after := by
  cases secure with
  | done holds => exact .done fun later => holds (discipline.trans change later)
  | call guarantees secures =>
    exact .call (fun later => guarantees (discipline.trans change later))
      fun later => secures (discipline.trans change later)

theorem Secure.post_of_done {value : α kind}
    (secure : Secure world discipline kind (.done value) state) : discipline.post kind value state := by
  cases secure with
  | done holds => exact holds (discipline.refl kind state)

/-- What a program of one kind guarantees is within what one of the other relies on. -/
def Discipline.Tolerates (discipline : Discipline σ α) (kind other : κ) : Prop :=
  ∀ before after, discipline.guarantee other before after → discipline.rely kind before after

/-- Neither of two kinds disturbs the other. -/
def Discipline.Compatible (discipline : Discipline σ α) (kind other : κ) : Prop :=
  discipline.Tolerates kind other ∧ discipline.Tolerates other kind

/-- Different jobs of compatible kinds tolerate each other. -/
theorem tolerates_of_compatible {first second : Nat} {job other : Job face α}
    (compatible : (jobs.map Job.kind).Pairwise discipline.Compatible) (different : first ≠ second)
    (here : jobs[first]? = some job) (there : jobs[second]? = some other) :
    discipline.Tolerates job.kind other.kind := by
  rcases List.getElem?_eq_some_iff.mp here with ⟨inside, rfl⟩
  rcases List.getElem?_eq_some_iff.mp there with ⟨alsoInside, rfl⟩
  have pairs := List.pairwise_iff_getElem.mp (List.pairwise_map.mp compatible)
  rcases Nat.lt_or_gt_of_ne different with before | behind
  · exact (pairs first second inside alsoInside before).1
  · exact (pairs second first alsoInside inside behind).2

/-- All jobs keep their discipline, and so would any other that tolerates them. -/
structure Undisturbed (world : World face σ) (discipline : Discipline σ α)
    (code : (kind : κ) → Program face (α kind)) (jobs : List (Job face α)) (state : σ) : Prop where
  begun : ∀ job ∈ jobs, Secure world discipline job.kind job.rest state
  others : ∀ kind, (∀ other ∈ jobs.map Job.kind, discipline.Tolerates kind other) →
    Secure world discipline kind (code kind) state

/-- A move of a job that keeps its discipline disturbs nobody. -/
theorem Undisturbed.move {index : Nat} {request : face.Call}
    {next : face.Reply request → Program face (α kind)} {reply : face.Reply request}
    (undisturbed : Undisturbed world discipline code jobs state)
    (compatible : (jobs.map Job.kind).Pairwise discipline.Compatible)
    (here : jobs[index]? = some ⟨kind, .call request next⟩)
    (turn : world.turn state request reply after) :
    Undisturbed world discipline code (jobs.set index ⟨kind, next reply⟩) after ∧
      discipline.guarantee kind state after := by
  have secure : Secure world discipline kind (.call request next) state :=
    undisturbed.begun _ (List.mem_of_getElem? here)
  cases secure with
  | call guarantees secures =>
    have change := guarantees (discipline.refl kind state) turn
    refine ⟨⟨?_, ?_⟩, change⟩
    · intro job member
      rcases List.mem_iff_getElem?.mp member with ⟨position, found⟩
      by_cases same : index = position
      · subst same
        rw [List.getElem?_set_self (List.getElem?_eq_some_iff.mp here).1] at found
        cases found
        exact secures (discipline.refl kind state) turn
      · rw [List.getElem?_set_ne same] at found
        apply (undisturbed.begun job (List.mem_of_getElem? found)).of_rely
        exact tolerates_of_compatible compatible (Ne.symm same) found here state after change
    · intro other tolerates
      rw [map_kind_set here] at tolerates
      apply (undisturbed.others other tolerates).of_rely
      exact tolerates kind (List.mem_map.mpr ⟨_, List.mem_of_getElem? here, rfl⟩) state after change

/-- In a history of compatible programs nobody is disturbed, and what all of them
guarantee to keep is kept. -/
theorem History.undisturbed {kept : σ → Prop} (history : History world code start log jobs state)
    (secure : ∀ kind, Secure world discipline kind (code kind) start)
    (compatible : (jobs.map Job.kind).Pairwise discipline.Compatible) (begins : kept start)
    (keeps : ∀ kind ∈ jobs.map Job.kind, ∀ {before after}, discipline.guarantee kind before after →
      kept before → kept after) :
    Undisturbed world discipline code jobs state ∧ kept state := by
  induction history with
  | nothing => exact ⟨⟨fun _ member => absurd member List.not_mem_nil, fun kind _ => secure kind⟩, begins⟩
  | begin kind history ih =>
    rw [List.map_append] at compatible keeps
    rcases List.pairwise_append.mp compatible with ⟨early, _, across⟩
    rcases ih early fun other member => keeps other (List.mem_append_left _ member) with ⟨all, holds⟩
    refine ⟨⟨?_, ?_⟩, holds⟩
    · intro job member
      rcases List.mem_append.mp member with old | new
      · exact all.begun job old
      · cases List.mem_singleton.mp new
        exact all.others kind fun other inside => (across other inside kind List.mem_cons_self).2
    · intro other tolerates
      rw [List.map_append] at tolerates
      exact all.others other fun earlier inside => tolerates earlier (List.mem_append_left _ inside)
  | move history here turn ih =>
    rw [map_kind_set here] at compatible keeps
    rcases ih compatible keeps with ⟨all, holds⟩
    rcases all.move compatible here turn with ⟨still, change⟩
    exact ⟨still, keeps _ (List.mem_map.mpr ⟨_, List.mem_of_getElem? here, rfl⟩) change holds⟩

end Program
end SaveTree
