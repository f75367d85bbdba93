import SaveTree.Proofs.Store.Sections

namespace SaveTree

/-!
# No update of a shared store is lost

Tasks make calls on one durable store, and their sections come in any order.  There is
an order of the calls in which they could have been served one after the other, with
the same replies and the same image at the end, and a call that had ended when another
one began comes first.

A call takes its place in that order when it ends.  Most take the last place.  But a
call that deletes may fail to commit when others have meanwhile deleted what it had
seen; one after the other it would have found nothing and could not fail.  It takes
the place that it would have taken when it looked.  It has changed nothing, so that
those behind it do not notice.
-/

namespace Durable

open Host Program

/-- A call that has ended, and its reply. -/
abbrev Completed := Outcome fun call : Store.Call => Except FsError call.Answer

namespace Completed

/-- The call and whether it succeeded. -/
def row (completed : Completed) : Store.Call × Bool :=
  (completed.1, completed.2.isOk)

/-- The call may get this reply when it is served alone. -/
inductive Answers (image : Catalog) : Completed → Prop where
  | served (call : Store.Call) : Answers image ⟨call, .ok (call.answer image)⟩
  | failed {call : Store.Call} (busy : concerns image call = true) (error : HostError) :
      Answers image ⟨call, .error (.host error)⟩

end Completed

/-- The image that calls leave, one after the other. -/
def left (calls : List Completed) (image : Catalog) : Catalog :=
  applied (calls.map Completed.row) image

/-- The calls may get their replies when they are served one after the other. -/
inductive Explained : Catalog → List Completed → Prop where
  | none (image : Catalog) : Explained image []
  | next {image : Catalog} {completed : Completed} {rest : List Completed}
      (answers : completed.Answers image) (later : Explained (left [completed] image) rest) :
      Explained image (completed :: rest)

variable {start image : Catalog} {log longer : List Mark} {index : Nat} {call : Store.Call}
  {completed : Completed} {early late : List Completed}

theorem left_append (early late : List Completed) (image : Catalog) :
    left (early ++ late) image = left late (left early image) := by
  simp only [left, applied, List.map_append, List.filter_append, List.foldl_append]

theorem left_of_failed (failed : completed.2.isOk = false) : left [completed] image = image := by
  simp only [left, applied, Completed.row, failed, List.map_cons, List.map_nil, List.filter_cons,
    Bool.false_eq_true, if_false, List.filter_nil, List.foldl_nil]

/-- A call that has failed might as well not have been made. -/
theorem left_insert (failed : completed.2.isOk = false) :
    left (early ++ completed :: late) image = left (early ++ late) image := by
  rw [left_append, left_append, ← List.singleton_append, left_append, left_of_failed failed]

theorem explained_append (first : Explained image early) (second : Explained (left early image) late) :
    Explained image (early ++ late) := by
  induction first with
  | none image => exact second
  | @next image completed rest answers _ ih =>
    rw [← List.singleton_append, left_append] at second
    exact .next answers (ih second)

/-- Calls that are explained are so in two parts. -/
theorem explained_of_append (both : Explained image (early ++ late)) :
    Explained image early ∧ Explained (left early image) late := by
  induction early generalizing image with
  | nil => exact ⟨.none image, both⟩
  | cons completed rest ih =>
    cases both with
    | next answers later =>
      rcases ih later with ⟨first, second⟩
      rw [← List.singleton_append, left_append]
      exact ⟨.next answers first, second⟩

/-! ## The order of the calls -/

/-- What a job of some call still has to do, and what its place in the order is, or
will be if it fails. -/
inductive Stage (start : Catalog) (log : List Mark) (order : List (Nat × Completed)) (index : Nat)
    (call : Store.Call) : Program sections (Except FsError call.Answer) → Prop where
  | asking : Stage start log order index call (.call .look (settle call))
  | waiting {front back : List (Nat × Completed)} (split : order = front ++ back)
      (busy : concerns (left (front.map Prod.snd) start) call = true)
      (behind : ∀ entry ∈ back, ¬ Precedes log entry.1 index) :
      Stage start log order index call (transaction call)
  | ended {reply : Except FsError call.Answer} (placed : (index, ⟨call, reply⟩) ∈ order) :
      Stage start log order index call (.done reply)

/-- The calls that have ended, in an order in which they could have been served one
after the other. -/
structure Ordered (start : Catalog) (log : List Mark)
    (jobs : List (Job sections fun call : Store.Call => Except FsError call.Answer))
    (order : List (Nat × Completed)) : Prop where
  distinct : (order.map Prod.fst).Nodup
  ended : ∀ entry ∈ order, jobs[entry.1]? = some (.ended entry.2)
  respects : order.Pairwise fun earlier later => ¬ Precedes log later.1 earlier.1
  explained : Explained start (order.map Prod.snd)
  stages : ∀ {index job}, jobs[index]? = some job → Stage start log order index job.kind job.rest

variable {front back order : List (Nat × Completed)}
  {jobs changed : List (Job sections fun call : Store.Call => Except FsError call.Answer)}

/-- A call that takes a place among those that have ended changes nothing for a job
that it does not precede. -/
theorem Stage.insert {rest : Program sections (Except FsError call.Answer)} {entry : Nat × Completed}
    (stage : Stage start log (front ++ back) index call rest)
    (idle : back = [] ∨ entry.2.2.isOk = false) (not_precedes : ¬ Precedes log entry.1 index) :
    Stage start log (front ++ entry :: back) index call rest := by
  cases stage with
  | asking => exact .asking
  | ended placed =>
    apply Stage.ended
    rcases List.mem_append.mp placed with before | behind
    · exact List.mem_append_left _ before
    · exact List.mem_append_right _ (.tail _ behind)
  | @waiting upper lower split busy behind =>
    -- the place of the job is above the new entry or below it
    rcases List.append_eq_append_iff.mp split with ⟨middle, rfl, rfl⟩ | ⟨middle, rfl, rfl⟩
    · rcases idle with last | failed
      · rcases List.append_eq_nil_iff.mp last with ⟨rfl, rfl⟩
        rw [List.append_nil] at busy
        apply Stage.waiting rfl busy
        intro other member
        cases List.mem_singleton.mp member
        exact not_precedes
      · have around : front ++ entry :: (middle ++ lower) = (front ++ entry :: middle) ++ lower := by
          rw [List.append_assoc, List.cons_append]
        apply Stage.waiting around _ behind
        rw [List.map_append, List.map_cons, left_insert failed, ← List.map_append]
        exact busy
    · refine .waiting (List.append_assoc _ _ _) busy ?_
      intro other member
      rcases List.mem_append.mp member with inside | here
      · exact behind other (List.mem_append_left _ inside)
      · rcases List.mem_cons.mp here with rfl | beyond
        · exact not_precedes
        · exact behind other (List.mem_append_right _ beyond)

theorem Stage.keep {rest : Program sections (Except FsError call.Answer)}
    (stage : Stage start log order index call rest)
    (keeps : ∀ {first}, Precedes longer first index → Precedes log first index) :
    Stage start longer order index call rest := by
  cases stage with
  | asking => exact .asking
  | waiting split busy behind =>
    exact .waiting split busy fun entry member precedes => behind entry member (keeps precedes)
  | ended placed => exact .ended placed

/-- A further step, by which nothing comes to precede a job of the list. -/
theorem Ordered.keep (ordered : Ordered start log jobs order)
    (keeps : ∀ {first second}, second < jobs.length → Precedes longer first second →
      Precedes log first second) : Ordered start longer jobs order where
  distinct := ordered.distinct
  ended := ordered.ended
  explained := ordered.explained
  respects := by
    refine ordered.respects.imp_of_mem ?_
    intro earlier later member _ respects precedes
    have inside := (List.getElem?_eq_some_iff.mp (ordered.ended earlier member)).1
    exact respects (keeps inside precedes)
  stages := by
    intro index job here
    have inside := (List.getElem?_eq_some_iff.mp here).1
    exact (ordered.stages here).keep fun precedes => keeps inside precedes

/-- A job that has not ended goes on, or begins. -/
theorem Ordered.replace {job : Job sections fun call : Store.Call => Except FsError call.Answer}
    (ordered : Ordered start log jobs order) (absent : index ∉ order.map Prod.fst)
    (here : changed[index]? = some job) (others : ∀ {other}, other ≠ index → changed[other]? = jobs[other]?)
    (stage : Stage start log order index job.kind job.rest) : Ordered start log changed order where
  distinct := ordered.distinct
  explained := ordered.explained
  respects := ordered.respects
  ended := by
    intro entry member
    have different : entry.1 ≠ index := fun same =>
      absent (same ▸ List.mem_map.mpr ⟨entry, member, rfl⟩)
    rw [others different]
    exact ordered.ended entry member
  stages := by
    intro other found there
    by_cases same : other = index
    · subst same
      cases here.symm.trans there
      exact stage
    · rw [others same] at there
      exact ordered.stages there

/-- A job ends and takes its place: the last one, or any place if it has failed. -/
theorem Ordered.insert (ordered : Ordered start log jobs (front ++ back))
    (absent : index ∉ (front ++ back).map Prod.fst) (here : changed[index]? = some (.ended completed))
    (others : ∀ {other}, other ≠ index → changed[other]? = jobs[other]?)
    (answers : completed.Answers (left (front.map Prod.snd) start))
    (idle : back = [] ∨ completed.2.isOk = false)
    (unfinished : ∀ {other}, other ≠ index → ¬ Precedes log index other)
    (behind : ∀ entry ∈ back, ¬ Precedes log entry.1 index) :
    Ordered start log changed (front ++ (index, completed) :: back) where
  distinct := by
    rw [(List.perm_middle.map Prod.fst).nodup_iff]
    exact List.nodup_cons.mpr ⟨absent, ordered.distinct⟩
  ended := by
    intro entry member
    rcases List.mem_cons.mp (List.perm_middle.mem_iff.mp member) with rfl | old
    · exact here
    · have different : entry.1 ≠ index := fun same =>
        absent (same ▸ List.mem_map.mpr ⟨entry, old, rfl⟩)
      rw [others different]
      exact ordered.ended entry old
  respects := by
    have different : ∀ entry ∈ front ++ back, entry.1 ≠ index := fun entry member same =>
      absent (same ▸ List.mem_map.mpr ⟨entry, member, rfl⟩)
    rcases List.pairwise_append.mp ordered.respects with ⟨before, after, across⟩
    refine List.pairwise_append.mpr ⟨before, .cons behind after, ?_⟩
    intro earlier member later inside
    rcases List.mem_cons.mp inside with rfl | beyond
    · exact unfinished (different earlier (List.mem_append_left _ member))
    · exact across earlier member later beyond
  explained := by
    have whole := ordered.explained
    rw [List.map_append] at whole ⊢
    rcases explained_of_append whole with ⟨first, second⟩
    refine explained_append first (.next answers ?_)
    rcases idle with rfl | failed
    · exact .none _
    · rw [left_of_failed failed]
      exact second
  stages := by
    intro other job there
    by_cases same : other = index
    · subst same
      cases here.symm.trans there
      exact .ended (List.mem_append_right _ List.mem_cons_self)
    · rw [others same] at there
      exact (ordered.stages there).insert idle (unfinished same)

/-- A job that knows the image ends at once, or waits for its transaction. -/
theorem Ordered.informed (ordered : Ordered start log jobs order)
    (absent : index ∉ order.map Prod.fst)
    (here : changed[index]? = some ⟨call, settle call (left (order.map Prod.snd) start)⟩)
    (others : ∀ {other}, other ≠ index → changed[other]? = jobs[other]?)
    (unfinished : ∀ {other}, other ≠ index → ¬ Precedes log index other) :
    ∃ placed, Ordered start log changed placed ∧
      left (placed.map Prod.snd) start = left (order.map Prod.snd) start := by
  cases concern : concerns (left (order.map Prod.snd) start) call with
  | true =>
    rw [settle_of_concerns concern] at here
    refine ⟨order, ordered.replace absent here others (.waiting (List.append_nil order).symm concern ?_), rfl⟩
    exact fun _ member => absurd member List.not_mem_nil
  | false =>
    rw [settle_of_not_concerns concern] at here
    have ends : changed[index]? =
        some (.ended ⟨call, .ok (call.answer (left (order.map Prod.snd) start))⟩) := here
    rw [← List.append_nil order] at ordered absent
    refine ⟨_, ordered.insert absent ends others (.served call) (.inl rfl) unfinished
      (fun _ member => absurd member List.not_mem_nil), ?_⟩
    rw [List.map_append, left_append]
    exact effect_eq_self concern

/-- A job that has something left to do has no place yet. -/
theorem Ordered.absent {request : Section}
    {next : request.Reply → Program sections (Except FsError call.Answer)}
    (ordered : Ordered start log jobs order) (here : jobs[index]? = some ⟨call, .call request next⟩) :
    index ∉ order.map Prod.fst := by
  intro member
  rcases List.mem_map.mp member with ⟨⟨_, ⟨other, reply⟩⟩, placed, rfl⟩
  cases here.symm.trans (ordered.ended _ placed)

/-- A call begins. -/
theorem Ordered.begin (ordered : Ordered start log jobs order)
    (begun : ∀ {first second}, Precedes log first second → first < jobs.length) (call : Store.Call) :
    ∃ placed, Ordered start (log ++ [.began jobs.length]) (jobs ++ [⟨call, inSections call⟩]) placed ∧
      left (placed.map Prod.snd) start = left (order.map Prod.snd) start := by
  have here : (jobs ++ [⟨call, inSections call⟩])[jobs.length]? = some ⟨call, inSections call⟩ :=
    List.getElem?_concat_length
  have others : ∀ {other}, other ≠ jobs.length →
      (jobs ++ [⟨call, inSections call⟩])[other]? = jobs[other]? := by
    intro other different
    rcases Nat.lt_or_gt_of_ne different with inside | beyond
    · exact List.getElem?_append_left inside
    · rw [List.getElem?_eq_none (by rw [List.length_append]; exact beyond),
        List.getElem?_eq_none (Nat.le_of_lt beyond)]
  have keeps : ∀ {first second}, second ≠ jobs.length →
      Precedes (log ++ [.began jobs.length]) first second → Precedes log first second := by
    intro first second different precedes
    rcases precedes_of_concat precedes with same | ⟨before, _⟩
    · cases same
      exact absurd rfl different
    · exact before
  have absent : jobs.length ∉ order.map Prod.fst := by
    intro member
    rcases List.mem_map.mp member with ⟨entry, placed, same⟩
    have inside := (List.getElem?_eq_some_iff.mp (ordered.ended entry placed)).1
    exact absurd same (Nat.ne_of_lt inside)
  have longer := ordered.keep fun inside precedes => keeps (Nat.ne_of_lt inside) precedes
  cases asking : asks call with
  | true =>
    have unfolds : inSections call = .call .look (settle call) := if_pos asking
    refine ⟨order, longer.replace absent here others ?_, rfl⟩
    rw [unfolds]
    exact .asking
  | false =>
    have unfolds : inSections call = settle call (left (order.map Prod.snd) start) := by
      rw [inSections, asking, if_neg Bool.false_ne_true]
      exact settle_eq asking
    rw [unfolds] at here others ⊢
    apply longer.informed absent here others
    intro other different precedes
    exact absurd (begun (keeps different precedes)) (Nat.lt_irrefl _)

/-- A job that has begun enters a section. -/
theorem Ordered.move {request : Section} {reply : request.Reply}
    {next : request.Reply → Program sections (Except FsError call.Answer)}
    (ordered : Ordered start log jobs order) (here : jobs[index]? = some ⟨call, .call request next⟩)
    (turn : Entered (left (order.map Prod.snd) start) request reply image) :
    ∃ placed, Ordered start (log ++ [.moved index]) (jobs.set index ⟨call, next reply⟩) placed ∧
      left (placed.map Prod.snd) start = image := by
  have absent := ordered.absent here
  have after : (jobs.set index ⟨call, next reply⟩)[index]? = some ⟨call, next reply⟩ :=
    List.getElem?_set_self (List.getElem?_eq_some_iff.mp here).1
  have others : ∀ {other}, other ≠ index → (jobs.set index ⟨call, next reply⟩)[other]? = jobs[other]? :=
    fun different => List.getElem?_set_ne (Ne.symm different)
  have keeps : ∀ {first second}, Precedes (log ++ [.moved index]) first second →
      Precedes log first second ∧ first ≠ index := by
    intro first second precedes
    rcases precedes_of_concat precedes with same | ⟨before, notLast⟩
    · cases same
    · exact ⟨before, fun same => notLast (congrArg Mark.moved same.symm)⟩
  have unfinished : ∀ {other}, other ≠ index → ¬ Precedes (log ++ [.moved index]) index other :=
    fun _ precedes => (keeps precedes).2 rfl
  have longer := ordered.keep fun _ precedes => (keeps precedes).1
  have stage : Stage start log order index call (.call request next) := ordered.stages here
  cases stage with
  | asking =>
    cases turn
    exact longer.informed absent after others unfinished
  | @waiting front back split busy behind =>
    cases turn with
    | committed =>
      have ends : (jobs.set index _)[index]? = some (.ended ⟨call, .ok (call.answer .empty)⟩) := after
      have answers : Completed.Answers (left (order.map Prod.snd) start)
          ⟨call, .ok (call.answer .empty)⟩ := by
        rw [answer_of_changes (changes_of_concerns busy)]
        exact .served call
      rw [← List.append_nil order] at longer absent
      refine ⟨_, longer.insert absent ends others answers (.inl rfl) unfinished
        (fun _ member => absurd member List.not_mem_nil), ?_⟩
      rw [List.map_append, left_append]
      rfl
    | failed change error =>
      have ends : (jobs.set index _)[index]? = some (.ended ⟨call, .error (.host error)⟩) := after
      subst split
      refine ⟨_, longer.insert absent ends others (.failed busy error) (.inr rfl) unfinished
        (fun entry member precedes => behind entry member (keeps precedes).1), ?_⟩
      rw [List.map_append, List.map_cons, left_insert rfl, List.map_append]

/-- In whatever order the sections come, the calls have an order. -/
theorem exists_ordered (history : History images inSections start log jobs image) :
    ∃ order, Ordered start log jobs order ∧ left (order.map Prod.snd) start = image := by
  induction history with
  | nothing =>
    refine ⟨[], ⟨.nil, ?_, .nil, .none start, ?_⟩, rfl⟩
    · exact fun _ member => absurd member List.not_mem_nil
    · intro index job here
      cases here
  | begin call history ih =>
    rcases ih with ⟨order, ordered, rfl⟩
    exact ordered.begin history.lt_of_precedes call
  | move _ here turn ih =>
    rcases ih with ⟨order, ordered, rfl⟩
    exact ordered.move here turn

/-! ## Calls one after the other -/

/-- A store that is used by one task at a time, on a host of which nothing is known. -/
def alone : World Store.calls Durable where
  turn := fun before call reply after =>
    Runs Host.unknown ((serve call).run before) () (reply, after) ()
  torn := fun _ _ _ => False

/-- A reply that is possible is given, if the host replies accordingly. -/
theorem Completed.Answers.turn {document : String} (answers : completed.Answers image) :
    alone.turn ⟨document, image⟩ completed.1 completed.2 ⟨document, left [completed] image⟩ := by
  cases answers with
  | served call =>
    cases concern : concerns image call with
    | true =>
      show Runs Host.unknown ((serve call).run ⟨document, image⟩) () _ ()
      rw [serve_run_of_concerns concern]
      exact .call (show Host.unknown.turn () (.write _ _) (.ok ()) () from trivial)
        (.call (show Host.unknown.turn () (.rename _ _) (.ok ()) () from trivial) (.done _ _))
    | false =>
      have unchanged : left [⟨call, .ok (call.answer image)⟩] image = image := effect_eq_self concern
      show Runs Host.unknown ((serve call).run ⟨document, image⟩) () _ ()
      rw [serve_run_of_not_concerns concern, unchanged]
      exact .done _ _
  | failed busy error =>
    show Runs Host.unknown ((serve _).run ⟨document, image⟩) () _ ()
    rw [serve_run_of_concerns busy]
    exact .call (show Host.unknown.turn () (.write _ _) (.error error) () from trivial) (.done _ _)

/-- Calls that are explained can be served one after the other. -/
theorem Explained.inTurn {calls : List Completed} (explained : Explained image calls) (document : String) :
    InTurn alone (@Program.request Store.calls) calls ⟨document, image⟩ ⟨document, left calls image⟩ := by
  induction explained with
  | none image => exact .none _
  | @next image completed rest answers _ ih =>
    rw [← List.singleton_append, left_append]
    exact .next (.call answers.turn (.done _ _)) ih

/-- Tasks share a store that was opened where a walk can begin, on a machine on which
any commit may fail.  They make calls in sections, which would be the calls of the
store if nobody came between.  Whatever has happened so far, opening the store again
finds its image.  The calls that have ended can be put in an order in which a call that
had ended when another one began comes before it; served one after the other in that
order they get the same replies and leave the same image, which is the first one with
the calls that succeeded. -/
theorem shared_calls_linearize {document : String} {machine opened final : Machine}
    {store current : Durable}
    (begins : machine.disk.kind? (machine.start document) = some .directory)
    (opens : machine.run (openAt document).run = (.ok store, opened))
    (history : History shared inSections (store, opened) log jobs (current, final)) :
    (∀ call, (inSections call).run enter = serve call) ∧
    Reopens document final current.image ∧
    ∃ order : List (Nat × Completed),
      (order.map Prod.fst).Nodup ∧
      (∀ index completed, (index, completed) ∈ order ↔ jobs[index]? = some (.ended completed)) ∧
      order.Pairwise (fun earlier later => ¬ Precedes log later.1 earlier.1) ∧
      InTurn alone (@Program.request Store.calls) (order.map Prod.snd) store current ∧
      current.image = applied (order.map fun entry => entry.2.row) store.image := by
  rcases reopens_of_openAt begins opens with ⟨rfl, site, found⟩
  have begun : Kept store.document (store, opened) := ⟨rfl, site, found⟩
  rcases history_kept history begun with ⟨kept, inImages⟩
  rcases exists_ordered inImages with ⟨order, ordered, image_eq⟩
  refine ⟨run_inSections, kept.reopens, order, ordered.distinct, ?_, ordered.respects, ?_, ?_⟩
  · intro index completed
    constructor
    · exact ordered.ended (index, completed)
    · intro here
      have stage : Stage _ log order index completed.1 (.done completed.2) := ordered.stages here
      cases stage with
      | ended placed => exact placed
  · have served := ordered.explained.inTurn store.document
    rw [image_eq] at served
    cases current
    cases kept.document_eq
    exact served
  · rw [← image_eq, left, List.map_map]
    rfl

/-- Two tasks see a directory and delete it.  The second one to commit fails, when the
directory is gone already. -/
theorem shared_calls_linearize_after_failed_delete :
    ∃ (log : List Mark) (final : Machine) (image : Catalog) (order : List (Nat × Completed)),
      History shared inSections (⟨"saves", .empty⟩, ⟨.empty, []⟩) log
        [.ended ⟨.put ⟨"a", .directory⟩, .ok ()⟩, .ended ⟨.delete "a", .error (.host .busy)⟩,
          .ended ⟨.delete "a", .ok ()⟩] (⟨"saves", image⟩, final) ∧
      image.get? "a" = none ∧ Reopens "saves" final image ∧
      (1, ⟨.delete "a", .error (.host .busy)⟩) ∈ order ∧
      InTurn alone (@Program.request Store.calls) (order.map Prod.snd) ⟨"saves", .empty⟩
        ⟨"saves", image⟩ := by
  let image : Catalog := Catalog.put .empty ⟨"a", .directory⟩
  let emptied : Catalog := (Store.Call.delete "a").effect image
  let written : Machine := ⟨Disk.empty.putFile ["saves.tmp"] (Document.encode image), []⟩
  let renamed : Machine := ⟨written.disk.move ["saves.tmp"] ["saves"], []⟩
  let rewritten : Machine := ⟨renamed.disk.putFile ["saves.tmp"] (Document.encode emptied), []⟩
  let replaced : Machine := ⟨rewritten.disk.move ["saves.tmp"] ["saves"], []⟩
  have writes : Machine.faulty.turn ⟨.empty, []⟩ (.write (temporary "saves") (Document.encode image))
      (.ok ()) written := .served rfl
  have renames : Machine.faulty.turn written (.rename (temporary "saves") "saves") (.ok ()) renamed :=
    .served rfl
  have rewrites : Machine.faulty.turn renamed (.write (temporary "saves") (Document.encode emptied))
      (.ok ()) rewritten := .served rfl
  have replaces : Machine.faulty.turn rewritten (.rename (temporary "saves") "saves") (.ok ()) replaced :=
    .served rfl
  have puts : shared.turn (⟨"saves", .empty⟩, ⟨.empty, []⟩)
      (.transact (Store.Call.put ⟨"a", .directory⟩).effect) (.ok ()) (⟨"saves", image⟩, renamed) :=
    .call writes (.call renames (.done _ _))
  have looks : shared.turn (⟨"saves", image⟩, renamed) .look image (⟨"saves", image⟩, renamed) :=
    .done _ _
  have deletes : shared.turn (⟨"saves", image⟩, renamed) (.transact (Store.Call.delete "a").effect)
      (.ok ()) (⟨"saves", emptied⟩, replaced) :=
    .call rewrites (.call replaces (.done _ _))
  have fails : shared.turn (⟨"saves", emptied⟩, replaced) (.transact (Store.Call.delete "a").effect)
      (.error (.host .busy)) (⟨"saves", emptied⟩, replaced) :=
    .call (Machine.Turn.failed (.write (temporary "saves") _) .busy) (.done _ _)
  have stored : History shared inSections (⟨"saves", .empty⟩, ⟨.empty, []⟩) _ _ (⟨"saves", image⟩, renamed) :=
    (History.nothing.begin (.put ⟨"a", .directory⟩)).move (show _[0]? = _ from rfl) puts
  have seen := (stored.begin (.delete "a")).move (show _[1]? = _ from rfl) looks
  have seenTwice := (seen.begin (.delete "a")).move (show _[2]? = _ from rfl) looks
  have deleted := seenTwice.move (show _[2]? = _ from rfl) deletes
  have failed := deleted.move (show _[1]? = _ from rfl) fails
  have opens : Machine.run ⟨.empty, []⟩ (openAt "saves").run = (.ok ⟨"saves", .empty⟩, ⟨.empty, []⟩) := rfl
  rcases shared_calls_linearize rfl opens failed with
    ⟨_, reopens, order, _, ended, _, inTurn, _⟩
  exact ⟨_, replaced, emptied, order, failed, rfl, reopens, (ended _ _).mpr rfl, inTurn⟩

end Durable
end SaveTree
