import SaveTree.Proofs.Store.Session
import SaveTree.Proofs.Store.Site

namespace SaveTree

/-!
# Transactions of durable stores

A commit writes the new document beside the old one and renames it.  On a machine
whose calls may fail, and which may stop at any moment, the document is always
the old one or the new one: a write beside it is not seen, and a renaming is not
done by halves.  So whoever opens the store finds the image before or after the
call that was interrupted, and after every call the very image that is held in
memory.
-/

namespace Host
namespace Machine

variable {machine after : Machine} {path source target : String} {bytes : ByteArray}

/-- How a call turns out on a machine that can fail.  A call that fails changes
nothing, except that a write may leave any bytes in its file. -/
inductive Turn (machine : Machine) :
    (call : Call) → Except HostError call.Answer → Machine → Prop where
  | served {call : Call} {reply : Except HostError call.Answer} {after : Machine}
      (serves : (serve call).run machine = (reply, after)) : Turn machine call reply after
  | failed (call : Call) (error : HostError) : Turn machine call (.error error) machine
  | spoiled {path : String} {bytes junk : ByteArray} {after : Machine} (error : HostError)
      (written : machine.write path junk = .ok after) :
      Turn machine (.write path bytes) (.error error) after

/-- What a call leaves behind that is cut short.  A write may leave any bytes; all
other calls are done or not. -/
inductive Torn (machine : Machine) : Call → Machine → Prop where
  | untouched (call : Call) : Torn machine call machine
  | complete {call : Call} {reply : Except HostError call.Answer} {after : Machine}
      (serves : (serve call).run machine = (reply, after)) : Torn machine call after
  | partly {path : String} {bytes junk : ByteArray} {after : Machine}
      (written : machine.write path junk = .ok after) : Torn machine (.write path bytes) after

/-- Machines that can fail and stop. -/
def faulty : World Host.calls Machine where
  turn := Turn
  torn := Torn

theorem eq_of_change {result : Machine → Except HostError Machine} {reply : Except HostError Unit}
    (changes : (change result).run machine = (reply, after)) :
    (reply = .ok () ∧ result machine = .ok after) ∨ (∃ error, reply = .error error) ∧ after = machine := by
  rw [run_change] at changes
  cases made : result machine with
  | ok next =>
    rw [made] at changes
    cases changes
    exact .inl ⟨rfl, rfl⟩
  | error error =>
    rw [made] at changes
    cases changes
    exact .inr ⟨⟨error, rfl⟩, rfl⟩

/-- A write that succeeds has written its bytes.  One that fails has written
nothing, or something else to the same file. -/
theorem write_of_turn {reply : Except HostError Unit}
    (turn : faulty.turn machine (.write path bytes) reply after) :
    (reply = .ok () ∧ machine.write path bytes = .ok after) ∨
      (∃ error, reply = .error error) ∧
        (after = machine ∨ ∃ junk, machine.write path junk = .ok after) := by
  cases turn with
  | served serves =>
    rcases eq_of_change serves with done | ⟨failed, same⟩
    · exact .inl done
    · exact .inr ⟨failed, .inl same⟩
  | failed _ error => exact .inr ⟨⟨error, rfl⟩, .inl rfl⟩
  | spoiled error written => exact .inr ⟨⟨error, rfl⟩, .inr ⟨_, written⟩⟩

theorem write_of_torn (torn : faulty.torn machine (.write path bytes) after) :
    after = machine ∨ ∃ junk, machine.write path junk = .ok after := by
  cases torn with
  | untouched => exact .inl rfl
  | complete serves =>
    rcases eq_of_change serves with ⟨_, written⟩ | ⟨_, same⟩
    · exact .inr ⟨bytes, written⟩
    · exact .inl same
  | partly written => exact .inr ⟨_, written⟩

theorem rename_of_turn {reply : Except HostError Unit}
    (turn : faulty.turn machine (.rename source target) reply after) :
    (reply = .ok () ∧ machine.rename source target = .ok after) ∨
      (∃ error, reply = .error error) ∧ after = machine := by
  cases turn with
  | served serves => exact eq_of_change serves
  | failed _ error => exact .inr ⟨⟨error, rfl⟩, rfl⟩

theorem rename_of_torn (torn : faulty.torn machine (.rename source target) after) :
    after = machine ∨ machine.rename source target = .ok after := by
  cases torn with
  | untouched => exact .inl rfl
  | complete serves =>
    rcases eq_of_change serves with ⟨_, renamed⟩ | ⟨_, same⟩
    · exact .inr renamed
    · exact .inl same

end Machine
end Host

namespace Durable

open Host

variable {document : String} {machine after : Machine} {image next : Catalog} {store : Durable}

/-- Opening the store finds an image, and changes nothing. -/
def Reopens (document : String) (machine : Machine) (image : Catalog) : Prop :=
  ∃ found, machine.run (openAt document).run = (.ok ⟨document, found⟩, machine) ∧
    ∀ key, Table.get? found key = image.get? key

theorem Reopens.of_contents (reopens : Reopens document machine image)
    (site : Site document machine) (siteAfter : Site document after)
    (same : after.contents document = machine.contents document) : Reopens document after image := by
  rcases reopens with ⟨found, opens, agrees⟩
  refine ⟨found, ?_, agrees⟩
  rw [site.run_openAt_eq] at opens
  rw [siteAfter.run_openAt_eq, same, (Prod.mk.inj opens).1]

theorem reopens_of_encode (site : Site document machine)
    (holds : machine.contents document = .ok (Document.encode image)) :
    Reopens document machine image := by
  rcases Document.decode_encode document image with ⟨found, decoded, agrees⟩
  refine ⟨found, ?_, agrees⟩
  rw [site.run_openAt_eq, holds, outcome, decoded]
  rfl

/-- The machine is one that a commit may leave on its way from one image to the
next. -/
structure Between (document : String) (machine : Machine) (image next : Catalog)
    (passed : Machine) : Prop where
  site : Site document passed
  confined : Confined document machine passed
  reopens : Reopens document passed image ∨ Reopens document passed next

/-- Until the renaming is done the old image is found. -/
theorem between_of_write {bytes : ByteArray} (site : Site document machine)
    (reopens : Reopens document machine image)
    (written : machine.write (temporary document) bytes = .ok after) :
    Between document machine image next after ∧ Reopens document after image := by
  rcases site.of_write written with ⟨siteAfter, confined, same⟩
  have still := reopens.of_contents site siteAfter same
  exact ⟨⟨siteAfter, confined, .inl still⟩, still⟩

/-- From the renaming on the new image is found. -/
theorem between_of_rename {between : Machine} (site : Site document machine)
    (written : machine.write (temporary document) (Document.encode next) = .ok between)
    (renamed : between.rename (temporary document) document = .ok after) :
    Between document machine image next after ∧ Reopens document after next := by
  rcases site.of_write written with ⟨_, first, _⟩
  rcases site.of_rename written renamed with ⟨siteAfter, second, holds⟩
  have found := reopens_of_encode siteAfter holds
  exact ⟨⟨siteAfter, first.trans second, .inr found⟩, found⟩

theorem commit_ensures (site : Site document machine) (reopens : Reopens document machine image) :
    Program.Ensures Machine.faulty (Between document machine image next)
      (fun result final => Reopens document final (if result.isOk then next else image))
      (commit document next).run machine := by
  have start : Between document machine image next machine :=
    ⟨site, Confined.refl document machine, .inl reopens⟩
  refine ⟨start, ?_, ?_⟩
  · intro passed torn
    rcases Machine.write_of_torn torn with rfl | ⟨junk, written⟩
    · exact start
    · exact (between_of_write site reopens written).1
  · intro reply between turn
    rcases Machine.write_of_turn turn with ⟨rfl, written⟩ | ⟨⟨error, rfl⟩, rfl | ⟨junk, written⟩⟩
    · -- the new document is complete but not in its place: the old one still counts
      have middle : Between document machine image next between ∧ Reopens document between image :=
        between_of_write site reopens written
      refine ⟨middle.1, ?_, ?_⟩
      · intro passed torn
        rcases Machine.rename_of_torn torn with rfl | renamed
        · exact middle.1
        · exact (between_of_rename site written renamed).1
      · intro reply final turn
        rcases Machine.rename_of_turn turn with ⟨rfl, renamed⟩ | ⟨⟨error, rfl⟩, rfl⟩
        · exact between_of_rename site written renamed
        · exact middle
    · exact ⟨start, reopens⟩
    · exact between_of_write site reopens written

/-- A call is committed as a whole or fails as a whole, and memory and document
agree on it. -/
theorem serve_transacts (store : Durable) (site : Site store.document machine)
    (reopens : Reopens store.document machine store.image) (call : Store.Call) :
    Program.Ensures Machine.faulty
      (Between store.document machine store.image (call.effect store.image))
      (fun outcome final =>
        outcome.2 = { store with
          image := if outcome.1.isOk then call.effect store.image else store.image } ∧
        Reopens store.document final outcome.2.image)
      ((serve call).run store) machine := by
  cases concern : concerns store.image call with
  | true =>
    rw [serve_run_of_concerns concern]
    apply Program.Ensures.bind
    refine (commit_ensures site reopens).mono (fun _ between => between) ?_
    intro committed final between found
    cases committed with
    | ok => exact ⟨between, rfl, found⟩
    | error error => exact ⟨between, rfl, found⟩
  | false =>
    -- no host call is made, and the effect would be none
    rw [serve_run_of_not_concerns concern]
    refine ⟨⟨site, Confined.refl _ machine, .inl reopens⟩, ?_, reopens⟩
    dsimp only
    rw [effect_eq_self concern]
    rfl

/-! ## Stores in use -/

/-- A store in use from one machine to another: the calls it has answered, and
whether each of them succeeded. -/
inductive Served (store : Durable) (machine : Machine) :
    List (Store.Call × Bool) → Durable → Machine → Prop where
  | none : Served store machine [] store machine
  | call {calls : List (Store.Call × Bool)} {before after : Durable} {between final : Machine}
      {call : Store.Call} {reply : Except FsError call.Answer}
      (served : Served store machine calls before between)
      (runs : Program.Runs Machine.faulty ((serve call).run before) between (reply, after) final) :
      Served store machine (calls ++ [(call, reply.isOk)]) after final

/-- An image after the calls that succeeded. -/
def applied (calls : List (Store.Call × Bool)) (image : Catalog) : Catalog :=
  (calls.filter Prod.snd).foldl (fun image row => row.1.effect image) image

theorem applied_concat (calls : List (Store.Call × Bool)) (call : Store.Call) (succeeded : Bool)
    (image : Catalog) :
    applied (calls ++ [(call, succeeded)]) image =
      if succeeded then call.effect (applied calls image) else applied calls image := by
  cases succeeded <;> simp [applied, List.filter_append]

/-- A store and its document after all calls so far. -/
structure Synced (store : Durable) (machine : Machine) (calls : List (Store.Call × Bool))
    (current : Durable) (final : Machine) : Prop where
  site : Site store.document final
  confined : Confined store.document machine final
  current_eq : current = { store with image := applied calls store.image }
  reopens : Reopens store.document final current.image

theorem Served.synced {calls : List (Store.Call × Bool)} {current : Durable} {final : Machine}
    (served : Served store machine calls current final) (site : Site store.document machine)
    (reopens : Reopens store.document machine store.image) :
    Synced store machine calls current final := by
  induction served with
  | none => exact ⟨site, Confined.refl _ machine, rfl, reopens⟩
  | @call calls _ _ _ _ call _ _ runs ih =>
    cases ih.current_eq
    have transacts := serve_transacts ⟨store.document, applied calls store.image⟩ ih.site ih.reopens call
    rcases transacts.of_runs runs with ⟨between, moved, found⟩
    refine ⟨between.site, ih.confined.trans between.confined, ?_, found⟩
    rw [applied_concat]
    exact moved

theorem document_of_outcome {found : Except HostError ByteArray}
    (opens : outcome document found = .ok store) : store.document = document := by
  unfold outcome at opens
  split at opens
  · rename_i bytes
    cases decoded : Document.decode document bytes with
    | error error =>
      rw [decoded] at opens
      cases opens
    | ok image =>
      rw [decoded] at opens
      cases opens
      rfl
  · cases opens
    rfl
  · cases opens

/-- A store that was opened has an image that whoever opens it next finds as well. -/
theorem reopens_of_openAt {opened : Machine}
    (begins : machine.disk.kind? (machine.start document) = some .directory)
    (opens : machine.run (openAt document).run = (.ok store, opened)) :
    store.document = document ∧ Site document opened ∧ Reopens document opened store.image := by
  rcases site_of_openAt begins opens with ⟨site, _, reads⟩
  have same := document_of_outcome reads
  subst same
  refine ⟨rfl, site, store.image, ?_, fun _ => rfl⟩
  rw [site.run_openAt_eq, reads]

/-- A store that is opened where a walk can begin, and then used on a machine that
may fail at each step.  The image is the first one with the calls that succeeded,
and opening the store again finds it; or, if a further call is interrupted, finds
it as it was before that call or as it would be after it.  Nothing is touched but
the document and the file beside it. -/
theorem served_atomically {opened final : Machine} {current : Durable}
    {calls : List (Store.Call × Bool)}
    (begins : machine.disk.kind? (machine.start document) = some .directory)
    (opens : machine.run (openAt document).run = (.ok store, opened))
    (served : Served store opened calls current final) :
    current.image = applied calls store.image ∧
    Reopens document final current.image ∧
    (∀ call stopped, Program.Passes Machine.faulty ((serve call).run current) final stopped →
      Reopens document stopped current.image ∨
        Reopens document stopped (call.effect current.image)) ∧
    (∀ place, opened.target? document ≠ some place →
      opened.target? (temporary document) ≠ some place →
      final.disk.get? place = opened.disk.get? place ∧
      ∀ bytes, final.disk.get? place = some (.file bytes) ↔
        machine.disk.get? place = some (.file bytes)) ∧
    ∀ place spare, opened.target? document = some place →
      opened.target? (temporary document) = some spare →
      ∃ parent name, place = parent ++ [name] ∧ spare = parent ++ [name ++ ".tmp"] := by
  rcases site_of_openAt begins opens with ⟨site, extended, reads⟩
  have same := document_of_outcome reads
  subst same
  have found : Reopens store.document opened store.image := by
    refine ⟨store.image, ?_, fun _ => rfl⟩
    rw [site.run_openAt_eq, reads]
  have synced := served.synced site found
  cases synced.current_eq
  refine ⟨rfl, synced.reopens, ?_, ?_, fun _ _ => site.beside⟩
  · intro call stopped passes
    have transacts := serve_transacts ⟨store.document, applied calls store.image⟩ synced.site
      synced.reopens call
    exact (transacts.of_passes passes).reopens
  · intro place notDocument notSpare
    have untouched := synced.confined.others place notDocument notSpare
    refine ⟨untouched, ?_⟩
    intro bytes
    rw [untouched]
    exact extended.files place bytes

/-- A directory is stored.  Then a write breaks off, and the directory is not
deleted. -/
theorem served_atomically_despite_failure :
    ∃ final, Served ⟨"saves", .empty⟩ ⟨.empty, []⟩
        [(.put ⟨"a", .directory⟩, true), (.delete "a", false)]
        ⟨"saves", Catalog.put .empty ⟨"a", .directory⟩⟩ final ∧
      final.disk.get? ["saves.tmp"] = some (.file .empty) ∧
      Reopens "saves" final (Catalog.put .empty ⟨"a", .directory⟩) := by
  let image := Catalog.put .empty ⟨"a", .directory⟩
  let written : Machine := ⟨Disk.empty.putFile ["saves.tmp"] (Document.encode image), []⟩
  let renamed : Machine := ⟨written.disk.move ["saves.tmp"] ["saves"], []⟩
  let spoilt : Machine := ⟨renamed.disk.putFile ["saves.tmp"] .empty, []⟩
  have opens : Machine.run ⟨.empty, []⟩ (openAt "saves").run =
      (.ok ⟨"saves", .empty⟩, ⟨.empty, []⟩) := rfl
  have puts : Program.Runs Machine.faulty ((serve (.put ⟨"a", .directory⟩)).run ⟨"saves", .empty⟩)
      ⟨.empty, []⟩ (.ok (), ⟨"saves", image⟩) renamed :=
    .call (show Machine.faulty.turn _ (.write "saves.tmp" _) (.ok ()) written from .served rfl)
      (.call (show Machine.faulty.turn _ (.rename "saves.tmp" "saves") (.ok ()) renamed from
        .served rfl) (.done _ _))
  have partly : renamed.write (temporary "saves") .empty = .ok spoilt := rfl
  have breaks : Machine.faulty.turn renamed
      (.write (temporary "saves") (Document.encode ((Store.Call.delete "a").effect image)))
      (.error .busy) spoilt := Machine.Turn.spoiled .busy partly
  have deletes : Program.Runs Machine.faulty ((serve (.delete "a")).run ⟨"saves", image⟩)
      renamed (.error (.host .busy), ⟨"saves", image⟩) spoilt := .call breaks (.done _ _)
  have served := Served.call (.call .none puts) deletes
  exact ⟨spoilt, served, rfl, (served_atomically rfl opens served).2.1⟩

end Durable
end SaveTree
