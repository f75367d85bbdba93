import SaveTree.Proofs.Json.Arrangement
import SaveTree.Proofs.Json.RoundTrip
import SaveTree.Settings.Basic

namespace SaveTree

open Json

/-!
# Settings in any layout

Settings are read back from their own text.  They are also read from every text in which the
same members stand in another order, in which parts that have their default are left out, and in
which members with other names stand among them.  This holds for the settings, for the
choice of a store and for the retry policy alike.

Other members are skipped in settings and in a policy, so that they can hold anything.  The
choice of a store keeps them until its kind is known, so that their numbers must have values
and their strings must spell characters.  Texts with fractions or exponents are left out here.
-/

/-- The member of a part.  It may be left out if the part has its default. -/
inductive Member (name : String) (fits : Draft → Prop) (isDefault : Prop) :
    List (String × Draft) → Prop where
  | given {draft : Draft} (fitting : fits draft) : Member name fits isDefault [(name, draft)]
  | omitted (standard : isDefault) : Member name fits isDefault []

/-- Whether the member of a part is given or not, its field or the default has the value. -/
theorem Member.exists_read {α σ : Type} {fields : List (Record.Field σ)} {field : Record.Field σ}
    {name : String} {fits : Draft → Prop} {isDefault : Prop} {part : List (String × Draft)}
    (member : Member name fits isDefault part) (found : fields.find? (·.name = name) = some field)
    (set : Option α → σ) {value default : α} (unset : field.isSet (set none) = false)
    (reads : ∀ draft, (name, draft) ∈ part → fits draft →
      field.read draft (set none) = .ok (set (some value)))
    (standard : isDefault → default = value) :
    ∃ read : Option α, read.getD default = value ∧ ∀ others,
      Record.ofMembers fields (.ofList (part ++ others)) (set none) =
        Record.ofMembers fields (.ofList others) (set read) := by
  cases member with
  | given fitting =>
    refine ⟨some value, rfl, fun others => ?_⟩
    rw [List.singleton_append, Record.ofMembers_known found, unset, if_neg Bool.false_ne_true,
      reads _ List.mem_cons_self fitting]
    rfl
  | omitted isDefault => exact ⟨none, standard isDefault, fun others => rfl⟩

theorem map_eq_bind {α β : Type} {first : Except Error α} {f : α → β} :
    first.map f = first >>= fun value => .ok (f value) := by
  cases first <;> rfl

/-! ## Retry policies -/

namespace RetryPolicy

variable {policy : RetryPolicy} {draft : Draft}

/-- The members of a policy in any order, of which some may be left out, with others among
them. -/
inductive Arranged (policy : RetryPolicy) : Draft → Prop where
  | intro {retries backoff members : List (String × Draft)}
      (givesRetries : Member "maxRetries" (· = .number (.ofInt policy.maxRetries.toNat))
        (policy.maxRetries = standard.maxRetries) retries)
      (givesBackoff : Member "backoffMs" (· = .number (.ofInt policy.backoffMs.toNat))
        (policy.backoffMs = standard.backoffMs) backoff)
      (arranged : Json.Arranged (retries ++ backoff) ["maxRetries", "backoffMs"] members) :
      Arranged policy (.object (.ofList members))

theorem independent_fields : Record.Independent fields := by
  have setsRetries : fields[0].Sets (Draft.asNat UInt32.size) fun value found =>
      { found with maxRetries := some (UInt32.ofNat value) } :=
    ⟨fun draft state => map_eq_bind.symm, fun value state => rfl⟩
  have setsBackoff : fields[1].Sets (Draft.asNat UInt64.size) fun value found =>
      { found with backoffMs := some (UInt64.ofNat value) } :=
    ⟨fun draft state => map_eq_bind.symm, fun value state => rfl⟩
  exact Record.independent_pair setsRetries setsBackoff (fun value state => rfl)
    (fun value state => rfl) fun value other state => rfl

theorem asNat_ofInt {value bound : Nat} (fits : value < bound) (small : bound ≤ UInt64.size) :
    (Draft.number (.ofInt value)).asNat bound = .ok value := by
  have size : UInt64.size = 0x10000000000000000 := rfl
  have number : (Literal.ofInt value).number? = some (.int value) :=
    Literal.number?_ofInt (by omega) (by omega)
  have below : (Number.int value).below? bound = some value := by
    rw [Number.below?, Int.toNat_natCast, if_pos ⟨Int.natCast_nonneg value, fits⟩]
  rw [Draft.asNat, number]
  dsimp only
  rw [below]

theorem read_maxRetries (policy : RetryPolicy) (found : Partial) :
    fields[0].read (.number (.ofInt policy.maxRetries.toNat)) found =
      .ok { found with maxRetries := some policy.maxRetries } := by
  have read := asNat_ofInt policy.maxRetries.toNat_lt (by decide)
  simp [fields, read, bind, Except.bind]

theorem read_backoffMs (policy : RetryPolicy) (found : Partial) :
    fields[1].read (.number (.ofInt policy.backoffMs.toNat)) found =
      .ok { found with backoffMs := some policy.backoffMs } := by
  have read := asNat_ofInt policy.backoffMs.toNat_lt (Nat.le_refl _)
  simp [fields, read, bind, Except.bind]

/-- A policy is read from its members in any layout. -/
theorem ofDraft_of_arranged (arranged : policy.Arranged draft) (skipped : draft.skip = .ok ()) :
    ofDraft draft = .ok policy := by
  rcases arranged with @⟨retries, backoff, members, givesRetries, givesBackoff, arranged⟩
  have foundRetries : fields.find? (·.name = "maxRetries") = some fields[0] := rfl
  have foundBackoff : fields.find? (·.name = "backoffMs") = some fields[1] := rfl
  rcases givesRetries.exists_read foundRetries (fun found => { maxRetries := found }) rfl
      (fun draft _ same => same ▸ read_maxRetries policy {}) Eq.symm with
    ⟨readRetries, retries_eq, afterRetries⟩
  rcases givesBackoff.exists_read foundBackoff
      (fun found => { maxRetries := readRetries, backoffMs := found }) rfl
      (fun draft _ same => same ▸ read_backoffMs policy { maxRetries := readRetries }) Eq.symm with
    ⟨readBackoff, backoff_eq, afterBackoff⟩
  have read : Record.ofMembers fields (.ofList (retries ++ backoff)) {} =
      .ok { maxRetries := readRetries, backoffMs := readBackoff } := by
    have last := afterBackoff []
    rw [List.append_nil] at last
    exact (afterRetries backoff).trans last
  rw [ofDraft, Record.read_of_arranged independent_fields arranged skipped read]
  simp only [bind, Except.bind, retries_eq, backoff_eq]

end RetryPolicy

/-! ## Choices of a store -/

namespace StoreChoice

variable {choice : StoreChoice} {draft : Draft} {room : Nat}

/-- The tag of a choice. -/
def tag : StoreChoice → String
  | memory => "memory"
  | durable _ => "durable"
  | auto _ => "auto"

/-- The members of a choice besides its tag. -/
def payload : StoreChoice → List (String × Draft)
  | memory => []
  | durable path | auto path => [("path", .string (.ok path))]

/-- The members of a choice. -/
def members (choice : StoreChoice) : List (String × Draft) :=
  ("kind", .string (.ok choice.tag)) :: choice.payload

/-- The members of a choice in any order, with others among them.  The others can be kept. -/
inductive Arranged (choice : StoreChoice) : Draft → Prop where
  | intro {members : List (String × Draft)}
      (arranged : Json.Arranged choice.members (choice.members.map Prod.fst) members)
      (valued : ∀ member ∈ members, member.2.Valued)
      (shallow : ∀ member ∈ members, member.2.depth ≤ 100) :
      Arranged choice (.object (.ofList members))

theorem documentOf_payloadOf (room : Nat) {members : List (String × Draft)} {path : String}
    (single : members.filter (·.1 = "path") = [("path", .string (.ok path))]) :
    documentOf (.members (Tagged.payloadOf "kind" room members)) = .ok path := by
  have found : Value.only? "path" (Tagged.payloadOf "kind" room members) =
      some ((Draft.string (.ok path)).kept room) := Tagged.only?_payloadOf (by decide) single
  rw [documentOf, Payload.only?, found]
  rfl

/-- A choice is read from its members in any layout. -/
theorem ofDraft_of_arranged (arranged : choice.Arranged draft) (enough : 100 < room) :
    ofDraft room draft = .ok choice := by
  rcases arranged with @⟨members, arranged, valued, shallow⟩
  have kept : ∀ member ∈ members,
      member.2.keep (room - 1) = .ok (member.2.kept (room - 1)) := by
    intro member isMember
    have fits := shallow member isMember
    exact Draft.keep_eq_kept (valued member isMember) (by omega)
  have kind : members.filter (·.1 = "kind") = [("kind", .string (.ok choice.tag))] :=
    arranged.filter_eq (.head _) (by cases choice <;> rfl)
  cases choice with
  | memory =>
    have tagged : Kind.ofDraft (.string (.ok "memory")) = .ok .memory := rfl
    rw [ofDraft, Tagged.read_of_tag kind tagged kept]
    rfl
  | durable path =>
    have tagged : Kind.ofDraft (.string (.ok "durable")) = .ok .durable := rfl
    have document := documentOf_payloadOf (room - 1)
      (arranged.filter_eq (.tail _ (.head _)) rfl)
    rw [ofDraft, Tagged.read_of_tag kind tagged kept]
    simp only [bind, Except.bind, document]
    rfl
  | auto path =>
    have tagged : Kind.ofDraft (.string (.ok "auto")) = .ok .auto := rfl
    have document := documentOf_payloadOf (room - 1)
      (arranged.filter_eq (.tail _ (.head _)) rfl)
    rw [ofDraft, Tagged.read_of_tag kind tagged kept]
    simp only [bind, Except.bind, document]
    rfl

end StoreChoice

/-! ## Settings -/

namespace Settings

variable {settings : Settings} {draft : Draft}

/-- The members of settings in any order, of which some may be left out, with others among
them.  The members of the members are arranged in the same way. -/
inductive Arranged (settings : Settings) : Draft → Prop where
  | intro {store queue members : List (String × Draft)}
      (givesStore : Member "store" settings.store.Arranged (settings.store = .memory) store)
      (givesQueue : Member "queue" settings.queue.Arranged (settings.queue = .standard) queue)
      (arranged : Json.Arranged (store ++ queue) ["store", "queue"] members) :
      Arranged settings (.object (.ofList members))

theorem independent_fields : Record.Independent fields := by
  have setsStore : fields[0].Sets (StoreChoice.ofDraft (Draft.nesting - 1)) fun value found =>
      { found with store := some value } :=
    ⟨fun draft state => map_eq_bind.symm, fun value state => rfl⟩
  have setsQueue : fields[1].Sets RetryPolicy.ofDraft fun value found =>
      { found with queue := some value } :=
    ⟨fun draft state => map_eq_bind.symm, fun value state => rfl⟩
  exact Record.independent_pair setsStore setsQueue (fun value state => rfl)
    (fun value state => rfl) fun value other state => rfl

theorem read_store {choice : StoreChoice} (arranged : choice.Arranged draft) (found : Partial) :
    fields[0].read draft found = .ok { found with store := some choice } := by
  have enough : 100 < Draft.nesting - 1 := by decide
  have read := StoreChoice.ofDraft_of_arranged arranged enough
  simp [fields, read, bind, Except.bind]

theorem read_queue {policy : RetryPolicy} (arranged : policy.Arranged draft)
    (skipped : draft.skip = .ok ()) (found : Partial) :
    fields[1].read draft found = .ok { found with queue := some policy } := by
  have read := RetryPolicy.ofDraft_of_arranged arranged skipped
  simp [fields, read, bind, Except.bind]

/-- Settings are read from their members in any layout. -/
theorem ofDraft_of_arranged (arranged : settings.Arranged draft) (skipped : draft.skip = .ok ()) :
    ofDraft draft = .ok settings := by
  rcases arranged with @⟨store, queue, members, givesStore, givesQueue, arranged⟩
  have foundStore : fields.find? (·.name = "store") = some fields[0] := rfl
  have foundQueue : fields.find? (·.name = "queue") = some fields[1] := rfl
  have skippedQueue : ∀ member ∈ queue, member.2.skip = .ok () := by
    intro member isMember
    rcases arranged with ⟨others, perm, _⟩
    refine Draft.skip_of_mem skipped (perm.mem_iff.mpr ?_)
    exact List.mem_append_left _ (List.mem_append_right _ isMember)
  rcases givesStore.exists_read foundStore (fun found => { store := found }) rfl
      (fun draft _ fits => read_store fits {}) Eq.symm with
    ⟨readStore, store_eq, afterStore⟩
  rcases givesQueue.exists_read foundQueue (fun found => { store := readStore, queue := found }) rfl
      (fun draft isMember fits =>
        read_queue fits (skippedQueue _ isMember) { store := readStore }) Eq.symm with
    ⟨readQueue, queue_eq, afterQueue⟩
  have read : Record.ofMembers fields (.ofList (store ++ queue)) {} =
      .ok { store := readStore, queue := readQueue } := by
    have last := afterQueue []
    rw [List.append_nil] at last
    exact (afterStore queue).trans last
  rw [ofDraft, Record.read_of_arranged independent_fields arranged skipped read]
  simp only [bind, Except.bind, store_eq, queue_eq]

theorem whole_toValue (settings : Settings) : settings.toValue.Whole := by
  have retries := settings.queue.maxRetries.toNat_lt
  have backoff := settings.queue.backoffMs.toNat_lt
  have store : settings.store.toValue.Whole := by
    cases settings.store with
    | memory => exact ⟨trivial, trivial⟩
    | durable path => exact ⟨trivial, trivial, trivial⟩
    | auto path => exact ⟨trivial, trivial, trivial⟩
  refine ⟨store, ⟨⟨?_, ?_⟩, ⟨?_, ?_⟩, trivial⟩, trivial⟩
  all_goals omega

/-- The members of settings in another order, with others at every level and without the
number of retries. -/
def reordered : Value :=
  .object [
    ("x", .array [.object [("store", .null)]]),
    ("queue", .object [("n", .number (.int (-1))), ("backoffMs", .nat 7)]),
    ("store", .object [("path", .string "s"), ("v", .nat 2), ("kind", .string "auto")])]

end Settings

end SaveTree
