import SaveTree.Json.Record
import SaveTree.Json.Tagged
import SaveTree.Proofs.Json.Grammar

namespace SaveTree
namespace Json

/-!
# Members in any order

What is read from the members of an object does not depend on their order, nor on other
members among them.  A record skips members that it does not know, and its fields do not look
at each other, so that two neighbours can change places.  A tagged choice keeps all members as
values until its tag is known, and then looks for the ones it needs by their names.

Whatever has a text can be skipped.  It can be kept if it does not nest too deep, if its
numbers have values and if its strings spell characters.
-/

/-- The members of an object that has no flaw. -/
def Members.ofList : List (String × Draft) → Members
  | [] => .done
  | (key, value) :: rest => .cons (.ok key) value (ofList rest)

/-- Members in any order, and others with other names anywhere among them. -/
def Arranged (known : List (String × Draft)) (names : List String)
    (members : List (String × Draft)) : Prop :=
  ∃ others, members.Perm (known ++ others) ∧ ∀ member ∈ others, member.1 ∉ names

theorem Arranged.refl (known : List (String × Draft)) (names : List String) :
    Arranged known names known := by
  refine ⟨[], by rw [List.append_nil], fun member isMember => ?_⟩
  cases isMember

/-! ## Skipping -/

namespace Draft

mutual

theorem skip_of_spelled (draft : Draft) {text : List Char} (spelled : draft.Spelled text) :
    draft.skip = .ok () := by
  cases spelled with
  | null | true | false | number spelled | string spelled => rfl
  | emptyArray blank | emptyObject blank => rfl
  | array blank first others =>
    rw [skip, skipItems, skip_of_spelled _ first]
    exact skipItems_of_ends _ others
  | object blank name blankBefore blankAfter first others =>
    rw [skip, skipMembers, skip_of_spelled _ first]
    exact skipMembers_of_ends _ others
termination_by structural draft

theorem skipItems_of_ends (items : Items) {ending : List Char} (ends : items.Ends ending) :
    skipItems items = .ok () := by
  cases ends with
  | done blank => rfl
  | cons blank blankInner first others =>
    rw [skipItems, skip_of_spelled _ first]
    exact skipItems_of_ends _ others
termination_by structural items

theorem skipMembers_of_ends (members : Members) {ending : List Char} (ends : members.Ends ending) :
    skipMembers members = .ok () := by
  cases ends with
  | done blank => rfl
  | cons blank blankInner name blankBefore blankAfter first others =>
    rw [skipMembers, skip_of_spelled _ first]
    exact skipMembers_of_ends _ others
termination_by structural members

end

theorem skip_of_mem {members : List (String × Draft)}
    (skipped : (object (.ofList members)).skip = .ok ()) {member : String × Draft}
    (isMember : member ∈ members) : member.2.skip = .ok () := by
  induction members with
  | nil => cases isMember
  | cons first rest ih =>
    rcases first with ⟨key, value⟩
    rw [Members.ofList, skip, skipMembers] at skipped
    cases first : value.skip with
    | error error =>
      rw [first] at skipped
      cases skipped
    | ok done =>
      rw [first] at skipped
      rcases List.mem_cons.mp isMember with rfl | later
      · exact first
      · exact ih skipped later

/-! ## Keeping -/

mutual

/-- How deep arrays and objects nest. -/
def depth : Draft → Nat
  | null | bool _ | number _ | string _ | broken _ => 0
  | array items => depthItems items + 1
  | object members => depthMembers members + 1
termination_by structural draft => draft

/-- The depth of the deepest item. -/
def depthItems : Items → Nat
  | .done | .broken _ => 0
  | .cons item rest => max item.depth (depthItems rest)
termination_by structural items => items

/-- The depth of the deepest member. -/
def depthMembers : Members → Nat
  | .done | .broken _ => 0
  | .cons _ value rest => max value.depth (depthMembers rest)
termination_by structural members => members

end

mutual

/-- Every number has a value and every string spells characters. -/
def Valued : Draft → Prop
  | null | bool _ => True
  | number literal => literal.number?.isSome
  | string text => text.isOk
  | array items => ValuedItems items
  | object members => ValuedMembers members
  | broken _ => False
termination_by structural draft => draft

/-- `Valued` for every item. -/
def ValuedItems : Items → Prop
  | .done => True
  | .broken _ => False
  | .cons item rest => item.Valued ∧ ValuedItems rest
termination_by structural items => items

/-- `Valued` for every key and value. -/
def ValuedMembers : Members → Prop
  | .done => True
  | .broken _ => False
  | .cons key value rest => key.isOk ∧ value.Valued ∧ ValuedMembers rest
termination_by structural members => members

end

mutual

theorem keep_of_valued (draft : Draft) {room : Nat} (valued : draft.Valued)
    (fits : draft.depth ≤ room) : ∃ value, draft.keep room = .ok value := by
  cases draft with
  | null => exact ⟨_, rfl⟩
  | bool value => exact ⟨_, rfl⟩
  | broken flaw => exact absurd valued id
  | number literal =>
    rcases Option.isSome_iff_exists.mp valued with ⟨value, has⟩
    exact ⟨.number value, by rw [keep, has]⟩
  | string text =>
    cases text with
    | error error => cases valued
    | ok text => exact ⟨.string text, rfl⟩
  | array items =>
    cases room with
    | zero => simp [depth] at fits
    | succ room =>
      rcases keepItems_of_valued items valued (Nat.le_of_succ_le_succ fits) with ⟨values, kept⟩
      exact ⟨.array values, by rw [keep, kept]; rfl⟩
  | object members =>
    cases room with
    | zero => simp [depth] at fits
    | succ room =>
      rcases keepMembers_of_valued members valued (Nat.le_of_succ_le_succ fits) with ⟨values, kept⟩
      exact ⟨.object values, by rw [keep, kept]; rfl⟩
termination_by structural draft

theorem keepItems_of_valued (items : Items) {room : Nat} (valued : ValuedItems items)
    (fits : depthItems items ≤ room) : ∃ values, keepItems room items = .ok values := by
  cases items with
  | done => exact ⟨_, rfl⟩
  | broken flaw => exact absurd valued id
  | cons item rest =>
    rw [depthItems, Nat.max_le] at fits
    rcases keep_of_valued item valued.1 fits.1 with ⟨value, kept⟩
    rcases keepItems_of_valued rest valued.2 fits.2 with ⟨values, others⟩
    exact ⟨value :: values, by rw [keepItems, kept, others]; rfl⟩
termination_by structural items

theorem keepMembers_of_valued (members : Members) {room : Nat} (valued : ValuedMembers members)
    (fits : depthMembers members ≤ room) : ∃ values, keepMembers room members = .ok values := by
  cases members with
  | done => exact ⟨_, rfl⟩
  | broken flaw => exact absurd valued id
  | cons key value rest =>
    rw [depthMembers, Nat.max_le] at fits
    cases key with
    | error error => cases valued.1
    | ok key =>
      rcases keep_of_valued value valued.2.1 fits.1 with ⟨value, kept⟩
      rcases keepMembers_of_valued rest valued.2.2 fits.2 with ⟨values, others⟩
      exact ⟨(key, value) :: values, by rw [keepMembers, kept, others]; rfl⟩
termination_by structural members

end

/-- The value that is kept of a draft, if it can be kept. -/
def kept (room : Nat) (draft : Draft) : Value :=
  (draft.keep room).toOption.getD .null

theorem keep_eq_kept {draft : Draft} {room : Nat} (valued : draft.Valued)
    (fits : draft.depth ≤ room) : draft.keep room = .ok (draft.kept room) := by
  rcases keep_of_valued draft valued fits with ⟨value, same⟩
  rw [kept, same]
  rfl

end Draft

theorem bind_eq_ok_iff {α β : Type} {first : Except Error α} {next : α → Except Error β} {b : β} :
    (first >>= next) = .ok b ↔ ∃ a, first = .ok a ∧ next a = .ok b := by
  cases first with
  | error error =>
    constructor
    · intro failed
      cases failed
    · rintro ⟨a, failed, _⟩
      cases failed
  | ok a =>
    constructor
    · intro rest
      exact ⟨a, rfl, rest⟩
    · rintro ⟨_, same, rest⟩
      cases same
      exact rest

/-! ## Records -/

namespace Record

variable {σ : Type} {fields : List (Field σ)} {state final : σ}
  {known members first second : List (String × Draft)} {member : String × Draft}

/-- Reading the member leads from the first state to the second. -/
inductive Reads (fields : List (Field σ)) : String × Draft → σ → σ → Prop where
  | field {key : String} {draft : Draft} {field : Field σ} {state next : σ}
      (found : fields.find? (·.name = key) = some field) (unset : field.isSet state = false)
      (read : field.read draft state = .ok next) : Reads fields (key, draft) state next
  | other {key : String} {draft : Draft} {state : σ}
      (unknown : fields.find? (·.name = key) = none) (skipped : draft.skip = .ok ()) :
      Reads fields (key, draft) state state

/-- The fields do not look at each other.  A field is set by being read, and two fields can
be read in either order. -/
structure Independent (fields : List (Field σ)) : Prop where
  isSet_of_read : ∀ field ∈ fields, ∀ {draft state next}, field.read draft state = .ok next →
    field.isSet next = true
  read_swap : ∀ field ∈ fields, ∀ other ∈ fields, field.name ≠ other.name →
    ∀ {draft otherDraft state next final}, field.read draft state = .ok next →
      other.read otherDraft next = .ok final →
      other.isSet next = other.isSet state ∧ ∃ between, other.read otherDraft state = .ok between ∧
        field.isSet between = field.isSet state ∧ field.read draft between = .ok final

/-- Reading a field is to decode its draft and to set it. -/
structure Field.Sets {α : Type} (field : Field σ) (decode : Draft → Except Error α)
    (set : α → σ → σ) : Prop where
  read_eq : ∀ draft state, field.read draft state = (decode draft).map (set · state)
  isSet_set : ∀ value state, field.isSet (set value state) = true

theorem Field.Sets.exists_value {α : Type} {field : Field σ} {decode : Draft → Except Error α}
    {set : α → σ → σ} (sets : field.Sets decode set) {draft : Draft} {next : σ}
    (read : field.read draft state = .ok next) :
    ∃ value, next = set value state ∧ ∀ other, field.read draft other = .ok (set value other) := by
  rw [sets.read_eq] at read
  cases decoded : decode draft with
  | error error =>
    rw [decoded] at read
    cases read
  | ok value =>
    rw [decoded] at read
    cases read
    refine ⟨value, rfl, fun other => ?_⟩
    rw [sets.read_eq, decoded]
    rfl

/-- Two fields are independent if they are set apart from each other. -/
theorem independent_pair {α β : Type} {left right : Field σ} {decodeLeft : Draft → Except Error α}
    {decodeRight : Draft → Except Error β} {setLeft : α → σ → σ} {setRight : β → σ → σ}
    (setsLeft : left.Sets decodeLeft setLeft) (setsRight : right.Sets decodeRight setRight)
    (leftKeeps : ∀ value state, right.isSet (setLeft value state) = right.isSet state)
    (rightKeeps : ∀ value state, left.isSet (setRight value state) = left.isSet state)
    (commute : ∀ value other state,
      setRight other (setLeft value state) = setLeft value (setRight other state)) :
    Independent [left, right] where
  isSet_of_read field isField _ state next read := by
    simp only [List.mem_cons, List.not_mem_nil, or_false] at isField
    rcases isField with rfl | rfl
    · rcases setsLeft.exists_value read with ⟨value, rfl, _⟩
      exact setsLeft.isSet_set value state
    · rcases setsRight.exists_value read with ⟨value, rfl, _⟩
      exact setsRight.isSet_set value state
  read_swap field isField other isOther apart _ _ state next final read readOther := by
    simp only [List.mem_cons, List.not_mem_nil, or_false] at isField isOther
    rcases isField with rfl | rfl <;> rcases isOther with rfl | rfl
    · exact absurd rfl apart
    · rcases setsLeft.exists_value read with ⟨value, rfl, again⟩
      rcases setsRight.exists_value readOther with ⟨otherValue, rfl, before⟩
      exact ⟨leftKeeps value state, _, before state, rightKeeps otherValue state, by
        rw [again, commute]⟩
    · rcases setsRight.exists_value read with ⟨value, rfl, again⟩
      rcases setsLeft.exists_value readOther with ⟨otherValue, rfl, before⟩
      exact ⟨rightKeeps value state, _, before state, leftKeeps otherValue state, by
        rw [again, commute]⟩
    · exact absurd rfl apart

theorem ofMembers_known {key : String} {draft : Draft} {field : Field σ}
    (found : fields.find? (·.name = key) = some field) :
    ofMembers fields (.ofList ((key, draft) :: members)) state =
      if field.isSet state then .error .mismatched
      else field.read draft state >>= ofMembers fields (.ofList members) := by
  simp only [Members.ofList, ofMembers, bind, Except.bind, found]

theorem ofMembers_unknown {key : String} {draft : Draft}
    (unknown : fields.find? (·.name = key) = none) :
    ofMembers fields (.ofList ((key, draft) :: members)) state =
      draft.skip >>= fun _ => ofMembers fields (.ofList members) state := by
  simp only [Members.ofList, ofMembers, bind, Except.bind, unknown]

theorem ofMembers_cons_iff :
    ofMembers fields (.ofList (member :: members)) state = .ok final ↔
      ∃ next, Reads fields member state next ∧
        ofMembers fields (.ofList members) next = .ok final := by
  rcases member with ⟨key, draft⟩
  constructor
  · intro all
    cases found : fields.find? (·.name = key) with
    | some field =>
      rw [ofMembers_known found] at all
      cases unset : field.isSet state with
      | true => rw [unset] at all; cases all
      | false =>
        rw [unset, if_neg Bool.false_ne_true] at all
        rcases bind_eq_ok_iff.mp all with ⟨next, read, rest⟩
        exact ⟨next, .field found unset read, rest⟩
    | none =>
      rw [ofMembers_unknown found] at all
      rcases bind_eq_ok_iff.mp all with ⟨_, skipped, rest⟩
      exact ⟨state, .other found skipped, rest⟩
  · rintro ⟨next, reads, rest⟩
    cases reads with
    | field found unset read =>
      rw [ofMembers_known found, unset, if_neg Bool.false_ne_true, read]
      exact rest
    | other unknown skipped =>
      rw [ofMembers_unknown unknown, skipped]
      exact rest

/-- Two neighbours can change places. -/
theorem Reads.swap (independent : Independent fields) {other : String × Draft} {next : σ}
    (reads : Reads fields member state next) (readsOther : Reads fields other next final) :
    ∃ between, Reads fields other state between ∧ Reads fields member between final := by
  cases reads with
  | other unknown skipped => exact ⟨final, readsOther, .other unknown skipped⟩
  | @field key draft field _ _ found unset read =>
    cases readsOther with
    | other unknown skipped => exact ⟨state, .other unknown skipped, .field found unset read⟩
    | @field otherKey otherDraft otherField _ _ foundOther unsetOther readOther =>
      have isField := List.mem_of_find?_eq_some found
      have isOther := List.mem_of_find?_eq_some foundOther
      have name := List.find?_some found
      have otherName := List.find?_some foundOther
      rw [decide_eq_true_iff] at name otherName
      by_cases same : key = otherKey
      · -- the field has been set by the first of the two members
        subst same
        cases found.symm.trans foundOther
        rw [independent.isSet_of_read field isField read] at unsetOther
        cases unsetOther
      · have apart : field.name ≠ otherField.name := by rwa [name, otherName]
        rcases independent.read_swap field isField otherField isOther apart read readOther with
          ⟨otherKeeps, between, readEarlier, fieldKeeps, readLater⟩
        rw [otherKeeps] at unsetOther
        rw [← fieldKeeps] at unset
        exact ⟨between, .field foundOther unsetOther readEarlier, .field found unset readLater⟩

/-- The order of the members does not matter. -/
theorem ofMembers_of_perm (independent : Independent fields) (perm : first.Perm second)
    (read : ofMembers fields (.ofList first) state = .ok final) :
    ofMembers fields (.ofList second) state = .ok final := by
  induction perm generalizing state with
  | nil => exact read
  | cons member perm ih =>
    rcases ofMembers_cons_iff.mp read with ⟨next, reads, rest⟩
    exact ofMembers_cons_iff.mpr ⟨next, reads, ih rest⟩
  | swap member other rest =>
    rcases ofMembers_cons_iff.mp read with ⟨next, readsOther, tail⟩
    rcases ofMembers_cons_iff.mp tail with ⟨later, reads, rest⟩
    rcases readsOther.swap independent reads with ⟨between, earlier, last⟩
    exact ofMembers_cons_iff.mpr ⟨between, earlier, ofMembers_cons_iff.mpr ⟨later, last, rest⟩⟩
  | trans _ _ first second => exact second (first read)

theorem find?_eq_none_of_notMem {key : String} (unknown : key ∉ fields.map (·.name)) :
    fields.find? (·.name = key) = none := by
  rw [List.find?_eq_none]
  intro field isField same
  exact unknown (List.mem_map.mpr ⟨field, isField, of_decide_eq_true same⟩)

/-- Members that are not known leave the state as it is. -/
theorem ofMembers_append {others : List (String × Draft)}
    (unknown : ∀ member ∈ others, member.1 ∉ fields.map (·.name))
    (skipped : ∀ member ∈ others, member.2.skip = .ok ())
    (read : ofMembers fields (.ofList known) state = .ok final) :
    ofMembers fields (.ofList (known ++ others)) state = .ok final := by
  induction known generalizing state with
  | cons member rest ih =>
    rcases ofMembers_cons_iff.mp read with ⟨next, reads, later⟩
    exact ofMembers_cons_iff.mpr ⟨next, reads, ih later⟩
  | nil =>
    induction others with
    | nil => exact read
    | cons member rest ih =>
      rcases member with ⟨key, draft⟩
      refine ofMembers_cons_iff.mpr ⟨state, .other ?_ (skipped _ List.mem_cons_self), ?_⟩
      · exact find?_eq_none_of_notMem (unknown _ List.mem_cons_self)
      · exact ih (fun other isOther => unknown other (.tail _ isOther))
          fun other isOther => skipped other (.tail _ isOther)

/-- A record is read from its members in any order and with others among them. -/
theorem read_of_arranged (independent : Independent fields)
    (arranged : Arranged known (fields.map (·.name)) members)
    (skipped : (Draft.object (.ofList members)).skip = .ok ())
    (read : ofMembers fields (.ofList known) state = .ok final) :
    Record.read fields state (.object (.ofList members)) = .ok final := by
  rcases arranged with ⟨others, perm, unknown⟩
  have skippedOthers : ∀ member ∈ others, member.2.skip = .ok () := by
    intro member isOther
    exact Draft.skip_of_mem skipped (perm.mem_iff.mpr (List.mem_append_right known isOther))
  exact ofMembers_of_perm independent perm.symm (ofMembers_append unknown skippedOthers read)

end Record

/-! ## Tagged choices -/

/-- A member that is there once is found once, wherever it stands. -/
theorem Arranged.filter_eq {known members : List (String × Draft)} {names : List String}
    (arranged : Arranged known names members) {name : String} {draft : Draft}
    (isName : name ∈ names) (single : known.filter (·.1 = name) = [(name, draft)]) :
    members.filter (·.1 = name) = [(name, draft)] := by
  rcases arranged with ⟨others, perm, unknown⟩
  have none : others.filter (·.1 = name) = [] := by
    rw [List.filter_eq_nil_iff]
    intro member isOther same
    exact unknown member isOther (of_decide_eq_true same ▸ isName)
  have filtered := perm.filter (·.1 = name)
  rw [List.filter_append, single, none, List.append_nil] at filtered
  exact List.perm_singleton.mp filtered

namespace Tagged

variable {τ : Type} {name : String} {tag : Draft → Except Error τ} {room : Nat} {found : τ}
  {members : List (String × Draft)}

/-- The members as they are kept, without the tag. -/
def payloadOf (name : String) (room : Nat) (members : List (String × Draft)) :
    List (String × Value) :=
  (members.filter (·.1 ≠ name)).map fun member => (member.1, member.2.kept room)

theorem ofMembers_other {key : String} {draft : Draft} (different : key ≠ name)
    (kept : draft.keep room = .ok (draft.kept room)) {tagged : Option τ}
    {others : List (String × Value)}
    (rest : ofMembers name tag room (.ofList members) tagged = .ok (found, others)) :
    ofMembers name tag room (.ofList ((key, draft) :: members)) tagged =
      .ok (found, (key, draft.kept room) :: others) := by
  rw [Members.ofList, ofMembers]
  simp only [bind, Except.bind, different, if_false, kept, rest]

theorem ofMembers_some (untagged : ∀ member ∈ members, member.1 ≠ name)
    (kept : ∀ member ∈ members, member.2.keep room = .ok (member.2.kept room)) :
    ofMembers name tag room (.ofList members) (some found) =
      .ok (found, payloadOf name room members) := by
  induction members with
  | nil => rfl
  | cons member rest ih =>
    rcases member with ⟨key, draft⟩
    have different : key ≠ name := untagged _ List.mem_cons_self
    have later := ih (fun other isOther => untagged other (.tail _ isOther))
      fun other isOther => kept other (.tail _ isOther)
    rw [ofMembers_other different (kept _ List.mem_cons_self) later]
    simp [payloadOf, different]

/-- The tag is found wherever it stands. -/
theorem ofMembers_of_tag {draft : Draft} (single : members.filter (·.1 = name) = [(name, draft)])
    (tagged : tag draft = .ok found)
    (kept : ∀ member ∈ members, member.2.keep room = .ok (member.2.kept room)) :
    ofMembers name tag room (.ofList members) none = .ok (found, payloadOf name room members) := by
  induction members with
  | nil => cases single
  | cons member rest ih =>
    rcases member with ⟨key, other⟩
    have keptRest : ∀ member ∈ rest, member.2.keep room = .ok (member.2.kept room) :=
      fun member isMember => kept member (.tail _ isMember)
    by_cases isTag : key = name
    · subst isTag
      rw [List.filter_cons_of_pos (by simp)] at single
      rcases List.cons.inj single with ⟨first, none⟩
      cases first
      have untagged : ∀ member ∈ rest, member.1 ≠ key := by
        intro member isMember same
        exact absurd (decide_eq_true same) (List.filter_eq_nil_iff.mp none member isMember)
      rw [Members.ofList, ofMembers]
      simp only [bind, Except.bind, if_true, Option.isSome_none, Bool.false_eq_true, if_false,
        tagged]
      rw [ofMembers_some untagged keptRest]
      simp [payloadOf]
    · rw [List.filter_cons_of_neg (by simpa using isTag)] at single
      rw [ofMembers_other isTag (kept _ List.mem_cons_self) (ih single keptRest)]
      simp [payloadOf, isTag]

/-- A choice is read from its members in any order and with others among them. -/
theorem read_of_tag {draft : Draft} (single : members.filter (·.1 = name) = [(name, draft)])
    (tagged : tag draft = .ok found)
    (kept : ∀ member ∈ members, member.2.keep (room - 1) = .ok (member.2.kept (room - 1))) :
    read name tag room (.object (.ofList members)) =
      .ok (found, .members (payloadOf name (room - 1) members)) := by
  rw [read, ofMembers_of_tag single tagged kept]
  rfl

/-- A member of the payload is found by its name. -/
theorem only?_payloadOf {other : String} {draft : Draft} (different : other ≠ name)
    (single : members.filter (·.1 = other) = [(other, draft)]) :
    Value.only? other (payloadOf name room members) = some (draft.kept room) := by
  have both :
      (members.filter (·.1 ≠ name)).filter (·.1 = other) = members.filter (·.1 = other) := by
    rw [List.filter_filter]
    apply List.filter_congr
    intro member _
    by_cases same : member.1 = other
    · simp [same, different]
    · simp [same]
  have found : (payloadOf name room members).filter (·.1 = other) = [(other, draft.kept room)] := by
    rw [payloadOf, List.filter_map]
    have inner : (members.filter (·.1 ≠ name)).filter
        ((fun member : String × Value => decide (member.1 = other)) ∘
          fun member => (member.1, member.2.kept room)) = [(other, draft)] := both.trans single
    rw [inner]
    rfl
  rw [Value.only?, found]

end Tagged

end Json
end SaveTree
