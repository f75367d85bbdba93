import SaveTree.Proofs.Json.RoundTrip

namespace SaveTree
namespace Json

/-!
# Objects as maps

Whoever reads any value gets its objects as maps: their members are sorted by key, and no
two have the same key.  Sorting gives every value this form and changes none that has it, so
such a value is read from its own text as it was written.
-/

namespace Value

variable {key : String} {value : Value} {members found : List (String × Value)}

/-- Members in the order of their keys, one for each. -/
def Increasing (members : List (String × Value)) : Prop :=
  members.Pairwise fun member later => member.1 < later.1

mutual

/-- The members of every object, inside and out, are in the order of their keys, one for
each. -/
def Ordered : Value → Prop
  | null | bool _ | number _ | string _ => True
  | array items => OrderedItems items
  | object members => Increasing members ∧ OrderedMembers members
termination_by structural value => value

/-- `Ordered` for every item. -/
def OrderedItems : List Value → Prop
  | [] => True
  | item :: rest => item.Ordered ∧ OrderedItems rest
termination_by structural items => items

/-- `Ordered` for the value of every member. -/
def OrderedMembers : List (String × Value) → Prop
  | [] => True
  | (_, value) :: rest => value.Ordered ∧ OrderedMembers rest
termination_by structural members => members

end

/-! ## Putting a member in its place -/

theorem mem_of_mem_insertMember {member : String × Value}
    (isMember : member ∈ insertMember key value members) :
    member = (key, value) ∨ member ∈ members := by
  induction members with
  | nil => exact .inl (List.mem_singleton.mp isMember)
  | cons first rest ih =>
    rcases first with ⟨other, old⟩
    rw [insertMember] at isMember
    split at isMember
    · rcases List.mem_cons.mp isMember with same | behind
      · exact .inl same
      · exact .inr (.tail _ behind)
    · split at isMember
      · exact List.mem_cons.mp isMember
      · rcases List.mem_cons.mp isMember with same | behind
        · exact .inr (List.mem_cons.mpr (.inl same))
        · exact (ih behind).imp_right (.tail _)

/-- A member whose key is above all others is put at the end. -/
theorem insertMember_of_above (above : ∀ member ∈ members, member.1 < key) :
    insertMember key value members = members ++ [(key, value)] := by
  induction members with
  | nil => rfl
  | cons first rest ih =>
    rcases first with ⟨other, old⟩
    have less : other < key := above _ (.head _)
    have different : key ≠ other := fun same => String.lt_irrefl key (same ▸ less)
    rw [insertMember, if_neg different, if_neg (String.lt_asymm less),
      ih fun member isMember => above member (.tail _ isMember)]
    rfl

theorem Increasing.insertMember (increasing : Increasing members) (key : String) (value : Value) :
    Increasing (insertMember key value members) := by
  induction members with
  | nil => exact List.pairwise_singleton ..
  | cons first rest ih =>
    rcases first with ⟨other, old⟩
    rcases List.pairwise_cons.mp increasing with ⟨below, restIncreasing⟩
    rw [Value.insertMember]
    split
    next same =>
      subst same
      exact List.pairwise_cons.mpr ⟨below, restIncreasing⟩
    next different =>
      split
      next less =>
        refine List.pairwise_cons.mpr ⟨?_, increasing⟩
        intro member isMember
        rcases List.mem_cons.mp isMember with same | behind
        · exact same ▸ less
        · exact String.lt_trans less (below member behind)
      next notLess =>
        have greater : other < key := by
          apply String.not_le.mp
          intro reached
          exact different (String.le_antisymm reached (String.not_lt.mp notLess))
        refine List.pairwise_cons.mpr ⟨?_, ih restIncreasing⟩
        intro member isMember
        rcases mem_of_mem_insertMember isMember with same | behind
        · exact same ▸ greater
        · exact below member behind

theorem orderedMembers_iff : OrderedMembers members ↔ ∀ member ∈ members, member.2.Ordered := by
  induction members with
  | nil => simp [OrderedMembers]
  | cons first rest ih => simp only [OrderedMembers, ih, List.forall_mem_cons]

theorem OrderedMembers.insertMember (ordered : OrderedMembers members) (value_ordered : value.Ordered) :
    OrderedMembers (insertMember key value members) := by
  rw [orderedMembers_iff] at ordered ⊢
  intro member isMember
  rcases mem_of_mem_insertMember isMember with rfl | old
  · exact value_ordered
  · exact ordered member old

/-! ## Sorting -/

mutual

/-- Sorting makes maps of all objects. -/
theorem ordered_sorted (value : Value) : value.sorted.Ordered := by
  cases value with
  | null => trivial
  | bool value => trivial
  | number value => trivial
  | string value => trivial
  | array items => exact orderedItems_sortedItems items
  | object members => exact ordered_sortedMembers members .nil trivial
termination_by structural value

theorem orderedItems_sortedItems (items : List Value) : OrderedItems (sortedItems items) := by
  cases items with
  | nil => trivial
  | cons item rest => exact ⟨ordered_sorted item, orderedItems_sortedItems rest⟩
termination_by structural items

theorem ordered_sortedMembers (members : List (String × Value)) {found : List (String × Value)}
    (increasing : Increasing found) (ordered : OrderedMembers found) :
    (object (sortedMembers members found)).Ordered := by
  cases members with
  | nil => exact ⟨increasing, ordered⟩
  | cons member rest =>
    rcases member with ⟨key, value⟩
    rw [sortedMembers]
    exact ordered_sortedMembers rest (increasing.insertMember key value.sorted)
      (ordered.insertMember (ordered_sorted value))
termination_by structural members

end

mutual

/-- Where all objects are maps, sorting changes nothing. -/
theorem sorted_of_ordered (value : Value) (ordered : value.Ordered) : value.sorted = value := by
  cases value with
  | null => rfl
  | bool value => rfl
  | number value => rfl
  | string value => rfl
  | array items => rw [sorted, sortedItems_of_ordered items ordered]
  | object members =>
    have increasing : Increasing ([] ++ members) := ordered.1
    rw [sorted, sortedMembers_of_ordered members increasing ordered.2, List.nil_append]
termination_by structural value

theorem sortedItems_of_ordered (items : List Value) (ordered : OrderedItems items) :
    sortedItems items = items := by
  cases items with
  | nil => rfl
  | cons item rest =>
    rw [sortedItems, sorted_of_ordered item ordered.1, sortedItems_of_ordered rest ordered.2]
termination_by structural items

/-- Members above those found so far are put behind them, one after the other. -/
theorem sortedMembers_of_ordered (members : List (String × Value)) {found : List (String × Value)}
    (increasing : Increasing (found ++ members)) (ordered : OrderedMembers members) :
    sortedMembers members found = found ++ members := by
  cases members with
  | nil => rw [sortedMembers, List.append_nil]
  | cons member rest =>
    rcases member with ⟨key, value⟩
    have above : ∀ member ∈ found, member.1 < key := by
      intro member isMember
      exact (List.pairwise_append.mp increasing).2.2 member isMember (key, value) (.head _)
    rw [List.append_cons] at increasing ⊢
    rw [sortedMembers, sorted_of_ordered value ordered.1, insertMember_of_above above,
      sortedMembers_of_ordered rest increasing ordered.2]
termination_by structural members

end

/-- Sorting keeps exactly the values whose objects are maps. -/
theorem sorted_eq_self_iff : value.sorted = value ↔ value.Ordered :=
  ⟨fun same => same ▸ ordered_sorted value, sorted_of_ordered value⟩

/-- From the indented text of a value the value is read, with maps for its objects. -/
theorem parse_pretty (whole : value.Whole) (fits : value.depth ≤ Draft.nesting) :
    parse value.pretty = .ok value.sorted := by
  rw [parse, pretty, parse_chars _ .indented whole, Draft.keep_ofValue value whole fits]
  rfl

end Value

end Json
end SaveTree
