import SaveTree.Proofs.Json.RoundTrip
import SaveTree.Proofs.Store.Catalog
import SaveTree.Store.Document

namespace SaveTree

/-!
# Documents are read back

The document of a catalog decodes to a catalog that finds the same node under
every path.  Each shape is followed from its value: content, node, entry and the
document as a whole.  An entry keeps its content as a value of its own, so that
the room for nesting has to be counted there.
-/

open Json

namespace Content

/-- The bytes in their order. -/
theorem toList_loop (bytes : ByteArray) (index : Nat) (found : List UInt8) :
    ByteArray.toList.loop bytes index found =
      found.reverse ++ bytes.data.toList.drop index := by
  induction index, found using ByteArray.toList.loop.induct bytes with
  | case1 index found inside ih =>
    have listed : index < bytes.data.toList.length := inside
    have byte : bytes.get! index = bytes.data.toList[index] := by
      have same : bytes.get! index = bytes.data[index]! := rfl
      rw [same, getElem!_pos bytes.data index inside, Array.getElem_toList]
    rw [ByteArray.toList.loop, if_pos inside, ih, List.reverse_cons, List.append_assoc, byte,
      List.drop_eq_getElem_cons listed]
    rfl
  | case2 index found past =>
    have none : bytes.data.toList.length ≤ index := Nat.le_of_not_lt past
    rw [ByteArray.toList.loop, if_neg past, List.drop_eq_nil_of_le none, List.append_nil]

theorem toByteArray_toList (bytes : ByteArray) : bytes.toList.toByteArray = bytes := by
  have listed : bytes.toList = bytes.data.toList := toList_loop bytes 0 []
  apply ByteArray.ext
  rw [List.data_toByteArray, listed]

theorem byte?_nat (byte : UInt8) : byte? (.nat byte.toNat) = some byte := by
  have small : byte.toNat < 256 := byte.toNat_lt
  simp [byte?, Value.nat, Number.below?, small]

theorem mapM_byte? (bytes : List UInt8) :
    (bytes.map fun byte => Value.nat byte.toNat).mapM byte? = some bytes := by
  induction bytes with
  | nil => rfl
  | cons byte bytes ih => simp [byte?_nat, ih]

/-- Content is read back. -/
theorem ofValue_toValue (content : Content) : ofValue content.toValue = .ok content := by
  cases content with
  | text value => rfl
  | bytes value =>
    have found := mapM_byte? value.toList
    have parts : ofValue (bytes value).toValue =
        ofParts (some .bytes) (.array (value.toList.map fun byte => Value.nat byte.toNat)) := rfl
    rw [parts, ofParts, found]
    dsimp only
    rw [toByteArray_toList]

theorem whole_nat {value : Nat} (small : value < 0x10000000000000000) : (Value.nat value).Whole := by
  constructor <;> omega

theorem wholeItems_bytes (bytes : List UInt8) :
    Value.WholeItems (bytes.map fun byte => Value.nat byte.toNat) ∧
      Value.depthItems (bytes.map fun byte => Value.nat byte.toNat) = 0 := by
  induction bytes with
  | nil => exact ⟨trivial, rfl⟩
  | cons byte bytes ih =>
    have small : byte.toNat < 256 := byte.toNat_lt
    exact ⟨⟨whole_nat (by omega), ih.1⟩, by simpa [Value.depthItems, Value.nat, Value.depth] using ih.2⟩

theorem whole_toValue (content : Content) :
    content.toValue.Whole ∧ content.toValue.depth ≤ 2 := by
  cases content with
  | text value => exact ⟨⟨trivial, trivial, trivial⟩, Nat.le_succ 1⟩
  | bytes value =>
    have items := wholeItems_bytes value.toList
    refine ⟨⟨trivial, items.1, trivial⟩, ?_⟩
    simp [toValue, Value.depth, Value.depthMembers, items.2]

end Content

namespace Node

/-- A node is read back from its members. -/
theorem ofMembers_toMembers (node : Node) : ofMembers node.toMembers = .ok node := by
  cases node with
  | directory => rfl
  | file content =>
    have read := Content.ofValue_toValue content
    have kind : ofMembers (file content).toMembers =
        (do return file (← Content.ofValue content.toValue)) := rfl
    rw [kind, read]
    rfl

theorem whole_toMembers (node : Node) :
    Value.WholeMembers node.toMembers ∧ Value.depthMembers node.toMembers ≤ 2 := by
  cases node with
  | directory => exact ⟨⟨trivial, trivial⟩, by decide⟩
  | file content =>
    have inner := Content.whole_toValue content
    refine ⟨⟨trivial, inner.1, trivial⟩, ?_⟩
    simpa [toMembers, Value.depthMembers, Value.depth] using inner.2

theorem ne_path_of_mem_toMembers (node : Node) : ∀ member ∈ node.toMembers, member.1 ≠ "path" := by
  cases node with
  | directory => decide
  | file content => simp [toMembers]

end Node

namespace Entry

/-- Members other than the path are kept as they are. -/
theorem ofMembers_others {room : Nat} {members : List (String × Value)} (path : Option String)
    (whole : Value.WholeMembers members) (fits : Value.depthMembers members ≤ room)
    (others : ∀ member ∈ members, member.1 ≠ "path") :
    ofMembers room (Draft.ofMembers members) path = .ok (path, members) := by
  induction members with
  | nil => rfl
  | cons member members ih =>
    rcases member with ⟨key, value⟩
    have different : key ≠ "path" := others (key, value) List.mem_cons_self
    rw [Value.depthMembers, Nat.max_le] at fits
    have later := ih whole.2 fits.2 fun other behind => others other (List.mem_cons_of_mem _ behind)
    have kept := Draft.keep_ofValue value whole.1 fits.1
    rw [Draft.ofMembers, ofMembers]
    simp only [different, if_false, kept, later, bind, Except.bind]

/-- An entry is read back from its draft. -/
theorem ofDraft_ofValue (entry : Entry) {room : Nat} (deep : 3 ≤ room) :
    ofDraft room (Draft.ofValue entry.toValue) = .ok entry := by
  have inner := Node.whole_toMembers entry.node
  have others : ofMembers (room - 1) (Draft.ofMembers entry.node.toMembers) (some entry.path) = _ :=
    ofMembers_others (some entry.path) inner.1 (by omega)
      (Node.ne_path_of_mem_toMembers entry.node)
  have node := Node.ofMembers_toMembers entry.node
  have members : ofMembers (room - 1)
      (Draft.ofMembers (("path", .string entry.path) :: entry.node.toMembers)) none =
      .ok (some entry.path, entry.node.toMembers) := by
    rw [← others]
    rfl
  rw [toValue, Draft.ofValue, ofDraft, members]
  simp only [bind, Except.bind, node]
  rfl

theorem whole_toValue (entry : Entry) : entry.toValue.Whole :=
  ⟨trivial, (Node.whole_toMembers entry.node).1⟩

end Entry

namespace Json
namespace Record

variable {σ : Type}

/-- A member that is a field and was not set is read into the state. -/
theorem ofMembers_field {fields : List (Field σ)} {field : Field σ} {key : String} {value : Draft}
    {rest : Members} {state next : σ} (known : fields.find? (·.name = key) = some field)
    (unset : field.isSet state = false) (read : field.read value state = .ok next) :
    ofMembers fields (.cons (.ok key) value rest) state = ofMembers fields rest next := by
  rw [ofMembers]
  simp only [bind, Except.bind, known, unset, read]
  rfl

end Record
end Json

namespace Document

/-- A document that lists entries in any order, some perhaps under one path. -/
def listing (entries : List Entry) : Value :=
  .object [
    ("version", .nat version),
    ("entries", .array (entries.map Entry.toValue))]

theorem whole_listing (entries : List Entry) : (listing entries).Whole := by
  have items : Value.WholeItems (entries.map Entry.toValue) := by
    induction entries with
    | nil => trivial
    | cons entry entries ih => exact ⟨entry.whole_toValue, ih⟩
  exact ⟨⟨by decide, by decide⟩, items, trivial⟩

theorem asList_entries (entries : List Entry) {room : Nat} (deep : 3 ≤ room) :
    Draft.asList (Entry.ofDraft room) (Draft.ofValue (.array (entries.map Entry.toValue))) =
      .ok entries := by
  have items : Draft.asList.go (Entry.ofDraft room) (Draft.ofItems (entries.map Entry.toValue)) =
      .ok entries := by
    induction entries with
    | nil => rfl
    | cons entry entries ih =>
      rw [List.map_cons, Draft.ofItems, Draft.asList.go, Entry.ofDraft_ofValue entry deep, ih]
      rfl
  rw [Draft.ofValue, Draft.asList, items]

theorem ofDraft_listing (entries : List Entry) :
    ofDraft (Draft.ofValue (listing entries)) = .ok (version, entries) := by
  have items : Draft.asList (Entry.ofDraft (Draft.nesting - 2))
      (Draft.ofValue (.array (entries.map Entry.toValue))) = _ :=
    asList_entries entries (by decide)
  have number : Draft.asNat UInt32.size (Draft.ofValue (.nat version)) = .ok version := by
    rw [Value.nat, Draft.ofValue_int]
    rfl
  have members : Record.read fields {} (Draft.ofValue (listing entries)) =
      .ok ⟨some version, some entries⟩ := by
    let numbered : Partial := { version := some version }
    apply Eq.trans (b := Record.ofMembers fields
      (Draft.ofMembers [("entries", .array (entries.map Entry.toValue))]) numbered)
    · apply Record.ofMembers_field rfl rfl
      dsimp only
      rw [number]
      rfl
    · apply Record.ofMembers_field rfl rfl
      dsimp only
      rw [items]
      rfl
  rw [ofDraft, members]
  rfl

/-- The entries of a document are read in their order, whatever its layout. -/
theorem parse_listing (layout : Value.Layout) (entries : List Entry) :
    Json.parse ofDraft (.ofBytes (String.ofList ((listing entries).chars layout 0)).toUTF8) =
      .ok (version, entries) := by
  rw [ofBytes_toUTF8, parse_chars ofDraft layout (whole_listing entries), ofDraft_listing]

/-- The entries of a catalog make up the catalog again, in whatever order. -/
theorem get?_ofEntries_sorted (catalog : Catalog) (key : String) :
    (Catalog.ofEntries catalog.sorted).get? key = catalog.get? key := by
  have listed : ∀ entry, entry ∈ catalog.sorted ↔ catalog.get? entry.path = some entry.node := by
    intro entry
    rw [Catalog.sorted, List.mem_mergeSort, Catalog.mem_entries_iff]
  cases found : catalog.get? key with
  | none =>
    have absent : ∀ entry ∈ catalog.sorted, entry.path ≠ key := by
      rintro entry member rfl
      rw [(listed entry).mp member] at found
      cases found
    rw [Catalog.ofEntries, Catalog.get?_putAll_of_not_mem absent]
    rfl
  | some node =>
    apply Catalog.get?_putAll_of_agree
    · exact ⟨⟨key, node⟩, (listed ⟨key, node⟩).mpr found, rfl⟩
    · rintro entry member rfl
      rw [(listed entry).mp member] at found
      exact Option.some.inj found

/-- A catalog's document decodes to the same look-ups. -/
theorem decode_encode (path : String) (catalog : Catalog) :
    ∃ read, decode path (encode catalog) = .ok read ∧
      ∀ key, Table.get? read key = catalog.get? key := by
  refine ⟨.ofEntries catalog.sorted, ?_, get?_ofEntries_sorted catalog⟩
  have parsed : Json.parse ofDraft (.ofBytes (encode catalog)) = .ok (version, catalog.sorted) :=
    parse_listing .compact catalog.sorted
  rw [decode, parsed]
  rfl

end Document

end SaveTree
