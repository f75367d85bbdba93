import SaveTree.Proofs.Json.Grammar

namespace SaveTree
namespace Json

/-!
# Values are read back

A value with whole numbers is written in either layout and read as a draft again.
The draft is the value's own: `Draft.ofValue` says which one it is, without a
text.  Both layouts are among the texts that the grammar has for this draft.
-/

namespace Value

mutual

/-- Every number is an integer of 64 bits, with or without sign. -/
def Whole : Value → Prop
  | null | bool _ | string _ => True
  | number (.int value) => -0x8000000000000000 ≤ value ∧ value < 0x10000000000000000
  | number (.float _) => False
  | array items => WholeItems items
  | object members => WholeMembers members
termination_by structural value => value

/-- `Whole` for every item. -/
def WholeItems : List Value → Prop
  | [] => True
  | item :: rest => item.Whole ∧ WholeItems rest
termination_by structural items => items

/-- `Whole` for the value of every member. -/
def WholeMembers : List (String × Value) → Prop
  | [] => True
  | (_, value) :: rest => value.Whole ∧ WholeMembers rest
termination_by structural members => members

end

mutual

/-- How deep arrays and objects nest. -/
def depth : Value → Nat
  | null | bool _ | number _ | string _ => 0
  | array items => depthItems items + 1
  | object members => depthMembers members + 1
termination_by structural value => value

/-- The depth of the deepest item. -/
def depthItems : List Value → Nat
  | [] => 0
  | item :: rest => max item.depth (depthItems rest)
termination_by structural items => items

/-- The depth of the deepest member. -/
def depthMembers : List (String × Value) → Nat
  | [] => 0
  | (_, value) :: rest => max value.depth (depthMembers rest)
termination_by structural members => members

end

end Value

namespace Draft

mutual

/-- The draft of a value. -/
def ofValue : Value → Draft
  | .null => .null
  | .bool value => .bool value
  | .number value => (readNumber (value.text.map some)).1
  | .string value => .string (.ok value)
  | .array items => .array (ofItems items)
  | .object members => .object (ofMembers members)
termination_by structural value => value

/-- The drafts of items. -/
def ofItems : List Value → Items
  | [] => .done
  | item :: rest => .cons (ofValue item) (ofItems rest)
termination_by structural items => items

/-- The drafts of members. -/
def ofMembers : List (String × Value) → Members
  | [] => .done
  | (key, value) :: rest => .cons (.ok key) (ofValue value) (ofMembers rest)
termination_by structural members => members

end

theorem ofValue_int (value : Int) : ofValue (.number (.int value)) = .number (.ofInt value) := by
  have read : Literal.read ((Number.int value).text.map some ++ []) = .ok (.ofInt value, []) :=
    Literal.read_text value trivial
  rw [List.append_nil] at read
  simp only [ofValue, readNumber, read]

/-! ## Drafts are kept as their values -/

mutual

theorem keep_ofValue (value : Value) {room : Nat} (whole : value.Whole)
    (fits : value.depth ≤ room) : keep room (ofValue value) = .ok value := by
  cases value with
  | null => rfl
  | bool value => rfl
  | string value => rfl
  | number value =>
    cases value with
    | float value => exact absurd whole id
    | int value =>
      rw [ofValue_int, keep, Literal.number?_ofInt whole.1 whole.2]
  | array items =>
    cases room with
    | zero => simp [Value.depth] at fits
    | succ room =>
      rw [ofValue, keep, keepItems_ofItems items whole (Nat.le_of_succ_le_succ fits)]
      rfl
  | object members =>
    cases room with
    | zero => simp [Value.depth] at fits
    | succ room =>
      rw [ofValue, keep, keepMembers_ofMembers members whole (Nat.le_of_succ_le_succ fits)]
      rfl
termination_by structural value

theorem keepItems_ofItems (items : List Value) {room : Nat} (whole : Value.WholeItems items)
    (fits : Value.depthItems items ≤ room) : keepItems room (ofItems items) = .ok items := by
  cases items with
  | nil => rfl
  | cons item rest =>
    rw [Value.depthItems, Nat.max_le] at fits
    rw [ofItems, keepItems, keep_ofValue item whole.1 fits.1, keepItems_ofItems rest whole.2 fits.2]
    rfl
termination_by structural items

theorem keepMembers_ofMembers (members : List (String × Value)) {room : Nat}
    (whole : Value.WholeMembers members) (fits : Value.depthMembers members ≤ room) :
    keepMembers room (ofMembers members) = .ok members := by
  cases members with
  | nil => rfl
  | cons member rest =>
    rcases member with ⟨key, value⟩
    rw [Value.depthMembers, Nat.max_le] at fits
    rw [ofMembers, keepMembers, keep_ofValue value whole.1 fits.1,
      keepMembers_ofMembers rest whole.2 fits.2]
    rfl
termination_by structural members

end

/-! ## Values are written as texts of their drafts -/

open Value

theorem blank_lineStart (layout : Layout) (level : Nat) : Blank (layout.lineStart level) := by
  intro c member
  cases layout with
  | compact => cases member
  | indented =>
    rcases List.mem_cons.mp member with rfl | padding
    · rfl
    · rw [(List.mem_replicate.mp padding).2]
      rfl

/-- The blanks behind the colon of a member. -/
def colonGap : Layout → List Char
  | .compact => []
  | .indented => [' ']

theorem blank_colonGap (layout : Layout) : Blank (colonGap layout) := by
  cases layout <;> decide

/-- The items after the first, up to the closing bracket. -/
def itemsEnd (layout : Layout) (level inner : Nat) (items : List Value) : List Char :=
  itemsChars layout inner items ++ (layout.lineStart level ++ [']'])

/-- The members after the first, up to the closing brace. -/
def membersEnd (layout : Layout) (level inner : Nat) (members : List (String × Value)) :
    List Char :=
  membersChars layout inner members ++ (layout.lineStart level ++ ['}'])

section Ends

variable (layout : Layout) (level inner : Nat) (item value : Value) (items : List Value)
  (key : String) (members : List (String × Value))

theorem chars_array : chars layout level (.array (item :: items)) =
    '[' :: (layout.lineStart (level + 1) ++ (item.chars layout (level + 1) ++
      itemsEnd layout level (level + 1) items)) := by
  simp [chars, itemsEnd]

theorem itemsEnd_cons : itemsEnd layout level inner (item :: items) =
    [] ++ ',' :: (layout.lineStart inner ++
      (item.chars layout inner ++ itemsEnd layout level inner items)) := by
  simp [itemsEnd, itemsChars]

theorem chars_object : chars layout level (.object ((key, value) :: members)) =
    '{' :: (layout.lineStart (level + 1) ++ memberText (key.toList.flatMap Quoted.spell) []
      (colonGap layout) (value.chars layout (level + 1) ++
        membersEnd layout level (level + 1) members)) := by
  cases layout <;> simp [chars, membersEnd, memberText, Quoted.text, Layout.colon, colonGap]

theorem membersEnd_cons : membersEnd layout level inner ((key, value) :: members) =
    [] ++ ',' :: (layout.lineStart inner ++ memberText (key.toList.flatMap Quoted.spell) []
      (colonGap layout) (value.chars layout inner ++ membersEnd layout level inner members)) := by
  cases layout <;> simp [membersChars, membersEnd, memberText, Quoted.text, Layout.colon, colonGap]

end Ends

theorem spelled_text (content : String) :
    (Draft.string (.ok content)).Spelled (Quoted.text content) := by
  rw [← Quoted.content_pieceOf]
  exact .string (Quoted.spelled_flatMap_spell content.toList)

section Named

variable {gap inner before after text ending : List Char} {value : Draft} {rest : Members}

/-- An object whose first key is written as strings are. -/
theorem spelled_object (key : String) (blank : Blank gap) (blankBefore : Blank before)
    (blankAfter : Blank after) (first : value.Spelled text) (others : rest.Ends ending) :
    (Draft.object (.cons (.ok key) value rest)).Spelled
      ('{' :: (gap ++
        memberText (key.toList.flatMap Quoted.spell) before after (text ++ ending))) := by
  rw [← Quoted.content_pieceOf]
  exact .object blank (Quoted.spelled_flatMap_spell key.toList) blankBefore blankAfter first others

theorem ends_cons (key : String) (blank : Blank gap) (blankInner : Blank inner)
    (blankBefore : Blank before) (blankAfter : Blank after) (first : value.Spelled text)
    (others : rest.Ends ending) :
    (Members.cons (.ok key) value rest).Ends (gap ++ ',' :: (inner ++
      memberText (key.toList.flatMap Quoted.spell) before after (text ++ ending))) := by
  rw [← Quoted.content_pieceOf]
  exact .cons blank blankInner (Quoted.spelled_flatMap_spell key.toList) blankBefore blankAfter
    first others

end Named

mutual

theorem spelled_chars (value : Value) (layout : Layout) (level : Nat) (whole : value.Whole) :
    (ofValue value).Spelled (value.chars layout level) := by
  cases value with
  | null => exact .null
  | bool value =>
    cases value with
    | true => exact .true
    | false => exact .false
  | string value => exact spelled_text value
  | number value =>
    cases value with
    | float value => exact absurd whole id
    | int value =>
      rw [ofValue_int]
      exact .number (.int value)
  | array items =>
    cases items with
    | nil => exact .emptyArray blank_nil
    | cons item items =>
      rw [chars_array]
      exact .array (blank_lineStart layout (level + 1))
        (spelled_chars item layout (level + 1) whole.1)
        (ends_itemsEnd items layout level (level + 1) whole.2)
  | object members =>
    cases members with
    | nil => exact .emptyObject blank_nil
    | cons member members =>
      rcases member with ⟨key, value⟩
      rw [chars_object]
      exact spelled_object key (blank_lineStart layout (level + 1)) blank_nil
        (blank_colonGap layout) (spelled_chars value layout (level + 1) whole.1)
        (ends_membersEnd members layout level (level + 1) whole.2)
termination_by structural value

theorem ends_itemsEnd (items : List Value) (layout : Layout) (level inner : Nat)
    (whole : WholeItems items) : (ofItems items).Ends (itemsEnd layout level inner items) := by
  cases items with
  | nil => exact .done (blank_lineStart layout level)
  | cons item items =>
    rw [itemsEnd_cons]
    exact .cons blank_nil (blank_lineStart layout inner) (spelled_chars item layout inner whole.1)
      (ends_itemsEnd items layout level inner whole.2)
termination_by structural items

theorem ends_membersEnd (members : List (String × Value)) (layout : Layout) (level inner : Nat)
    (whole : WholeMembers members) :
    (ofMembers members).Ends (membersEnd layout level inner members) := by
  cases members with
  | nil => exact .done (blank_lineStart layout level)
  | cons member members =>
    rcases member with ⟨key, value⟩
    rw [membersEnd_cons]
    exact ends_cons key blank_nil (blank_lineStart layout inner) blank_nil (blank_colonGap layout)
      (spelled_chars value layout inner whole.1)
      (ends_membersEnd members layout level inner whole.2)
termination_by structural members

end

end Draft

/-- To read the text of a value is to look at its draft. -/
theorem parse_chars {α : Type} (decode : Draft → Except Error α) {value : Value}
    (layout : Value.Layout) (whole : value.Whole) :
    parse decode (.ofString (String.ofList (value.chars layout 0))) =
      decode (Draft.ofValue value) :=
  parse_of_holds decode (Draft.spelled_chars value layout 0 whole).holds

/-- The bytes of a text spell it. -/
theorem ofBytes_toUTF8 (text : String) : Source.ofBytes text.toUTF8 = Source.ofString text := by
  have valid : text.toUTF8.IsValidUTF8 := text.isValidUTF8
  unfold Source.ofBytes String.fromUTF8?
  rw [dif_pos valid]
  rfl

end Json
end SaveTree
