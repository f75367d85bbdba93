import SaveTree.Json.Draft
import SaveTree.Proofs.Json.Scalars

namespace SaveTree
namespace Json

/-!
# The texts of drafts

A draft without flaws has many texts: blanks may stand between any two of its parts, and its
strings may be spelled in many ways.  The grammar below gives all of these texts for drafts
whose numbers are integers, of any size.  Whichever of them is read, the same draft is
found.  Whoever reads a document can then be followed on drafts alone.

The reader's fuel is a bound on nested calls.  Twice the length of the text is
enough for it, since every call but one in three reads a character.
-/

/-- Blanks only. -/
def Blank (text : List Char) : Prop :=
  ∀ c ∈ text, Source.isBlank c = true

instance (text : List Char) : Decidable (Blank text) :=
  List.decidableBAll (Source.isBlank · = true) text

theorem blank_nil : Blank [] := by
  decide

/-- A key and its value, with a colon between them. -/
def memberText (key before after value : List Char) : List Char :=
  '"' :: (key ++ '"' :: (before ++ ':' :: (after ++ value)))

mutual

/-- The texts of a draft, from its first character to its last. -/
inductive Draft.Spelled : Draft → List Char → Prop where
  | null : Draft.Spelled .null "null".toList
  | true : Draft.Spelled (.bool true) "true".toList
  | false : Draft.Spelled (.bool false) "false".toList
  | number {literal : Literal} {text : List Char} (spelled : literal.Spelled text) :
      Draft.Spelled (.number literal) text
  | string {found : List Quoted.Piece} {text : List Char} (spelled : Quoted.Spelled found text) :
      Draft.Spelled (.string (Quoted.content found)) ('"' :: (text ++ ['"']))
  | emptyArray {gap : List Char} (blank : Blank gap) :
      Draft.Spelled (.array .done) ('[' :: (gap ++ [']']))
  | array {gap text ending : List Char} {item : Draft} {rest : Items} (blank : Blank gap)
      (first : item.Spelled text) (others : rest.Ends ending) :
      Draft.Spelled (.array (.cons item rest)) ('[' :: (gap ++ (text ++ ending)))
  | emptyObject {gap : List Char} (blank : Blank gap) :
      Draft.Spelled (.object .done) ('{' :: (gap ++ ['}']))
  | object {gap key before after text ending : List Char} {found : List Quoted.Piece}
      {value : Draft} {rest : Members} (blank : Blank gap) (name : Quoted.Spelled found key)
      (blankBefore : Blank before) (blankAfter : Blank after) (first : value.Spelled text)
      (others : rest.Ends ending) :
      Draft.Spelled (.object (.cons (Quoted.content found) value rest))
        ('{' :: (gap ++ memberText key before after (text ++ ending)))

/-- What may stand behind an item of an array, down to its bracket, if the given items
follow. -/
inductive Items.Ends : Items → List Char → Prop where
  | done {gap : List Char} (blank : Blank gap) : Items.Ends .done (gap ++ [']'])
  | cons {gap inner text ending : List Char} {item : Draft} {rest : Items} (blank : Blank gap)
      (blankInner : Blank inner) (first : item.Spelled text) (others : rest.Ends ending) :
      Items.Ends (.cons item rest) (gap ++ ',' :: (inner ++ (text ++ ending)))

/-- What may stand behind a member of an object, down to its brace, if the given members
follow. -/
inductive Members.Ends : Members → List Char → Prop where
  | done {gap : List Char} (blank : Blank gap) : Members.Ends .done (gap ++ ['}'])
  | cons {gap inner key before after text ending : List Char} {found : List Quoted.Piece}
      {value : Draft} {rest : Members} (blank : Blank gap) (blankInner : Blank inner)
      (name : Quoted.Spelled found key) (blankBefore : Blank before) (blankAfter : Blank after)
      (first : value.Spelled text) (others : rest.Ends ending) :
      Members.Ends (.cons (Quoted.content found) value rest)
        (gap ++ ',' :: (inner ++ memberText key before after (text ++ ending)))

end

namespace Draft

open Source

variable {draft : Draft} {items : Items} {members : Members} {text gap ending : List Char}
  {rest : Source} {fuel : Nat}

/-! ## Blanks and first characters -/

theorem skipBlanks_append (blank : Blank gap) (rest : Source) :
    skipBlanks (gap.map some ++ rest) = skipBlanks rest := by
  induction gap with
  | nil => rfl
  | cons c gap ih =>
    have first := blank c List.mem_cons_self
    simp only [List.map_cons, List.cons_append, skipBlanks, first, if_true]
    exact ih fun other member => blank other (List.mem_cons_of_mem c member)

/-- Blanks in front of a value make no difference. -/
theorem readValue_append (blank : Blank gap) (rest : Source) :
    readValue fuel (gap.map some ++ rest) = readValue fuel rest := by
  cases fuel with
  | zero => rfl
  | succ fuel => rw [readValue, readValue, skipBlanks_append blank]

/-- The first character of a value: neither blank nor a closing bracket. -/
def IsOpening (c : Char) : Prop :=
  isBlank c = false ∧ c ≠ ']' ∧ c ≠ '}'

instance (c : Char) : Decidable (IsOpening c) :=
  inferInstanceAs (Decidable (isBlank c = false ∧ c ≠ ']' ∧ c ≠ '}'))

theorem skipBlanks_of_isOpening {c : Char} (opening : IsOpening c) (rest : Source) :
    skipBlanks (some c :: rest) = some c :: rest := by
  simp [skipBlanks, opening.1]

theorem isOpening_of_isDigit {c : Char} (digit : c.isDigit = true) : IsOpening c := by
  refine ⟨?_, ?_, ?_⟩
  · simp only [isBlank, Bool.or_eq_false_iff, decide_eq_false_iff_not]
    refine ⟨⟨⟨?_, ?_⟩, ?_⟩, ?_⟩
    all_goals rintro rfl; cases digit
  all_goals rintro rfl; cases digit

/-- A number begins with a sign or a digit. -/
theorem exists_eq_cons_of_number {literal : Literal} (spelled : literal.Spelled text) :
    ∃ c others, text = c :: others ∧ (c = '-' ∨ c.isDigit = true) := by
  cases spelled with
  | minusZero => exact ⟨'-', ['0'], rfl, .inl rfl⟩
  | int value =>
    unfold Number.text
    by_cases negative : value < 0
    · exact ⟨'-', Nat.toDigits 10 value.natAbs, by simp only [negative, if_true], .inl rfl⟩
    · cases digits : Nat.toDigits 10 value.natAbs with
      | nil => exact absurd digits Nat.toDigits_ne_nil
      | cons c others =>
        refine ⟨c, others, by simp only [negative, if_false, digits], .inr ?_⟩
        exact Nat.isDigit_of_mem_toDigits (by decide) (by decide) (digits ▸ List.mem_cons_self)

theorem Spelled.exists_eq_cons (spelled : draft.Spelled text) :
    ∃ c others, text = c :: others ∧ IsOpening c := by
  cases spelled with
  | null => exact ⟨'n', "ull".toList, rfl, by decide⟩
  | true => exact ⟨'t', "rue".toList, rfl, by decide⟩
  | false => exact ⟨'f', "alse".toList, rfl, by decide⟩
  | number spelled =>
    rcases exists_eq_cons_of_number spelled with ⟨c, others, text_eq, minus | digit⟩
    · exact ⟨c, others, text_eq, minus ▸ by decide⟩
    · exact ⟨c, others, text_eq, isOpening_of_isDigit digit⟩
  | string spelled => exact ⟨'"', _, rfl, by decide⟩
  | emptyArray blank => exact ⟨'[', _, rfl, by decide⟩
  | array blank first others => exact ⟨'[', _, rfl, by decide⟩
  | emptyObject blank => exact ⟨'{', _, rfl, by decide⟩
  | object blank name blankBefore blankAfter first others => exact ⟨'{', _, rfl, by decide⟩

/-- A blank is no part of a number. -/
theorem endsNumber_append (blank : Blank gap) (ends : EndsNumber rest) :
    EndsNumber (gap.map some ++ rest) := by
  cases gap with
  | nil => exact ends
  | cons first others =>
    have isBlank := blank first List.mem_cons_self
    simp only [Source.isBlank, Bool.or_eq_true, decide_eq_true_iff] at isBlank
    rcases isBlank with ((rfl | rfl) | rfl) | rfl
    all_goals exact ⟨rfl, by decide, by decide, by decide⟩

/-- What stands behind an item is no part of a number. -/
theorem endsNumber_of_items (ends : items.Ends ending) (rest : Source) :
    EndsNumber (ending.map some ++ rest) := by
  cases ends with
  | done blank =>
    rw [List.map_append, List.append_assoc]
    exact endsNumber_append blank ⟨rfl, by decide, by decide, by decide⟩
  | cons blank blankInner first others =>
    rw [List.map_append, List.append_assoc]
    exact endsNumber_append blank ⟨rfl, by decide, by decide, by decide⟩

theorem endsNumber_of_members (ends : members.Ends ending) (rest : Source) :
    EndsNumber (ending.map some ++ rest) := by
  cases ends with
  | done blank =>
    rw [List.map_append, List.append_assoc]
    exact endsNumber_append blank ⟨rfl, by decide, by decide, by decide⟩
  | cons blank blankInner name blankBefore blankAfter first others =>
    rw [List.map_append, List.append_assoc]
    exact endsNumber_append blank ⟨rfl, by decide, by decide, by decide⟩

/-! ## What each reader does once it knows the next character -/

theorem readValue_number {c : Char} (start : c = '-' ∨ c.isDigit = true)
    (rest : Source) : readValue (fuel + 1) (some c :: rest) = readNumber (some c :: rest) := by
  have opening : IsOpening c := by
    rcases start with rfl | digit
    · decide
    · exact isOpening_of_isDigit digit
  have others : c ≠ '"' ∧ c ≠ '[' ∧ c ≠ '{' := by
    rcases start with rfl | digit
    · decide
    · refine ⟨?_, ?_, ?_⟩
      all_goals rintro rfl; cases digit
  rw [readValue, skipBlanks_of_isOpening opening]
  simp only [others, start, if_true, if_false]

theorem readValue_string (rest : Source) :
    readValue (fuel + 1) (some '"' :: rest) = readString rest := by
  rw [readValue, skipBlanks_of_isOpening (by decide)]
  rfl

theorem readValue_array (rest : Source) :
    readValue (fuel + 1) (some '[' :: rest) =
      (.array (readItems fuel true rest).1, (readItems fuel true rest).2) := by
  rw [readValue, skipBlanks_of_isOpening (by decide)]
  rfl

theorem readValue_object (rest : Source) :
    readValue (fuel + 1) (some '{' :: rest) =
      (.object (readMembers fuel true rest).1, (readMembers fuel true rest).2) := by
  rw [readValue, skipBlanks_of_isOpening (by decide)]
  rfl

theorem readItems_close {first : Bool} (blank : Blank gap) (rest : Source) :
    readItems (fuel + 1) first (gap.map some ++ some ']' :: rest) = (.done, rest) := by
  rw [readItems, skipBlanks_append blank]
  rfl

/-- Reads one item and those behind it. -/
def readItem (fuel : Nat) (source : Source) : Items × Source :=
  (.cons (readValue fuel source).1 (readItems fuel false (readValue fuel source).2).1,
    (readItems fuel false (readValue fuel source).2).2)

theorem readItems_first (blank : Blank gap) (spelled : draft.Spelled text) (rest : Source) :
    readItems (fuel + 1) true (gap.map some ++ (text.map some ++ rest)) =
      readItem fuel (text.map some ++ rest) := by
  rcases spelled.exists_eq_cons with ⟨c, others, rfl, opening⟩
  rw [readItems, skipBlanks_append blank, List.map_cons, List.cons_append,
    skipBlanks_of_isOpening opening]
  split
  · rename_i nothing
    cases nothing
  · rename_i closing
    exact absurd (Option.some.inj (List.cons.inj closing).1) opening.2.1
  · rfl

theorem readItems_comma {inner : List Char} (blank : Blank gap) (blankInner : Blank inner)
    (rest : Source) :
    readItems (fuel + 1) false (gap.map some ++ some ',' :: (inner.map some ++ rest)) =
      readItem fuel rest := by
  unfold readItem
  rw [← readValue_append blankInner, readItems, skipBlanks_append blank]
  rfl

theorem readMembers_close {first : Bool} (blank : Blank gap) (rest : Source) :
    readMembers (fuel + 1) first (gap.map some ++ some '}' :: rest) = (.done, rest) := by
  rw [readMembers, skipBlanks_append blank]
  rfl

theorem readMembers_first {key before after : List Char} (blank : Blank gap) (value : List Char)
    (rest : Source) :
    readMembers (fuel + 1) true
        (gap.map some ++ ((memberText key before after value).map some ++ rest)) =
      readMember fuel ((memberText key before after value).map some ++ rest) := by
  rw [readMembers, skipBlanks_append blank]
  rfl

theorem readMembers_comma {inner key before after : List Char} (blank : Blank gap)
    (blankInner : Blank inner) (value : List Char) (rest : Source) :
    readMembers (fuel + 1) false (gap.map some ++ some ',' :: (inner.map some ++
        ((memberText key before after value).map some ++ rest))) =
      readMember fuel ((memberText key before after value).map some ++ rest) := by
  have skipped :=
    skipBlanks_append blankInner ((memberText key before after value).map some ++ rest)
  rw [readMembers, skipBlanks_append blank]
  exact congrArg (readMember fuel) skipped

theorem readMember_text {found : List Quoted.Piece} {key before after : List Char}
    (name : Quoted.Spelled found key) (blankBefore : Blank before) (blankAfter : Blank after)
    (value : List Char) (rest : Source) :
    readMember (fuel + 1) ((memberText key before after value).map some ++ rest) =
      (.cons (Quoted.content found) (readValue fuel (value.map some ++ rest)).1
          (readMembers fuel false (readValue fuel (value.map some ++ rest)).2).1,
        (readMembers fuel false (readValue fuel (value.map some ++ rest)).2).2) := by
  have quoted := Quoted.read_spelled name
    (before.map some ++ some ':' :: (after.map some ++ (value.map some ++ rest)))
  have colon := skipBlanks_append blankBefore
    (some ':' :: (after.map some ++ (value.map some ++ rest)))
  simp only [memberText, List.map_cons, List.map_append, List.cons_append, List.append_assoc]
  rw [← readValue_append blankAfter, readMember, quoted]
  dsimp only
  rw [colon]
  rfl

/-! ## Texts are read as their drafts -/

mutual

theorem readValue_spelled (draft : Draft) {text : List Char} {rest : Source} {fuel : Nat}
    (spelled : draft.Spelled text) (ends : EndsNumber rest) (enough : 2 * text.length < fuel) :
    readValue fuel (text.map some ++ rest) = (draft, rest) := by
  obtain ⟨fuel, rfl⟩ : ∃ less, fuel = less + 1 := ⟨fuel - 1, by omega⟩
  cases spelled with
  | null => rfl
  | true => rfl
  | false => rfl
  | number spelled =>
    rcases exists_eq_cons_of_number spelled with ⟨c, others, rfl, start⟩
    have read := Literal.read_spelled spelled ends
    rw [List.map_cons, List.cons_append] at read ⊢
    rw [readValue_number start, readNumber, read]
  | string spelled =>
    have quoted := Quoted.read_spelled spelled rest
    simp only [List.map_cons, List.map_append, List.map_nil, List.cons_append, List.append_assoc,
      List.nil_append]
    rw [readValue_string, readString, quoted]
  | emptyArray blank =>
    simp only [List.length_cons, List.length_append, List.length_nil] at enough
    obtain ⟨fuel, rfl⟩ : ∃ less, fuel = less + 1 := ⟨fuel - 1, by omega⟩
    simp only [List.map_cons, List.map_append, List.map_nil, List.cons_append, List.append_assoc,
      List.nil_append]
    rw [readValue_array, readItems_close blank]
  | @array _ text ending item others blank first behind =>
    simp only [List.length_cons, List.length_append] at enough
    obtain ⟨fuel, rfl⟩ : ∃ less, fuel = less + 1 := ⟨fuel - 1, by omega⟩
    simp only [List.map_cons, List.map_append, List.cons_append, List.append_assoc]
    rw [readValue_array, readItems_first blank first, readItem,
      readValue_spelled item first (endsNumber_of_items behind rest) (by omega),
      readItems_spelled others behind (by omega)]
  | emptyObject blank =>
    simp only [List.length_cons, List.length_append, List.length_nil] at enough
    obtain ⟨fuel, rfl⟩ : ∃ less, fuel = less + 1 := ⟨fuel - 1, by omega⟩
    simp only [List.map_cons, List.map_append, List.map_nil, List.cons_append, List.append_assoc,
      List.nil_append]
    rw [readValue_object, readMembers_close blank]
  | @object _ key before after text ending _ value others blank name blankBefore blankAfter first
      behind =>
    simp only [memberText, List.length_cons, List.length_append] at enough
    obtain ⟨fuel, rfl⟩ : ∃ less, fuel = less + 2 := ⟨fuel - 2, by omega⟩
    rw [List.map_cons, List.cons_append, List.map_append, List.append_assoc, readValue_object,
      readMembers_first blank, readMember_text name blankBefore blankAfter, List.map_append,
      List.append_assoc,
      readValue_spelled value first (endsNumber_of_members behind rest) (by omega),
      readMembers_spelled others behind (by omega)]
termination_by structural draft

theorem readItems_spelled (items : Items) {ending : List Char} {rest : Source} {fuel : Nat}
    (ends : items.Ends ending) (enough : 2 * ending.length ≤ fuel) :
    readItems fuel false (ending.map some ++ rest) = (items, rest) := by
  cases ends with
  | done blank =>
    simp only [List.length_append, List.length_cons, List.length_nil] at enough
    obtain ⟨fuel, rfl⟩ : ∃ less, fuel = less + 1 := ⟨fuel - 1, by omega⟩
    simp only [List.map_append, List.map_cons, List.map_nil, List.append_assoc, List.cons_append,
      List.nil_append]
    rw [readItems_close blank]
  | @cons _ _ _ _ item others blank blankInner first behind =>
    simp only [List.length_append, List.length_cons] at enough
    obtain ⟨fuel, rfl⟩ : ∃ less, fuel = less + 1 := ⟨fuel - 1, by omega⟩
    simp only [List.map_append, List.map_cons, List.append_assoc, List.cons_append]
    rw [readItems_comma blank blankInner, readItem,
      readValue_spelled item first (endsNumber_of_items behind rest) (by omega),
      readItems_spelled others behind (by omega)]
termination_by structural items

theorem readMembers_spelled (members : Members) {ending : List Char} {rest : Source} {fuel : Nat}
    (ends : members.Ends ending) (enough : 2 * ending.length ≤ fuel) :
    readMembers fuel false (ending.map some ++ rest) = (members, rest) := by
  cases ends with
  | done blank =>
    simp only [List.length_append, List.length_cons, List.length_nil] at enough
    obtain ⟨fuel, rfl⟩ : ∃ less, fuel = less + 1 := ⟨fuel - 1, by omega⟩
    simp only [List.map_append, List.map_cons, List.map_nil, List.append_assoc, List.cons_append,
      List.nil_append]
    rw [readMembers_close blank]
  | @cons _ _ _ _ _ _ _ _ value others blank blankInner name blankBefore blankAfter first behind =>
    simp only [memberText, List.length_append, List.length_cons] at enough
    obtain ⟨fuel, rfl⟩ : ∃ less, fuel = less + 2 := ⟨fuel - 2, by omega⟩
    rw [List.map_append, List.map_cons, List.map_append, List.append_assoc, List.cons_append,
      List.append_assoc, readMembers_comma blank blankInner,
      readMember_text name blankBefore blankAfter, List.map_append, List.append_assoc,
      readValue_spelled value first (endsNumber_of_members behind rest) (by omega),
      readMembers_spelled others behind (by omega)]
termination_by structural members

end

end Draft

/-- A text that holds a draft and nothing else but blanks. -/
def Holds (text : List Char) (draft : Draft) : Prop :=
  ∃ before spelling after, text = before ++ (spelling ++ after) ∧
    Blank before ∧ Blank after ∧ draft.Spelled spelling

theorem Draft.Spelled.holds {draft : Draft} {text : List Char} (spelled : draft.Spelled text) :
    Holds text draft :=
  ⟨[], text, [], by rw [List.append_nil, List.nil_append], blank_nil, blank_nil, spelled⟩

/-- The text of a draft is read as the draft, and blanks are left. -/
theorem Holds.read {text : List Char} {draft : Draft} (holds : Holds text draft) :
    ∃ after, Blank after ∧ Draft.read (text.map some) = (draft, after.map some) := by
  rcases holds with ⟨before, spelling, after, rfl, blankBefore, blankAfter, spelled⟩
  have ends : Source.EndsNumber (after.map some ++ []) := Draft.endsNumber_append blankAfter trivial
  rw [List.append_nil] at ends
  refine ⟨after, blankAfter, ?_⟩
  rw [Draft.read, List.map_append, List.map_append, Draft.readValue_append blankBefore,
    Draft.readValue_spelled draft spelled ends]
  simp only [List.length_append, List.length_map]
  omega

/-- To read a text is to look at its draft. -/
theorem parse_of_holds {α : Type} (decode : Draft → Except Error α) {text : List Char}
    {draft : Draft} (holds : Holds text draft) :
    parse decode (.ofString (String.ofList text)) = decode draft := by
  rcases holds.read with ⟨after, blank, read⟩
  have nothing := Draft.skipBlanks_append blank []
  rw [List.append_nil] at nothing
  unfold parse Source.ofString
  rw [String.toList_ofList, read]
  dsimp only
  rw [nothing]
  cases decode draft <;> rfl

end Json
end SaveTree
