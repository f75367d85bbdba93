import SaveTree.Json.Value

namespace SaveTree
namespace Json

/-!
# Strings and integers are read back

A string has many texts: a character stands for itself, or it is written by a short
escape or by its 16-bit units.  Each of them is taken into the same pieces.  The text that
is written is one of them, and its pieces are the same characters again, whichever they are.
A control character without a short escape comes back as a unit that needs no partner.

The digits of an integer are read up to the first character that cannot belong to
a number.  Behind a value in a document stands a comma, a bracket or a blank, so
that nothing of what follows is taken for a digit.
-/

namespace Quoted

/-- The spellings of one piece of a string. -/
inductive Piece.Spelled : Piece → List Char → Prop where
  | char {c : Char} (notQuote : c ≠ '"') (notBackslash : c ≠ '\\') (visible : ¬c.toNat < 0x20) :
      Piece.Spelled (.char c) [c]
  | escape {letter c : Char} (short : unescape? letter = some c) :
      Piece.Spelled (.char c) ['\\', letter]
  | unit {a b c d : Char} {value : Nat} (digits : unit? a b c d = some value) :
      Piece.Spelled (.unit value) ['\\', 'u', a, b, c, d]

/-- The spellings of the pieces between two quotes. -/
inductive Spelled : List Piece → List Char → Prop where
  | nil : Spelled [] []
  | cons {piece : Piece} {rest : List Piece} {text others : List Char} (first : piece.Spelled text)
      (behind : Spelled rest others) : Spelled (piece :: rest) (text ++ others)

/-- What the pieces spell, if they spell characters. -/
def content (found : List Piece) : Except Error String :=
  (characters none found).map String.ofList

theorem pieces_of_spelled {piece : Piece} {text : List Char} (spelled : piece.Spelled text)
    (rest : Source) : pieces (text.map some ++ rest) = push piece (pieces rest) := by
  cases spelled with
  | char notQuote notBackslash visible =>
    simp only [List.map_cons, List.map_nil, List.cons_append, List.nil_append]
    rw [pieces.eq_def]
    simp [notQuote, notBackslash, visible]
  | @escape letter c short =>
    have notUnit : letter ≠ 'u' := by
      rintro rfl
      cases short
    simp only [List.map_cons, List.map_nil, List.cons_append, List.nil_append]
    rw [pieces.eq_def]
    simp [notUnit, short]
  | unit digits => simp [pieces, digits]

/-- A string is read behind its opening quote. -/
theorem read_spelled {found : List Piece} {text : List Char} (spelled : Spelled found text)
    (rest : Source) : read (text.map some ++ some '"' :: rest) = .ok (content found, rest) := by
  have cut : pieces (text.map some ++ some '"' :: rest) = (found, .ok rest) := by
    induction spelled with
    | nil =>
      rw [List.map_nil, List.nil_append, pieces.eq_def]
      rfl
    | cons first behind ih =>
      rw [List.map_append, List.append_assoc, pieces_of_spelled first, ih]
      rfl
  rw [read, cut]
  rfl

/-- The piece that a spelled character is read as. -/
def pieceOf (c : Char) : Piece :=
  if escape? c = none ∧ c.toNat < 0x20 then .unit c.toNat else .char c

/-- A short escape stands for the character that it was made from. -/
theorem unescape?_of_escape? {c letter : Char} (escaped : escape? c = some letter) :
    unescape? letter = some c := by
  unfold escape? at escaped
  split at escaped
  all_goals cases escaped
  all_goals rfl

/-- What is not escaped is no quote and no backslash. -/
theorem ne_of_escape?_eq_none {c : Char} (plain : escape? c = none) : c ≠ '"' ∧ c ≠ '\\' := by
  constructor
  · rintro rfl
    cases plain
  · rintro rfl
    cases plain

theorem value?_digit : ∀ value < 16, Hex.value? (Hex.digit value) = some value := by
  decide

theorem unit?_control {c : Char} (control : c.toNat < 0x20) :
    unit? (some '0') (some '0') (some (Hex.digit (c.toNat / 16))) (some (Hex.digit (c.toNat % 16))) =
      some c.toNat := by
  have zero : Hex.value? '0' = some 0 := by decide
  have high := value?_digit (c.toNat / 16) (by omega)
  have low := value?_digit (c.toNat % 16) (by omega)
  simp only [unit?, zero, high, low, Option.bind_eq_bind, Option.bind_some]
  congr 1
  omega

/-- Every character is spelled as a piece that stands for it. -/
theorem spelled_spell (c : Char) : (pieceOf c).Spelled (spell c) := by
  unfold spell pieceOf
  cases escaped : escape? c with
  | some letter => exact .escape (unescape?_of_escape? escaped)
  | none =>
    rcases ne_of_escape?_eq_none escaped with ⟨notQuote, notBackslash⟩
    by_cases control : c.toNat < 0x20
    · simp only [control, and_self, if_true]
      exact .unit (unit?_control control)
    · simp only [control, and_false, if_false]
      exact .char notQuote notBackslash control

theorem spelled_flatMap_spell (content : List Char) :
    Spelled (content.map pieceOf) (content.flatMap spell) := by
  induction content with
  | nil => exact .nil
  | cons c rest ih => exact .cons (spelled_spell c) ih

theorem characters_pieceOf (content : List Char) :
    characters none (content.map pieceOf) = .ok content := by
  induction content with
  | nil => rfl
  | cons c content ih =>
    rw [List.map_cons, pieceOf]
    split
    · rename_i control
      have single : isTrailing c.toNat = false ∧ isLeading c.toNat = false := by
        simp only [isTrailing, isLeading, Bool.and_eq_false_iff, decide_eq_false_iff_not]
        omega
      rw [characters.eq_def]
      simp only [single, ih, Char.ofNat_toNat]
      rfl
    · rw [characters, ih]
      rfl

/-- The pieces of a string's own text spell the string. -/
theorem content_pieceOf (text : String) : content (text.toList.map pieceOf) = .ok text := by
  rw [content, characters_pieceOf, Except.map, String.ofList_toList]

end Quoted

namespace Source

/-- Nothing at the front can go on with a number. -/
def EndsNumber : Source → Prop
  | some c :: _ => c.isDigit = false ∧ c ≠ '.' ∧ c ≠ 'e' ∧ c ≠ 'E'
  | _ => True

theorem takeDigits_of_endsNumber {rest : Source} (ends : EndsNumber rest) :
    takeDigits rest = ([], rest) := by
  cases rest with
  | nil => rfl
  | cons first rest =>
    cases first with
    | none => rfl
    | some c => simp [takeDigits, ends.1]

/-- The value of a digit. -/
def digitValue (c : Char) : Nat :=
  c.toNat - '0'.toNat

theorem takeDigits_append {digits : List Char} {rest : Source}
    (areDigits : ∀ c ∈ digits, c.isDigit = true) (ends : EndsNumber rest) :
    takeDigits (digits.map some ++ rest) = (digits.map digitValue, rest) := by
  induction digits with
  | nil => exact takeDigits_of_endsNumber ends
  | cons c digits ih =>
    have later := ih fun other member => areDigits other (List.mem_cons_of_mem c member)
    have first := areDigits c List.mem_cons_self
    simp only [List.map_cons, List.cons_append, takeDigits, first, if_true, later, digitValue]

end Source

namespace Literal

open Source

/-- The digits of a number by value. -/
def digitsOf (value : Nat) : List Nat :=
  (Nat.toDigits 10 value).map digitValue

/-- How an integer is written. -/
def ofInt (value : Int) : Literal where
  negative := decide (value < 0)
  whole := digitsOf value.natAbs
  fraction := []
  exponent := none

theorem valueOf_digitsOf (value : Nat) : valueOf (digitsOf value) = value := by
  have spelled : Nat.ofDigitChars 10 (Nat.toDigits 10 value) 0 = value :=
    Nat.ofDigitChars_ten_toDigits
  rw [Nat.ofDigitChars_eq_foldl] at spelled
  unfold valueOf digitsOf
  rw [List.foldl_map]
  simpa [digitValue, Nat.mul_comm] using spelled

/-- Only zero begins with a zero. -/
theorem digitsOf_ne_zero_cons (value : Nat) {first : Nat} {rest : List Nat} :
    digitsOf value ≠ 0 :: first :: rest := by
  induction value using Nat.strongRecOn generalizing first rest with
  | ind value ih =>
    unfold digitsOf
    by_cases single : value < 10
    · rw [Nat.toDigits_of_lt_base single]
      simp
    · rw [Nat.toDigits_of_base_le (by decide) (by omega), List.map_append]
      intro same
      cases digits : digitsOf (value / 10) with
      | nil => simp [digitsOf] at digits
      | cons head tail =>
        have headZero : head = 0 := by
          unfold digitsOf at digits
          rw [digits] at same
          exact (List.cons.inj same).1
        subst headZero
        cases tail with
        | cons second tail => exact ih (value / 10) (by omega) digits
        | nil =>
          -- a single zero digit is the number zero, which no quotient here is
          have zero := valueOf_digitsOf (value / 10)
          rw [digits] at zero
          simp [valueOf] at zero
          omega

theorem someDigits_digits {digits : List Char} {rest : Source} (nonempty : digits ≠ [])
    (areDigits : ∀ c ∈ digits, c.isDigit = true) (ends : EndsNumber rest) :
    someDigits (digits.map some ++ rest) = .ok (digits.map digitValue, rest) := by
  unfold someDigits
  rw [takeDigits_append areDigits ends]
  cases digits with
  | nil => exact absurd rfl nonempty
  | cons c digits => rfl

theorem readWhole_toDigits (value : Nat) {rest : Source} (ends : EndsNumber rest) :
    readWhole ((Nat.toDigits 10 value).map some ++ rest) = .ok (digitsOf value, rest) := by
  have areDigits : ∀ c ∈ Nat.toDigits 10 value, c.isDigit = true := fun c member =>
    Nat.isDigit_of_mem_toDigits (by decide) (by decide) member
  unfold readWhole
  rw [someDigits_digits Nat.toDigits_ne_nil areDigits ends]
  dsimp only [bind, Except.bind]
  split
  · rename_i zero
    exact absurd (congrArg Prod.fst zero) (digitsOf_ne_zero_cons value)
  · rfl

theorem readFraction_of_endsNumber {rest : Source} (ends : EndsNumber rest) :
    readFraction rest = .ok ([], rest) := by
  unfold readFraction
  split
  · exact absurd rfl ends.2.1
  · rfl

theorem readExponent_of_endsNumber {rest : Source} (ends : EndsNumber rest) :
    readExponent rest = .ok (none, rest) := by
  unfold readExponent
  split
  · exact absurd rfl ends.2.2.1
  · exact absurd rfl ends.2.2.2
  · rfl

/-- Digits do not begin with a sign. -/
theorem toDigits_ne_minus_cons (value : Nat) {rest after : Source} :
    (Nat.toDigits 10 value).map some ++ rest ≠ some '-' :: after := by
  cases digits : Nat.toDigits 10 value with
  | nil => exact absurd digits Nat.toDigits_ne_nil
  | cons c others =>
    intro same
    have minus : c = '-' := Option.some.inj (List.cons.inj same).1
    have isDigit : c.isDigit = true :=
      Nat.isDigit_of_mem_toDigits (by decide) (by decide) (digits ▸ List.mem_cons_self)
    rw [minus] at isDigit
    cases isDigit

/-- An integer is read back. -/
theorem read_text (value : Int) {rest : Source} (ends : EndsNumber rest) :
    read ((Number.int value).text.map some ++ rest) = .ok (ofInt value, rest) := by
  have whole := readWhole_toDigits value.natAbs ends
  have fraction := readFraction_of_endsNumber ends
  have exponent := readExponent_of_endsNumber ends
  unfold Number.text ofInt
  by_cases negative : value < 0
  · simp only [negative, if_true, List.map_cons, List.cons_append, read, whole, bind, Except.bind,
      fraction, exponent, decide_true]
  · simp only [negative, if_false, decide_false]
    unfold read
    split
    rename_i sign source split
    split at split
    · rename_i minus
      exact absurd minus (toDigits_ne_minus_cons value.natAbs)
    · cases split
      simp only [whole, bind, Except.bind, fraction, exponent]

/-- The texts of integers: no fraction and no exponent.  Zero may have a sign. -/
inductive Spelled : Literal → List Char → Prop where
  | int (value : Int) : Spelled (ofInt value) (Number.int value).text
  | minusZero : Spelled ⟨true, [0], [], none⟩ ['-', '0']

theorem read_spelled {literal : Literal} {text : List Char} (spelled : literal.Spelled text)
    {rest : Source} (ends : EndsNumber rest) :
    read (text.map some ++ rest) = .ok (literal, rest) := by
  cases spelled with
  | int value => exact read_text value ends
  | minusZero =>
    have whole : readWhole (some '0' :: rest) = .ok ([0], rest) := readWhole_toDigits 0 ends
    simp only [List.map_cons, List.map_nil, List.cons_append, List.nil_append, read, whole, bind,
      Except.bind, readFraction_of_endsNumber ends, readExponent_of_endsNumber ends]

/-- An integer of 64 bits is the value of its literal. -/
theorem number?_ofInt {value : Int} (least : -0x8000000000000000 ≤ value)
    (most : value < 0x10000000000000000) : (ofInt value).number? = some (.int value) := by
  have size : UInt64.size = 0x10000000000000000 := rfl
  unfold number?
  simp only [ofInt, valueOf_digitsOf, size]
  have small : value.natAbs < 0x10000000000000000 := by omega
  by_cases negative : value < 0
  · have bounds : 0 < value.natAbs ∧ value.natAbs ≤ 0x8000000000000000 := by omega
    have same : -(value.natAbs : Int) = value := by omega
    generalize value.natAbs = magnitude at small bounds same ⊢
    simp [isInteger, negative, small, bounds, same]
  · have same : (value.natAbs : Int) = value := by omega
    generalize value.natAbs = magnitude at small same ⊢
    simp [isInteger, negative, small, same]

end Literal

end Json
end SaveTree
