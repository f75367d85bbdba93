import Mathlib.Data.Nat.Digits.Defs
import SaveTree.Proofs.Key.Steps
import SaveTree.Proofs.Store.Codec
import SaveTree.Text.Hex

namespace SaveTree
namespace Hex

/-!
# Dumps are read back

A dump has one line for every sixteen bytes and one for those that are left.  A line shows
the position of its first byte in at least eight digits and, behind two blanks, the bytes in
two digits each with a blank between them.  This is said here for all lines at once, by the
number of the line and not by what the lines before it have left over.

No digit is a blank or the end of a line.  So a dump can be cut into lines, a line into the
digits of its bytes, and the bytes are read back.
-/

variable {bytes : List UInt8} {start : Nat}

/-! ## Numerals -/

/-- The digits from zero to fifteen. -/
def alphabet : List Char :=
  ['0', '1', '2', '3', '4', '5', '6', '7', '8', '9', 'a', 'b', 'c', 'd', 'e', 'f']

/-- The digit at a place of the alphabet. -/
def symbol (value : Nat) : Char :=
  alphabet.getD value '0'

/-- The digits of a number, with zeros before them if they are fewer than `width`. -/
def numeral (width number : Nat) : List Char :=
  ((Nat.digits 16 number).reverse.leftpad width 0).map symbol

theorem symbol_eq_digit : ∀ value < 16, symbol value = digit value := by
  decide

theorem symbol_eq_digitChar : ∀ value < 16, symbol value = value.digitChar := by
  decide

theorem symbol_mem_alphabet (value : Nat) : symbol value ∈ alphabet := by
  rw [symbol, List.getD_eq_getElem?_getD]
  cases found : alphabet[value]? with
  | none => decide
  | some c => exact List.mem_of_getElem? found

theorem not_mem_numeral {c : Char} (other : c ∉ alphabet) (width number : Nat) :
    c ∉ numeral width number := by
  intro member
  rcases List.mem_map.mp member with ⟨value, _, rfl⟩
  exact other (symbol_mem_alphabet value)

theorem toDigits_eq_map_symbol (number : Nat) (positive : 0 < number) :
    Nat.toDigits 16 number = (Nat.digits 16 number).reverse.map symbol := by
  induction number using Nat.strongRecOn with
  | ind number ih =>
    have last : symbol (number % 16) = (number % 16).digitChar :=
      symbol_eq_digitChar _ (Nat.mod_lt _ (by decide))
    rw [Nat.digits_def' (by decide) positive, List.reverse_cons, List.map_append,
      List.map_singleton, last]
    by_cases single : number < 16
    · rw [Nat.toDigits_of_lt_base single, Nat.div_eq_of_lt single, Nat.mod_eq_of_lt single]
      simp
    · rw [Nat.toDigits_of_base_le (by decide) (Nat.not_lt.mp single),
        ih (number / 16) (by omega) (by omega)]

theorem position_eq_numeral (index : Nat) : position index = numeral 8 index := by
  rcases Nat.eq_zero_or_pos index with rfl | positive
  · rfl
  · have zero : symbol 0 = '0' := rfl
    rw [position, toDigits_eq_map_symbol index positive, numeral, List.leftpad, List.map_append,
      List.map_replicate, List.length_map, zero]

theorem byte_eq_numeral (value : UInt8) : byte value = numeral 2 value.toNat := by
  have small : value.toNat < 256 := value.toNat_lt
  rw [byte]
  generalize value.toNat = number at small
  rw [← symbol_eq_digit _ (by omega), ← symbol_eq_digit _ (by omega), numeral]
  rcases Nat.eq_zero_or_pos number with rfl | positive
  · rfl
  · rw [Nat.digits_def' (by decide) positive]
    by_cases single : number < 16
    · rw [Nat.div_eq_of_lt single]
      rfl
    · have upper : Nat.digits 16 (number / 16) = [number / 16] :=
        Nat.digits_of_lt 16 (number / 16) (by omega) (by omega)
      rw [upper]
      rfl

/-! ## Lines -/

/-- The line with the given number.  It shows sixteen bytes, or those that are left. -/
def row (bytes : List UInt8) (index : Nat) : List Char :=
  numeral 8 (16 * index) ++ [' ', ' '] ++
    [' '].intercalate
      ((bytes.extract (16 * index) (min (16 * index + 16) bytes.length)).map fun byte =>
        numeral 2 byte.toNat)

/-- As many lines as there are sixteens of bytes, the last of which may be shorter. -/
def rows (bytes : List UInt8) : List (List Char) :=
  (List.range ((bytes.length + 15) / 16)).map (row bytes)

theorem line_eq_row (bytes : List UInt8) (index : Nat) :
    line (16 * index) ((bytes.drop (16 * index)).take 16) = row bytes index := by
  have shown : bytes.extract (16 * index) (min (16 * index + 16) bytes.length) =
      (bytes.drop (16 * index)).take 16 := by
    rw [List.extract_eq_take_drop, List.take_eq_take_iff, List.length_drop]
    omega
  rw [line, row, shown, position_eq_numeral, funext byte_eq_numeral]

theorem lines_eq_map_range (start : Nat) (bytes : List UInt8) :
    lines start bytes = (List.range ((bytes.length + 15) / 16)).map fun index =>
      line (start + 16 * index) ((bytes.drop (16 * index)).take 16) := by
  fun_induction lines start bytes with
  | case1 start => rfl
  | case2 start first rest ih =>
    have count : ((first :: rest).length + 15) / 16 = ((rest.drop 15).length + 15) / 16 + 1 := by
      rw [List.length_cons, List.length_drop]
      omega
    rw [ih, count, List.range_succ_eq_map, List.map_cons, List.map_map]
    congr 1
    apply List.map_congr_left
    intro index _
    have further : start + 16 * (index + 1) = start + 16 + 16 * index := by omega
    have behind : (first :: rest).drop (16 * (index + 1)) = (rest.drop 15).drop (16 * index) := by
      have past : 16 * (index + 1) = 15 + 16 * index + 1 := by omega
      rw [past, List.drop_succ_cons, List.drop_drop]
    rw [Function.comp_apply, further, behind]

theorem lines_eq_rows (bytes : List UInt8) : lines 0 bytes = rows bytes := by
  rw [lines_eq_map_range, rows]
  apply List.map_congr_left
  intro index _
  rw [Nat.zero_add, line_eq_row]

/-! ## Reading -/

/-- The lines of a text in which every line is ended. -/
def linesOf (text : List Char) : List (List Char) :=
  (text.splitOn '\n').dropLast

/-- The byte that two digits stand for. -/
def readByte? : List Char → Option UInt8
  | [high, low] => do
    let high ← value? high
    let low ← value? low
    return UInt8.ofNat (high * 16 + low)
  | _ => none

/-- The bytes of a line.  They stand behind the position and two blanks. -/
def readLine? (line : List Char) : Option (List UInt8) :=
  (((line.dropWhile (· ≠ ' ')).drop 2).splitOn ' ').mapM readByte?

/-- The bytes of all lines of a dump. -/
def readDump? (text : String) : Option ByteArray := do
  let found ← (linesOf text.toList).mapM readLine?
  return found.flatten.toByteArray

theorem flatMap_newline (texts : List (List Char)) :
    texts.flatMap (· ++ ['\n']) = ['\n'].intercalate (texts ++ [[]]) := by
  induction texts with
  | nil => rfl
  | cons text rest ih =>
    have more : rest ++ [[]] ≠ [] := by simp
    rw [List.flatMap_cons, ih, List.cons_append, List.intercalate_cons_of_ne_nil more]

/-- Lines without a newline in them are found again. -/
theorem linesOf_flatMap {texts : List (List Char)} (within : ∀ text ∈ texts, '\n' ∉ text) :
    linesOf (texts.flatMap (· ++ ['\n'])) = texts := by
  have clean : ∀ text ∈ texts ++ [[]], '\n' ∉ text := by
    intro text member
    rcases List.mem_append.mp member with inside | last
    · exact within text inside
    · rw [List.mem_singleton.mp last]
      exact List.not_mem_nil
  rw [linesOf, flatMap_newline, List.splitOn_intercalate '\n' clean (by simp), List.dropLast_concat]

theorem not_mem_pair {c : Char} (other : c ∉ alphabet) : ∀ pair ∈ bytes.map byte, c ∉ pair := by
  intro pair member
  rcases List.mem_map.mp member with ⟨value, _, rfl⟩
  rw [byte_eq_numeral]
  exact not_mem_numeral other _ _

theorem newline_not_mem_line (start : Nat) (bytes : List UInt8) : '\n' ∉ line start bytes := by
  have other : '\n' ∉ alphabet := by decide
  have noBytes : '\n' ∉ [' '].intercalate (bytes.map byte) :=
    Key.not_mem_intercalate (by decide) (not_mem_pair other)
  have noPosition := not_mem_numeral other 8 start
  rw [line, position_eq_numeral]
  simp [noBytes, noPosition]

theorem readByte?_byte (value : UInt8) : readByte? (byte value) = some value := by
  have small : value.toNat < 256 := value.toNat_lt
  have high := Json.Quoted.value?_digit (value.toNat / 16) (by omega)
  have low := Json.Quoted.value?_digit (value.toNat % 16) (by omega)
  have whole : value.toNat / 16 * 16 + value.toNat % 16 = value.toNat := by omega
  simp only [readByte?, byte, high, low, Option.bind_eq_bind, Option.bind_some, whole,
    UInt8.ofNat_toNat]
  rfl

theorem mapM_readByte? (bytes : List UInt8) : (bytes.map byte).mapM readByte? = some bytes := by
  induction bytes with
  | nil => rfl
  | cons value rest ih => simp [readByte?_byte, ih]

/-- A line is read back. -/
theorem readLine?_line (nonempty : bytes ≠ []) : readLine? (line start bytes) = some bytes := by
  have blank : ' ' ∉ alphabet := by decide
  have passes : ∀ c ∈ position start, decide (c ≠ ' ') = true := by
    rw [position_eq_numeral]
    exact Key.decide_ne_of_not_mem (not_mem_numeral blank _ _)
  have behind : ((line start bytes).dropWhile (· ≠ ' ')).drop 2 =
      [' '].intercalate (bytes.map byte) := by
    rw [line, List.append_assoc, List.dropWhile_append_of_pos passes]
    rfl
  have some : bytes.map byte ≠ [] := by simpa using nonempty
  rw [readLine?, behind, List.splitOn_intercalate ' ' (not_mem_pair blank) some, mapM_readByte?]

/-- The lines of a dump are read back, from any position on. -/
theorem mapM_readLine? (start : Nat) (bytes : List UInt8) :
    ∃ found, (lines start bytes).mapM readLine? = some found ∧ found.flatten = bytes := by
  fun_induction lines start bytes with
  | case1 start => exact ⟨[], rfl, rfl⟩
  | case2 start first rest ih =>
    rcases ih with ⟨found, read, flat⟩
    refine ⟨(first :: rest).take 16 :: found, ?_, ?_⟩
    · simp [readLine?_line, read]
    · rw [List.flatten_cons, flat, ← List.drop_succ_cons (a := first), List.take_append_drop]

/-- The lines of a dump are found again. -/
theorem linesOf_dump (bytes : ByteArray) : linesOf (dump bytes).toList = lines 0 bytes.toList := by
  rw [dump, String.toList_ofList, linesOf_flatMap]
  intro text member
  rw [lines_eq_map_range] at member
  rcases List.mem_map.mp member with ⟨index, _, rfl⟩
  exact newline_not_mem_line _ _

theorem readDump?_dump (bytes : ByteArray) : readDump? (dump bytes) = some bytes := by
  rcases mapM_readLine? 0 bytes.toList with ⟨found, read, flat⟩
  rw [readDump?, linesOf_dump, read, Option.bind_eq_bind, Option.bind_some, flat,
    Content.toByteArray_toList]
  rfl

theorem length_toList (bytes : ByteArray) : bytes.toList.length = bytes.size := by
  rw [← List.size_toByteArray, Content.toByteArray_toList]

/-- A dump is made of its lines and has one for every sixteen bytes, the last of which may be
shorter.  Each line shows the position of its first byte and the digits of its bytes.  The
bytes are read back from them. -/
theorem dump_shows_bytes (bytes : ByteArray) :
    dump bytes = String.ofList ((rows bytes.toList).flatMap (· ++ ['\n'])) ∧
    linesOf (dump bytes).toList = rows bytes.toList ∧
    (rows bytes.toList).length = (bytes.size + 15) / 16 ∧
    readDump? (dump bytes) = some bytes := by
  refine ⟨?_, ?_, ?_, readDump?_dump bytes⟩
  · rw [dump, lines_eq_rows]
  · rw [linesOf_dump, lines_eq_rows]
  · rw [rows, List.length_map, List.length_range, length_toList]

/-- Seventeen bytes take two lines, and the second shows one byte. -/
example : rows (List.replicate 16 0 ++ [0xab]) = [
    "00000000  00 00 00 00 00 00 00 00 00 00 00 00 00 00 00 00".toList,
    "00000010  ab".toList] := by
  decide

end Hex
end SaveTree
