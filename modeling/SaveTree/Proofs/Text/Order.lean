import Mathlib.Tactic.SplitIfs

namespace SaveTree
namespace Text

/-!
# The order of texts and the order of their bytes

Texts are compared character by character.  A character with a larger code is spelled
with larger bytes: either its first byte says that more bytes follow, or the bytes are
the digits of the code, the high ones first.  So texts come in the order of their bytes.
-/

/-- The bytes that spell a text. -/
def bytes (text : String) : List UInt8 :=
  text.toUTF8.data.toList

theorem bytes_eq_flatMap (text : String) :
    bytes text = text.toList.flatMap String.utf8EncodeChar := by
  have spelled : text.toUTF8 = text.toList.utf8Encode := String.utf8Encode_toList.symm
  rw [bytes, spelled, List.utf8Encode, List.toList_data_toByteArray]

variable {m n : Nat} {rest others : List UInt8} {first second : Char}

theorem ofNat_cons_lt (less : m < n) (bounded : n < 256) :
    UInt8.ofNat m :: rest < UInt8.ofNat n :: others := by
  apply List.cons_lt_cons_iff.mpr
  left
  exact (UInt8.ofNat_lt_iff_lt (Nat.lt_trans less bounded) bounded).mpr less

theorem ofNat_cons_lt_of_le (reaches : m ≤ n) (bounded : n < 256) (later : m = n → rest < others) :
    UInt8.ofNat m :: rest < UInt8.ofNat n :: others := by
  rcases Nat.lt_or_eq_of_le reaches with less | same
  · exact ofNat_cons_lt less bounded
  · exact List.cons_lt_cons_iff.mpr (.inr ⟨congrArg UInt8.ofNat same, later same⟩)

/-- The bytes of a character decide, whatever follows them. -/
theorem utf8EncodeChar_append_lt (less : first < second) :
    String.utf8EncodeChar first ++ rest < String.utf8EncodeChar second ++ others := by
  have codes : first.val.toNat < second.val.toNat := less
  have bounded : second.val.toNat < 0x110000 := by
    rcases second.valid with early | ⟨_, late⟩
    · exact Nat.lt_trans early (by decide)
    · exact late
  unfold String.utf8EncodeChar
  dsimp only
  by_cases one : first.val.toNat ≤ 0x7f
  · rw [if_pos one]
    split_ifs <;> exact ofNat_cons_lt (by omega) (by omega)
  by_cases two : first.val.toNat ≤ 0x7ff
  · rw [if_neg one, if_pos two, if_neg (by omega)]
    split_ifs
    · apply ofNat_cons_lt_of_le (by omega) (by omega)
      intro high
      exact ofNat_cons_lt (by omega) (by omega)
    · exact ofNat_cons_lt (by omega) (by omega)
    · exact ofNat_cons_lt (by omega) (by omega)
  by_cases three : first.val.toNat ≤ 0xffff
  · rw [if_neg one, if_neg two, if_pos three, if_neg (by omega), if_neg (by omega)]
    split_ifs
    · apply ofNat_cons_lt_of_le (by omega) (by omega)
      intro high
      apply ofNat_cons_lt_of_le (by omega) (by omega)
      intro middle
      exact ofNat_cons_lt (by omega) (by omega)
    · exact ofNat_cons_lt (by omega) (by omega)
  · rw [if_neg one, if_neg two, if_neg three, if_neg (by omega), if_neg (by omega), if_neg (by omega)]
    apply ofNat_cons_lt_of_le (by omega) (by omega)
    intro high
    apply ofNat_cons_lt_of_le (by omega) (by omega)
    intro upper
    apply ofNat_cons_lt_of_le (by omega) (by omega)
    intro lower
    exact ofNat_cons_lt (by omega) (by omega)

theorem flatMap_utf8EncodeChar_lt {chars longer : List Char} (less : chars < longer) :
    chars.flatMap String.utf8EncodeChar < longer.flatMap String.utf8EncodeChar := by
  induction less with
  | nil =>
    rw [List.flatMap_nil, List.flatMap_cons]
    rcases List.exists_cons_of_ne_nil String.utf8EncodeChar_ne_nil with ⟨byte, more, spelled⟩
    rw [spelled]
    exact List.nil_lt_cons _ _
  | cons _ ih =>
    rw [List.flatMap_cons, List.flatMap_cons]
    exact List.append_left_lt ih
  | rel smaller =>
    rw [List.flatMap_cons, List.flatMap_cons]
    exact utf8EncodeChar_append_lt smaller

/-- Texts come in the order of their bytes. -/
theorem bytes_lt {text other : String} (less : text < other) : bytes text < bytes other := by
  rw [bytes_eq_flatMap, bytes_eq_flatMap]
  exact flatMap_utf8EncodeChar_lt (String.lt_iff.mp less)

end Text
end SaveTree
