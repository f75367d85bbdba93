import SaveTree.Proofs.Text.Order

namespace SaveTree
namespace Text

/-!
# Bytes that spell no text

The first byte of a character tells how many bytes follow it.  Not all that fits this is
the spelling of a character: a code is spelled with as few bytes as possible, and there
are codes that belong to no character.  What is left out shows in the second byte at the
latest.

So bytes that begin like a text do not spell one if they go on with something that is no
character, whatever comes after it.
-/

/-- A byte that can follow the first byte of a character. -/
def Continues (byte : UInt8) : Prop :=
  0x80 ≤ byte.toNat ∧ byte.toNat < 0xc0

/-- What the bytes of one character look like. -/
inductive Spelling : List UInt8 → Prop where
  | one {lead : UInt8} (high : lead.toNat < 0x80) : Spelling [lead]
  | two {lead second : UInt8} (low : 0xc2 ≤ lead.toNat) (high : lead.toNat < 0xe0)
      (continues : Continues second) : Spelling [lead, second]
  | three {lead second third : UInt8} (low : 0xe0 ≤ lead.toNat) (high : lead.toNat < 0xf0)
      (shortest : lead.toNat = 0xe0 → 0xa0 ≤ second.toNat)
      (scalar : lead.toNat = 0xed → second.toNat < 0xa0)
      (continues : ∀ byte ∈ [second, third], Continues byte) : Spelling [lead, second, third]
  | four {lead second third fourth : UInt8} (low : 0xf0 ≤ lead.toNat) (high : lead.toNat < 0xf5)
      (shortest : lead.toNat = 0xf0 → 0x90 ≤ second.toNat)
      (within : lead.toNat = 0xf4 → second.toNat < 0x90)
      (continues : ∀ byte ∈ [second, third, fourth], Continues byte) :
      Spelling [lead, second, third, fourth]

theorem continues_ofNat (n : Nat) : Continues (UInt8.ofNat (n % 64 + 0x80)) := by
  rw [Continues, UInt8.toNat_ofNat']
  omega

theorem spelling_utf8EncodeChar (char : Char) : Spelling (String.utf8EncodeChar char) := by
  have valid : char.val.toNat < 0xd800 ∨ 0xdfff < char.val.toNat ∧ char.val.toNat < 0x110000 := char.valid
  have toNat_ofNat {n : Nat} (bounded : n < 256) : (UInt8.ofNat n).toNat = n := by
    rw [UInt8.toNat_ofNat']
    omega
  unfold String.utf8EncodeChar
  dsimp only
  split_ifs with one two three
  · apply Spelling.one
    rw [toNat_ofNat (by omega)]
    omega
  · apply Spelling.two
    · rw [toNat_ofNat (by omega)]
      omega
    · rw [toNat_ofNat (by omega)]
      omega
    · exact continues_ofNat _
  · apply Spelling.three
    · rw [toNat_ofNat (by omega)]
      omega
    · rw [toNat_ofNat (by omega)]
      omega
    · rw [toNat_ofNat (by omega), toNat_ofNat (by omega)]
      omega
    · rw [toNat_ofNat (by omega), toNat_ofNat (by omega)]
      omega
    · simp only [List.forall_mem_cons]
      exact ⟨continues_ofNat _, continues_ofNat _, nofun⟩
  · apply Spelling.four
    · rw [toNat_ofNat (by omega)]
      omega
    · rw [toNat_ofNat (by omega)]
      omega
    · rw [toNat_ofNat (by omega), toNat_ofNat (by omega)]
      omega
    · rw [toNat_ofNat (by omega), toNat_ofNat (by omega)]
      omega
    · simp only [List.forall_mem_cons]
      exact ⟨continues_ofNat _, continues_ofNat _, continues_ofNat _, nofun⟩

/-- How many bytes follow the first byte of a character. -/
def span (lead : UInt8) : Nat :=
  if lead.toNat < 0xc0 then 0 else if lead.toNat < 0xe0 then 1 else if lead.toNat < 0xf0 then 2 else 3

theorem Spelling.exists_tail {spelled : List UInt8} (spelling : Spelling spelled) :
    ∃ lead tail, spelled = lead :: tail ∧ tail.length = span lead ∧ ∀ byte ∈ tail, Continues byte := by
  cases spelling with
  | one high => exact ⟨_, _, rfl, by simp [span]; omega, nofun⟩
  | two low high continues =>
    refine ⟨_, _, rfl, ?_, fun byte member => List.mem_singleton.mp member ▸ continues⟩
    rw [span, if_neg (by omega), if_pos high]
    rfl
  | three low high _ _ continues =>
    refine ⟨_, _, rfl, ?_, continues⟩
    rw [span, if_neg (by omega), if_neg (by omega), if_pos high]
    rfl
  | four low _ _ _ continues =>
    refine ⟨_, _, rfl, ?_, continues⟩
    rw [span, if_neg (by omega), if_neg (by omega), if_neg (by omega)]
    rfl

/-- Bytes that begin with no character. -/
inductive Fault : List UInt8 → Prop where
  /-- A character breaks off. -/
  | truncated {char : Char} {cut rest : List UInt8} (begins : cut ≠ [])
      (beginning : cut <+: String.utf8EncodeChar char) (proper : cut ≠ String.utf8EncodeChar char)
      (stops : ∀ byte, rest.head? = some byte → ¬ Continues byte) : Fault (cut ++ rest)
  /-- A code is spelled with more bytes than it needs. -/
  | overlong {lead second : UInt8} {rest : List UInt8}
      (wasteful : lead.toNat = 0xc0 ∨ lead.toNat = 0xc1 ∨
        lead.toNat = 0xe0 ∧ second.toNat < 0xa0 ∨ lead.toNat = 0xf0 ∧ second.toNat < 0x90) :
      Fault (lead :: second :: rest)
  /-- A code is one of a pair that stands for a larger one. -/
  | surrogate {lead second : UInt8} {rest : List UInt8} (paired : lead.toNat = 0xed)
      (high : 0xa0 ≤ second.toNat) : Fault (lead :: second :: rest)
  /-- A code is larger than all characters. -/
  | outOfRange {lead second : UInt8} {rest : List UInt8}
      (beyond : lead.toNat = 0xf4 ∧ 0x90 ≤ second.toNat ∨ 0xf5 ≤ lead.toNat) :
      Fault (lead :: second :: rest)

theorem Fault.ne_nil {bytes : List UInt8} (fault : Fault bytes) : bytes ≠ [] := by
  cases fault with
  | truncated begins => simp [begins]
  | overlong => exact List.cons_ne_nil _ _
  | surrogate => exact List.cons_ne_nil _ _
  | outOfRange => exact List.cons_ne_nil _ _

/-- A character that breaks off is not taken for another one: the first byte tells how many
bytes are missing. -/
theorem not_truncated {char other : Char} {cut rest more : List UInt8} (begins : cut ≠ [])
    (beginning : cut <+: String.utf8EncodeChar char) (proper : cut ≠ String.utf8EncodeChar char)
    (stops : ∀ byte, rest.head? = some byte → ¬ Continues byte) :
    cut ++ rest ≠ String.utf8EncodeChar other ++ more := by
  intro same
  rcases (spelling_utf8EncodeChar char).exists_tail with ⟨lead, tail, spelled, length, _⟩
  rcases (spelling_utf8EncodeChar other).exists_tail with ⟨first, others, spelledOther, longer, continues⟩
  rcases List.exists_cons_of_ne_nil begins with ⟨head, body, rfl⟩
  rw [spelled] at beginning proper
  rw [spelledOther, List.cons_append, List.cons_append] at same
  rcases List.cons_prefix_cons.mp beginning with ⟨rfl, inside⟩
  rcases List.cons.inj same with ⟨rfl, tails⟩
  have shorter : body.length < others.length := by
    rw [longer, ← length]
    refine Nat.lt_of_le_of_ne inside.length_le ?_
    intro equal
    exact proper (congrArg (List.cons head) (inside.eq_of_length equal))
  rcases List.append_eq_append_iff.mp tails with ⟨missing, split, rest_eq⟩ | ⟨missing, split, _⟩
  · cases missing with
    | nil =>
      rw [split, List.append_nil] at shorter
      exact Nat.lt_irrefl _ shorter
    | cons byte later =>
      apply stops byte (by rw [rest_eq]; rfl)
      apply continues
      rw [split]
      exact List.mem_append_right _ List.mem_cons_self
  · rw [split, List.length_append] at shorter
    omega

theorem Spelling.first_two {spelled rest more : List UInt8} {lead second : UInt8}
    (spelling : Spelling spelled) (same : lead :: second :: rest = spelled ++ more) :
    lead.toNat < 0x80 ∨ 0xc2 ≤ lead.toNat ∧ lead.toNat < 0xf5 ∧
      (lead.toNat = 0xe0 → 0xa0 ≤ second.toNat) ∧ (lead.toNat = 0xed → second.toNat < 0xa0) ∧
      (lead.toNat = 0xf0 → 0x90 ≤ second.toNat) ∧ (lead.toNat = 0xf4 → second.toNat < 0x90) := by
  cases spelling <;> cases same <;> omega

theorem Fault.not_char {bytes more : List UInt8} (fault : Fault bytes) (char : Char) :
    bytes ≠ String.utf8EncodeChar char ++ more := by
  have spelling := spelling_utf8EncodeChar char
  intro same
  cases fault with
  | truncated begins beginning proper stops => exact not_truncated begins beginning proper stops same
  | overlong wasteful =>
    have legal := spelling.first_two same
    omega
  | surrogate paired high =>
    have legal := spelling.first_two same
    omega
  | outOfRange beyond =>
    have legal := spelling.first_two same
    omega

/-- No character is spelled like the beginning of another one. -/
theorem utf8EncodeChar_append_inj {first second : Char} {rest others : List UInt8}
    (same : String.utf8EncodeChar first ++ rest = String.utf8EncodeChar second ++ others) :
    first = second ∧ rest = others := by
  have equal : first = second := by
    rcases Nat.lt_trichotomy first.val.toNat second.val.toNat with less | equal | greater
    · have less : first < second := less
      exact absurd (same ▸ utf8EncodeChar_append_lt less) (List.lt_irrefl _)
    · exact Char.ext (UInt32.toNat_inj.mp equal)
    · have greater : second < first := greater
      exact absurd (same ▸ utf8EncodeChar_append_lt greater) (List.lt_irrefl _)
  subst equal
  exact ⟨rfl, List.append_cancel_left same⟩

/-- If a text begins like another one, what follows is nothing or begins with a character. -/
theorem rest_of_flatMap {chars front : List Char} {rest : List UInt8}
    (same : chars.flatMap String.utf8EncodeChar = front.flatMap String.utf8EncodeChar ++ rest) :
    rest = [] ∨ ∃ char more, rest = String.utf8EncodeChar char ++ more := by
  induction front generalizing chars with
  | nil =>
    cases chars with
    | nil => exact .inl same.symm
    | cons char chars => exact .inr ⟨char, _, same.symm⟩
  | cons first front ih =>
    cases chars with
    | nil =>
      have spelled := (List.append_eq_nil_iff.mp (List.append_eq_nil_iff.mp same.symm).1).1
      exact absurd spelled String.utf8EncodeChar_ne_nil
    | cons char chars =>
      rw [List.flatMap_cons, List.flatMap_cons, List.append_assoc] at same
      exact ih (utf8EncodeChar_append_inj same).2

/-- Bytes that are wrong at some place, where they have begun like a text. -/
def Malformed (spelled : ByteArray) : Prop :=
  ∃ (front : String) (rest : List UInt8), Fault rest ∧ spelled.data.toList = bytes front ++ rest

theorem Malformed.not_text {spelled : ByteArray} (malformed : Malformed spelled) (text : String) :
    text.toUTF8 ≠ spelled := by
  rcases malformed with ⟨front, rest, fault, split⟩
  rintro rfl
  have same : bytes text = bytes front ++ rest := split
  rw [bytes_eq_flatMap, bytes_eq_flatMap] at same
  rcases rest_of_flatMap same with empty | ⟨char, more, begins⟩
  · exact fault.ne_nil empty
  · exact fault.not_char char begins

end Text
end SaveTree
