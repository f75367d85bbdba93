import SaveTree.Json.Draft

namespace SaveTree
namespace Json

/-!
# Records

A record is read member by member into a state.  Each field knows its name,
whether the state has it already, and how to read it into the state.  Members
with other names are skipped, and a field that comes twice is refused as soon as
its name is seen again.

A record may also be written as an array of its fields in their order.  Fields
may be missing at its end, and an item too many is refused.
-/

namespace Record

/-- One field of a record that is collected in `σ`. -/
structure Field (σ : Type) where
  name : String
  isSet : σ → Bool
  read : Draft → σ → Except Error σ

variable {σ : Type}

/-- Reads the members of an object. -/
def ofMembers (fields : List (Field σ)) : Members → σ → Except Error σ
  | .done, state => .ok state
  | .broken flaw, _ => .error flaw.kept
  | .cons key value rest, state => do
    let key ← key
    match fields.find? (·.name = key) with
    | some field =>
      if field.isSet state then .error .mismatched
      else ofMembers fields rest (← field.read value state)
    | none =>
      value.skip
      ofMembers fields rest state

/-- Reads the items of an array, one field after the other. -/
def ofItems : List (Field σ) → Items → σ → Except Error σ
  | _, .done, state => .ok state
  | _, .broken flaw, _ => .error flaw.kept
  | [], .cons _ _, _ => .error .malformed
  | field :: fields, .cons item rest, state => do
    ofItems fields rest (← field.read item state)

/-- Reads a record in either form, from the state in which no field is set. -/
def read (fields : List (Field σ)) (start : σ) : Draft → Except Error σ
  | .object members => ofMembers fields members start
  | .array items => ofItems fields items start
  | draft => .error draft.refusal

end Record

end Json
end SaveTree
