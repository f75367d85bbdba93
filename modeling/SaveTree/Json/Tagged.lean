import SaveTree.Json.Draft

namespace SaveTree
namespace Json

/-!
# Tagged choices

One member of an object, its tag, tells which of several shapes the others
have.  The tag may stand anywhere among them, so the others are kept as values
until the whole object has been read.  In the form of an array the tag comes
first.
-/

/-- What a tagged choice holds besides its tag. -/
inductive Payload where
  | items (values : List Value)
  | members (values : List (String × Value))

namespace Tagged

variable {τ : Type}

/-- Reads the members of an object.  A second tag is refused when its name is
seen. -/
def ofMembers (name : String) (tag : Draft → Except Error τ) (room : Nat) :
    Members → Option τ → Except Error (τ × List (String × Value))
  | .done, none => .error .mismatched
  | .done, some found => .ok (found, [])
  | .broken flaw, _ => .error flaw.kept
  | .cons key value rest, found => do
    let key ← key
    if key = name then
      if found.isSome then .error .mismatched
      else ofMembers name tag room rest (some (← tag value))
    else do
      let value ← value.keep room
      let (found, others) ← ofMembers name tag room rest found
      .ok (found, (key, value) :: others)

/-- Reads a tagged choice in either form.  Its payload may nest `room` deep,
the choice itself included. -/
def read (name : String) (tag : Draft → Except Error τ) (room : Nat) :
    Draft → Except Error (τ × Payload)
  | .object members => do
    let (found, others) ← ofMembers name tag (room - 1) members none
    .ok (found, .members others)
  | .array (.cons first rest) => do
    let found ← tag first
    .ok (found, .items (← Draft.keepItems (room - 1) rest))
  | .array .done => .error .mismatched
  | .array (.broken flaw) => .error flaw.kept
  | draft => .error draft.refusal

end Tagged

namespace Payload

/-- The value of the one member with the given name.  In an array it is the only
item. -/
def only? (name : String) : Payload → Option Value
  | items [value] => some value
  | items _ => none
  | members values => Value.only? name values

/-- Asks for nothing: an array must be empty, members do not matter. -/
def isNothing : Payload → Bool
  | items values => values.isEmpty
  | members _ => true

end Payload

end Json
end SaveTree
