import SaveTree.Json.Value

namespace SaveTree
namespace Json

/-!
# Drafts

A draft is a text taken apart into values, as far as the text is JSON.  Where it
is not, the draft ends in a flaw, and nothing behind the flaw is part of it.
Whoever wants a value of some shape goes through a draft from left to right and
reports the first thing that does not fit, be it a flaw or a shape.

A part of a draft can be kept as a value or skipped.  Skipping is more lenient:
it neither computes numbers nor joins the pieces of strings, and has no limit on
nesting.
-/

mutual

/-- A value as it was read. -/
inductive Draft where
  | null
  | bool (value : Bool)
  | number (literal : Literal)
  /-- A string, or why its text cannot be kept. -/
  | string (text : Except Error String)
  | array (items : Items)
  | object (members : Members)
  /-- What begins here is no value. -/
  | broken (flaw : Flaw)

/-- The items of an array, down to its bracket or to a flaw. -/
inductive Items where
  | done
  | broken (flaw : Flaw)
  | cons (item : Draft) (rest : Items)

/-- The members of an object, down to its bracket or to a flaw. -/
inductive Members where
  | done
  | broken (flaw : Flaw)
  | cons (key : Except Error String) (value : Draft) (rest : Members)

end

namespace Draft

/-- The words of the language. -/
def word (spelling : List Char) (value : Draft) (source : Source) : Draft × Source :=
  match source.expect spelling with
  | .ok rest => (value, rest)
  | .error error => (.broken (.always error), [])

/-- A number. -/
def readNumber (source : Source) : Draft × Source :=
  match Literal.read source with
  | .ok (literal, rest) => (.number literal, rest)
  | .error flaw => (.broken flaw, [])

/-- A string, behind its opening quote. -/
def readString (source : Source) : Draft × Source :=
  match Quoted.read source with
  | .ok (text, rest) => (.string text, rest)
  | .error flaw => (.broken flaw, [])

mutual

/-- Reads a value.  `fuel` bounds the number of nested calls.  A value takes at
most two calls for each of its characters, so that more than twice the length of
the source is always enough. -/
def readValue (fuel : Nat) (source : Source) : Draft × Source :=
  match fuel with
  | 0 => (.broken (.always .truncated), [])
  | fuel + 1 =>
    match source.skipBlanks with
    | [] => (.broken (.always .truncated), [])
    | none :: _ => (.broken (.always .malformed), [])
    | some c :: rest =>
      if c = '"' then readString rest
      else if c = '[' then
        let (items, rest) := readItems fuel true rest
        (.array items, rest)
      else if c = '{' then
        let (members, rest) := readMembers fuel true rest
        (.object members, rest)
      else if c = '-' ∨ c.isDigit then readNumber (some c :: rest)
      else if c = 't' then word "true".toList (.bool true) (some c :: rest)
      else if c = 'f' then word "false".toList (.bool false) (some c :: rest)
      else if c = 'n' then word "null".toList .null (some c :: rest)
      else (.broken (.always .malformed), [])

/-- Reads items up to the closing bracket.  Each item but the first stands
behind a comma. -/
def readItems (fuel : Nat) (first : Bool) (source : Source) : Items × Source :=
  match fuel with
  | 0 => (.broken (.always .truncated), [])
  | fuel + 1 =>
    match source.skipBlanks with
    | [] => (.broken (.always .truncated), [])
    | some ']' :: rest => (.done, rest)
    | found =>
      if first then
        let (item, rest) := readValue fuel found
        let (items, rest) := readItems fuel false rest
        (.cons item items, rest)
      else
        match found with
        | some ',' :: rest =>
          let (item, rest) := readValue fuel rest
          let (items, rest) := readItems fuel false rest
          (.cons item items, rest)
        | _ => (.broken (.always .malformed), [])

/-- Reads members up to the closing brace. -/
def readMembers (fuel : Nat) (first : Bool) (source : Source) : Members × Source :=
  match fuel with
  | 0 => (.broken (.always .truncated), [])
  | fuel + 1 =>
    match source.skipBlanks with
    | [] => (.broken (.always .truncated), [])
    | some '}' :: rest => (.done, rest)
    | found =>
      if first then readMember fuel found
      else
        match found with
        | some ',' :: rest => readMember fuel (Source.skipBlanks rest)
        | _ => (.broken (.always .malformed), [])

/-- Reads one member and those behind it. -/
def readMember (fuel : Nat) (source : Source) : Members × Source :=
  match fuel with
  | 0 => (.broken (.always .truncated), [])
  | fuel + 1 =>
    match source with
    | [] => (.broken (.always .truncated), [])
    | some '"' :: rest =>
      match Quoted.read rest with
      | .error flaw => (.broken flaw, [])
      | .ok (key, rest) =>
        match rest.skipBlanks with
        | [] => (.cons key (.broken (.always .truncated)) .done, [])
        | some ':' :: rest =>
          let (value, rest) := readValue fuel rest
          let (members, rest) := readMembers fuel false rest
          (.cons key value members, rest)
        | _ => (.cons key (.broken (.always .malformed)) .done, [])
    | _ => (.broken (.always .malformed), [])

end

/-- Reads a draft from the front of a source. -/
def read (source : Source) : Draft × Source :=
  readValue (3 * source.length + 1) source

mutual

/-- The draft as a value.  Arrays and objects may nest `room` deep. -/
def keep (room : Nat) : Draft → Except Error Value
  | null => .ok .null
  | bool value => .ok (.bool value)
  | number literal =>
    match literal.number? with
    | some value => .ok (.number value)
    | none => .error .malformed
  | string text => text.map .string
  | array items =>
    match room with
    | 0 => .error .malformed
    | room + 1 => return .array (← keepItems room items)
  | object members =>
    match room with
    | 0 => .error .malformed
    | room + 1 => return .object (← keepMembers room members)
  | broken flaw => .error flaw.kept
termination_by structural draft => draft

/-- `keep` for every item. -/
def keepItems (room : Nat) : Items → Except Error (List Value)
  | .done => .ok []
  | .broken flaw => .error flaw.kept
  | .cons item rest => return (← item.keep room) :: (← keepItems room rest)
termination_by structural items => items

/-- `keep` for every key and value. -/
def keepMembers (room : Nat) : Members → Except Error (List (String × Value))
  | .done => .ok []
  | .broken flaw => .error flaw.kept
  | .cons key value rest => return (← key, ← value.keep room) :: (← keepMembers room rest)
termination_by structural members => members

end

mutual

/-- Passes over the draft. -/
def skip : Draft → Except Error Unit
  | null | bool _ | number _ | string _ => .ok ()
  | array items => skipItems items
  | object members => skipMembers members
  | broken flaw => .error flaw.skipped
termination_by structural draft => draft

/-- `skip` for every item. -/
def skipItems : Items → Except Error Unit
  | .done => .ok ()
  | .broken flaw => .error flaw.skipped
  | .cons item rest => do
    item.skip
    skipItems rest
termination_by structural items => items

/-- `skip` for every member. -/
def skipMembers : Members → Except Error Unit
  | .done => .ok ()
  | .broken flaw => .error flaw.skipped
  | .cons _ value rest => do
    value.skip
    skipMembers rest
termination_by structural members => members

end

/-- What is wrong with a draft of which another shape was expected.  A scalar is
read to its end before it is judged. -/
def refusal : Draft → Error
  | number literal => if literal.number?.isSome then .mismatched else .malformed
  | string (.error error) => error
  | broken flaw => flaw.kept
  | _ => .mismatched

/-- The draft as a string. -/
def asString : Draft → Except Error String
  | string text => text
  | draft => .error draft.refusal

/-- The draft as a natural number below `bound`. -/
def asNat (bound : Nat) (draft : Draft) : Except Error Nat :=
  match draft with
  | number literal =>
    match literal.number? with
    | some value =>
      match value.below? bound with
      | some n => .ok n
      | none => .error .mismatched
    | none => .error .malformed
  | draft => .error draft.refusal

/-- The draft as a list of things that `decode` understands. -/
def asList {α : Type} (decode : Draft → Except Error α) (draft : Draft) :
    Except Error (List α) :=
  match draft with
  | array items => go items
  | draft => .error draft.refusal
where
  go : Items → Except Error (List α)
    | .done => .ok []
    | .broken flaw => .error flaw.kept
    | .cons item rest => return (← decode item) :: (← go rest)

/-- How deep arrays and objects may nest in a text. -/
def nesting : Nat := 127

end Draft

/-- Reads a text that is to hold one value and nothing else. -/
def parse {α : Type} (decode : Draft → Except Error α) (source : Source) : Except Error α :=
  match Draft.read source with
  | (draft, rest) => do
    let value ← decode draft
    if rest.skipBlanks = [] then .ok value else .error .malformed

namespace Value

/-- Reads any value, with its objects' members sorted. -/
def parse (text : String) : Except Error Value :=
  Json.parse (fun draft => return (← draft.keep Draft.nesting).sorted) (.ofString text)

end Value

end Json
end SaveTree
