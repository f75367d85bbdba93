import SaveTree.Json.Number
import SaveTree.Json.Quoted

namespace SaveTree
namespace Json

/-!
# Values

A value keeps the members of its objects in the order in which they were given.
`sorted` is the value with every object's members in the order of their keys,
one for each key: of several members with one key the last counts.

A value is written in one line, or indented with one element to a line.
-/

/-- A JSON value. -/
inductive Value where
  | null
  | bool (value : Bool)
  | number (value : Number)
  | string (value : String)
  | array (items : List Value)
  | object (members : List (String × Value))

namespace Value

/-- Puts a member in its place among members sorted by key, instead of one that
has the same key. -/
def insertMember (key : String) (value : Value) : List (String × Value) → List (String × Value)
  | [] => [(key, value)]
  | (other, old) :: rest =>
    if key = other then (key, value) :: rest
    else if key < other then (key, value) :: (other, old) :: rest
    else (other, old) :: insertMember key value rest

mutual

/-- The value with sorted members, inside and out. -/
def sorted : Value → Value
  | null => null
  | bool value => bool value
  | number value => number value
  | string value => string value
  | array items => array (sortedItems items)
  | object members => object (sortedMembers members [])
termination_by structural value => value

/-- `sorted` for every item. -/
def sortedItems : List Value → List Value
  | [] => []
  | item :: rest => item.sorted :: sortedItems rest
termination_by structural items => items

/-- Adds sorted members to those found so far. -/
def sortedMembers : List (String × Value) → List (String × Value) → List (String × Value)
  | [], found => found
  | (key, value) :: rest, found => sortedMembers rest (insertMember key value.sorted found)
termination_by structural members => members

end

/-- How a value is laid out. -/
inductive Layout where
  /-- In one line without blanks. -/
  | compact
  /-- Two blanks to a level, one element to a line. -/
  | indented

/-- What stands before an element at the given level. -/
def Layout.lineStart : Layout → Nat → List Char
  | compact, _ => []
  | indented, level => '\n' :: List.replicate (2 * level) ' '

/-- What stands between a key and its value. -/
def Layout.colon : Layout → List Char
  | compact => [':']
  | indented => [':', ' ']

mutual

/-- The characters of a value that stands at the given level. -/
def chars (layout : Layout) (level : Nat) : Value → List Char
  | null => "null".toList
  | bool true => "true".toList
  | bool false => "false".toList
  | number value => value.text
  | string value => Quoted.text value
  | array [] => ['[', ']']
  | array (item :: rest) =>
    '[' :: layout.lineStart (level + 1) ++ item.chars layout (level + 1)
      ++ itemsChars layout (level + 1) rest ++ layout.lineStart level ++ [']']
  | object [] => ['{', '}']
  | object ((key, value) :: rest) =>
    '{' :: layout.lineStart (level + 1) ++ Quoted.text key ++ layout.colon
      ++ value.chars layout (level + 1)
      ++ membersChars layout (level + 1) rest ++ layout.lineStart level ++ ['}']
termination_by structural value => value

/-- The items after the first. -/
def itemsChars (layout : Layout) (level : Nat) : List Value → List Char
  | [] => []
  | item :: rest =>
    ',' :: layout.lineStart level ++ item.chars layout level ++ itemsChars layout level rest
termination_by structural items => items

/-- The members after the first. -/
def membersChars (layout : Layout) (level : Nat) : List (String × Value) → List Char
  | [] => []
  | (key, value) :: rest =>
    ',' :: layout.lineStart level ++ Quoted.text key ++ layout.colon
      ++ value.chars layout level ++ membersChars layout level rest
termination_by structural members => members

end

/-- The value in one line. -/
def compact (value : Value) : String :=
  String.ofList (value.chars .compact 0)

/-- The value with indentation, without a line end. -/
def pretty (value : Value) : String :=
  String.ofList (value.chars .indented 0)

/-- The value of the one member with the given name; nothing if several have
it. -/
def only? (name : String) (members : List (String × Value)) : Option Value :=
  match members.filter (·.1 = name) with
  | [(_, value)] => some value
  | _ => none

/-- A natural number as a value. -/
def nat (value : Nat) : Value :=
  number (.int value)

end Value

end Json
end SaveTree
