import SaveTree.Error
import SaveTree.Host.Call
import SaveTree.Json.Tagged
import SaveTree.Settings.Retry

namespace SaveTree

/-!
# Settings

Where the tree is stored, and how the write queue retries.  Every part has a
default, so that an empty object is a complete configuration.
-/

/-- Which store to open. -/
inductive StoreChoice where
  /-- In memory; gone when the program ends. -/
  | memory
  /-- In a document on the host. -/
  | durable (path : String)
  /-- In a document on the host, or in memory if that cannot be opened. -/
  | auto (path : String)
  deriving DecidableEq

namespace StoreChoice

open Json

/-- The name of a choice, without its document. -/
inductive Kind where
  | memory
  | durable
  | auto
  deriving DecidableEq

/-- The kind that a tag names. -/
def Kind.ofDraft (draft : Draft) : Except Error Kind := do
  match ← draft.asString with
  | "memory" => .ok memory
  | "durable" => .ok durable
  | "auto" => .ok auto
  | _ => .error .mismatched

/-- The choice as JSON. -/
def toValue : StoreChoice → Value
  | memory => .object [("kind", .string "memory")]
  | durable path => .object [("kind", .string "durable"), ("path", .string path)]
  | auto path => .object [("kind", .string "auto"), ("path", .string path)]

/-- The document that a payload names. -/
def documentOf (payload : Payload) : Except Error String :=
  match payload.only? "path" with
  | some (.string path) => .ok path
  | _ => .error .mismatched

/-- Reads a choice that may nest `room` deep. -/
def ofDraft (room : Nat) (draft : Draft) : Except Error StoreChoice := do
  match ← Tagged.read "kind" Kind.ofDraft room draft with
  | (.memory, payload) => if payload.isNothing then .ok memory else .error .mismatched
  | (.durable, payload) => return durable (← documentOf payload)
  | (.auto, payload) => return auto (← documentOf payload)

end StoreChoice

/-- The settings of a program that uses a save tree. -/
structure Settings where
  store : StoreChoice := .memory
  queue : RetryPolicy := .standard
  deriving DecidableEq

namespace Settings

open Json

/-- The settings as JSON. -/
def toValue (settings : Settings) : Value :=
  .object [("store", settings.store.toValue), ("queue", settings.queue.toValue)]

/-- Settings of which some parts may still be missing. -/
structure Partial where
  store : Option StoreChoice := none
  queue : Option RetryPolicy := none

/-- The fields of settings. -/
def fields : List (Record.Field Partial) := [
  { name := "store"
    isSet := fun found => found.store.isSome
    read := fun draft found => do
      .ok { found with store := some (← StoreChoice.ofDraft (Draft.nesting - 1) draft) } },
  { name := "queue"
    isSet := fun found => found.queue.isSome
    read := fun draft found => do
      .ok { found with queue := some (← RetryPolicy.ofDraft draft) } }]

/-- Reads settings.  Missing parts are the defaults. -/
def ofDraft (draft : Draft) : Except Error Settings := do
  let found ← Record.read fields {} draft
  .ok { store := found.store.getD .memory, queue := found.queue.getD .standard }

/-- Reads settings from their text. -/
def parse (text : String) : Except Error Settings :=
  Json.parse ofDraft (.ofString text)

/-- Reads settings from a file of the host. -/
def load (path : String) : ExceptT FsError Host.Program Settings := do
  let text ← Host.orFail .host (Host.readText path)
  ExceptT.mk (pure ((parse text).mapError FsError.json))

end Settings

end SaveTree
