import SaveTree.Json.Record

namespace SaveTree

/-!
# Retry policies

How often a failed save is tried again, and how long to wait in between.  The
wait doubles with every attempt and stops growing at the largest 64-bit number
of milliseconds.
-/

/-- How failed saves are retried. -/
structure RetryPolicy where
  /-- Attempts after the first one. -/
  maxRetries : UInt32
  /-- Milliseconds to wait after the first failed attempt. -/
  backoffMs : UInt64
  deriving DecidableEq

namespace RetryPolicy

/-- Three more attempts, after half a second at first. -/
def standard : RetryPolicy where
  maxRetries := 3
  backoffMs := 500

/-- The number of attempts in all, as far as 32 bits count. -/
def maxAttempts (policy : RetryPolicy) : Nat :=
  min (policy.maxRetries.toNat + 1) (UInt32.size - 1)

/-- The largest number of 64 bits. -/
def longest : Nat := UInt64.size - 1

/-- Milliseconds to wait after the failed attempt with the given number.
Attempts are counted from zero. -/
def delay (policy : RetryPolicy) (attempt : Nat) : Nat :=
  let factor := if attempt < 64 then Nat.pow 2 attempt else longest
  min (policy.backoffMs.toNat * factor) longest

open Json

/-- The policy as JSON. -/
def toValue (policy : RetryPolicy) : Value :=
  .object [
    ("maxRetries", .nat policy.maxRetries.toNat),
    ("backoffMs", .nat policy.backoffMs.toNat)]

/-- A policy of which some fields may still be missing. -/
structure Partial where
  maxRetries : Option UInt32 := none
  backoffMs : Option UInt64 := none

/-- The fields of a policy. -/
def fields : List (Record.Field Partial) := [
  { name := "maxRetries"
    isSet := fun found => found.maxRetries.isSome
    read := fun draft found => do
      let value ← draft.asNat UInt32.size
      .ok { found with maxRetries := some (UInt32.ofNat value) } },
  { name := "backoffMs"
    isSet := fun found => found.backoffMs.isSome
    read := fun draft found => do
      let value ← draft.asNat UInt64.size
      .ok { found with backoffMs := some (UInt64.ofNat value) } }]

/-- Reads a policy.  Missing fields are those of the standard policy. -/
def ofDraft (draft : Draft) : Except Error RetryPolicy := do
  let found ← Record.read fields {} draft
  .ok {
    maxRetries := found.maxRetries.getD standard.maxRetries
    backoffMs := found.backoffMs.getD standard.backoffMs }

/-- Reads a policy from its text. -/
def parse (text : String) : Except Error RetryPolicy :=
  Json.parse ofDraft (.ofString text)

end RetryPolicy

end SaveTree
