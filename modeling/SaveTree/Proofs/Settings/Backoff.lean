import Mathlib.Algebra.Group.Nat.Defs
import SaveTree.Settings.Retry

namespace SaveTree
namespace RetryPolicy

/-!
# Waits that double

The wait after a failed attempt is the first wait doubled once for every attempt before it,
cut at the largest number of 64 bits.  The power of two is cut first and the product again.
Cutting twice is cutting once: where the power does not fit, the product does not either,
unless the first wait is zero and so is every other.
-/

variable {policy other : RetryPolicy} {attempt later : Nat}

theorem longest_eq : longest = 2 ^ 64 - 1 :=
  rfl

theorem delay_eq (policy : RetryPolicy) (attempt : Nat) :
    policy.delay attempt = min (policy.backoffMs.toNat * 2 ^ attempt) longest := by
  rw [delay]
  by_cases fits : attempt < 64
  · rw [if_pos fits]
    rfl
  rw [if_neg fits]
  rcases Nat.eq_zero_or_pos policy.backoffMs.toNat with zero | positive
  · rw [zero, Nat.zero_mul, Nat.zero_mul]
  · -- both products have passed the largest number
    have power : 2 ^ 64 ≤ 2 ^ attempt := Nat.pow_le_pow_right (by decide) (Nat.not_lt.mp fits)
    have cut : longest ≤ policy.backoffMs.toNat * longest := Nat.le_mul_of_pos_left _ positive
    have whole : longest ≤ policy.backoffMs.toNat * 2 ^ attempt := by
      calc longest
        _ ≤ 2 ^ 64 := Nat.sub_le _ _
        _ ≤ 2 ^ attempt := power
        _ ≤ policy.backoffMs.toNat * 2 ^ attempt := Nat.le_mul_of_pos_left _ positive
    rw [Nat.min_eq_right cut, Nat.min_eq_right whole]

/-- From one attempt to the next the wait doubles, as far as 64 bits go. -/
theorem delay_succ (policy : RetryPolicy) (attempt : Nat) :
    policy.delay (attempt + 1) = min (2 * policy.delay attempt) longest := by
  have doubled : policy.backoffMs.toNat * 2 ^ (attempt + 1) =
      2 * (policy.backoffMs.toNat * 2 ^ attempt) := by
    rw [Nat.pow_succ, ← Nat.mul_assoc, Nat.mul_comm]
  rw [delay_eq, delay_eq, doubled]
  omega

theorem delay_le_delay_succ (policy : RetryPolicy) (attempt : Nat) :
    policy.delay attempt ≤ policy.delay (attempt + 1) := by
  have cut : policy.delay attempt ≤ longest := by
    rw [delay_eq]
    exact Nat.min_le_right _ _
  rw [delay_succ]
  omega

theorem delay_le_of_attempt_le (policy : RetryPolicy) (notEarlier : attempt ≤ later) :
    policy.delay attempt ≤ policy.delay later := by
  induction notEarlier with
  | refl => exact Nat.le_refl _
  | @step between _ ih => exact Nat.le_trans ih (policy.delay_le_delay_succ between)

theorem delay_le_of_backoff_le (attempt : Nat) (notShorter : policy.backoffMs ≤ other.backoffMs) :
    policy.delay attempt ≤ other.delay attempt := by
  have product : policy.backoffMs.toNat * 2 ^ attempt ≤ other.backoffMs.toNat * 2 ^ attempt :=
    Nat.mul_le_mul_right _ (UInt64.le_iff_toNat_le.mp notShorter)
  rw [delay_eq, delay_eq]
  omega

theorem delay_eq_zero_iff : policy.delay attempt = 0 ↔ policy.backoffMs = 0 := by
  have positive : 0 < longest := by decide
  have power : 2 ^ attempt ≠ 0 := Nat.pos_iff_ne_zero.mp (Nat.two_pow_pos attempt)
  have product : policy.delay attempt = 0 ↔ policy.backoffMs.toNat * 2 ^ attempt = 0 := by
    rw [delay_eq]
    omega
  rw [product, Nat.mul_eq_zero, or_iff_left power, ← UInt64.toNat_inj]
  rfl

/-- The wait is the first one doubled with every attempt, cut at the largest number of 64
bits.  It fits into 64 bits, it is zero only if the first one is, and it becomes no shorter
with later attempts or with a longer first wait. -/
theorem delay_saturated_doubling (policy other : RetryPolicy) (attempt later : Nat) :
    policy.delay attempt = min (policy.backoffMs.toNat * 2 ^ attempt) (2 ^ 64 - 1) ∧
    policy.delay (attempt + 1) = min (2 * policy.delay attempt) (2 ^ 64 - 1) ∧
    policy.delay attempt < 2 ^ 64 ∧
    (policy.delay attempt = 0 ↔ policy.backoffMs = 0) ∧
    (attempt ≤ later → policy.delay attempt ≤ policy.delay later) ∧
    (policy.backoffMs ≤ other.backoffMs → policy.delay attempt ≤ other.delay attempt) := by
  refine ⟨policy.delay_eq attempt, policy.delay_succ attempt, ?_, delay_eq_zero_iff,
    policy.delay_le_of_attempt_le, delay_le_of_backoff_le attempt⟩
  rw [delay_eq, longest_eq]
  omega

/-- One millisecond has passed the largest number after 64 attempts and stays there. -/
theorem delay_saturated_doubling_from_one :
    (⟨3, 1⟩ : RetryPolicy).delay 64 = 2 ^ 64 - 1 ∧
    (⟨3, 1⟩ : RetryPolicy).delay 63 ≤ (⟨3, 1⟩ : RetryPolicy).delay 4294967295 ∧
    (⟨3, 0⟩ : RetryPolicy).delay 64 ≤ (⟨3, 1⟩ : RetryPolicy).delay 64 := by
  have one := delay_saturated_doubling ⟨3, 1⟩ ⟨3, 1⟩ 63 4294967295
  have zero := delay_saturated_doubling ⟨3, 0⟩ ⟨3, 1⟩ 64 64
  refine ⟨?_, one.2.2.2.2.1 (by decide), zero.2.2.2.2.2 (by decide)⟩
  rw [one.2.1, one.1]
  decide

end RetryPolicy
end SaveTree
