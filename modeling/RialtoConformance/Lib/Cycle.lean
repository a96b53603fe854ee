/-
**A finite list that is repeated with a drift.**

The first `n` values of a sequence, repeated for ever, each round shifted by the same amount
against the one before.

Main definitions:

* `Cycle.cycle` — the repeated sequence.

Main results:

* `Cycle.strictMono_cycle` — **when the repeated sequence is strictly increasing**;
* `Cycle.cycle_succ_iff` — **when its steps repeat too**;
* `Cycle.cycle_nsmul` — equal steps, repeated with the drift that fits, are a progression.
-/
import Mathlib.Tactic

set_option relaxedAutoImplicit false
set_option autoImplicit false

namespace Cycle

variable {α : Type*} [AddCommGroup α] [PartialOrder α] [IsOrderedAddMonoid α]

/-- The values `f 0, …, f (n - 1)`, repeated for ever with the drift `d`. -/
def cycle (n : ℕ) (f : ℕ → α) (d : α) (k : ℕ) : α := f (k % n) + (k / n) • d

omit [PartialOrder α] [IsOrderedAddMonoid α] in
theorem cycle_mul_add {n r : ℕ} (hr : r < n) (f : ℕ → α) (d : α) (q : ℕ) :
    cycle n f d (n * q + r) = f r + q • d := by
  have hn : 0 < n := by omega
  rw [cycle, Nat.mul_add_mod, Nat.mod_eq_of_lt hr, Nat.mul_add_div hn, Nat.div_eq_of_lt hr,
    Nat.add_zero]

omit [PartialOrder α] [IsOrderedAddMonoid α] in
theorem cycle_mul_succ {n : ℕ} (hn : 0 < n) (f : ℕ → α) (d : α) (q : ℕ) :
    cycle n f d (n * (q + 1)) = f 0 + (q + 1) • d := by
  have h := cycle_mul_add hn f d (q + 1)
  rwa [Nat.add_zero] at h

/-- **When the repeated sequence is strictly increasing**: exactly when a round is, and its last
value is less than the first one of the next. -/
theorem strictMono_cycle {n : ℕ} (hn : 0 < n) {f : ℕ → α} {d : α} :
    StrictMono (cycle n f d) ↔ (∀ i, i + 1 < n → f i < f (i + 1)) ∧ f (n - 1) < f 0 + d := by
  constructor
  · intro hmono
    refine ⟨?_, ?_⟩
    · intro i hi
      have h := hmono (Nat.lt_succ_self (n * 0 + i))
      rwa [Nat.succ_eq_add_one, Nat.add_assoc, cycle_mul_add (by omega), cycle_mul_add hi, zero_smul,
        add_zero, add_zero] at h
    · have hlast : n * 0 + (n - 1) < n * (0 + 1) := by omega
      have h := hmono hlast
      rwa [cycle_mul_add (by omega), cycle_mul_succ hn, zero_smul, add_zero, zero_add,
        one_smul] at h
  · rintro ⟨hround, hnext⟩
    refine strictMono_nat_of_lt_succ fun k => ?_
    obtain ⟨q, r, hr, rfl⟩ : ∃ q r, r < n ∧ k = n * q + r :=
      ⟨k / n, k % n, Nat.mod_lt k hn, (Nat.div_add_mod k n).symm⟩
    rw [cycle_mul_add hr]
    rcases Nat.lt_or_ge (r + 1) n with hlt | hge
    · -- within a round
      rw [Nat.add_assoc, cycle_mul_add hlt]
      exact add_lt_add_left (hround r hlt) (q • d)
    · -- from one round to the next
      obtain rfl : r = n - 1 := by omega
      have heq : n * q + (n - 1) + 1 = n * (q + 1) := by
        rw [Nat.mul_succ]
        omega
      rw [heq, cycle_mul_succ hn, succ_nsmul', ← add_assoc]
      exact add_lt_add_left hnext (q • d)

omit [PartialOrder α] [IsOrderedAddMonoid α] in
/-- **When the steps of the repeated sequence repeat too**: exactly when they are the steps of the
first round, and the drift leads from its end to the next one. -/
theorem cycle_succ_iff {n : ℕ} (hn : 0 < n) {f g : ℕ → α} {d : α} :
    (∀ k, cycle n f d (k + 1) = cycle n f d k + g (k % n)) ↔
      (∀ i, i + 1 < n → f (i + 1) = f i + g i) ∧ f 0 + d = f (n - 1) + g (n - 1) := by
  constructor
  · intro hall
    refine ⟨?_, ?_⟩
    · intro i hi
      have h := hall (n * 0 + i)
      rwa [Nat.add_assoc, cycle_mul_add hi, cycle_mul_add (by omega), zero_smul, add_zero, add_zero,
        Nat.mul_add_mod, Nat.mod_eq_of_lt (by omega)] at h
    · have h := hall (n * 0 + (n - 1))
      have hend : n * 0 + (n - 1) + 1 = n * (0 + 1) := by omega
      rwa [hend, cycle_mul_succ hn, cycle_mul_add (by omega), zero_smul, add_zero, zero_add,
        one_smul, Nat.mul_add_mod, Nat.mod_eq_of_lt (by omega)] at h
  · rintro ⟨hround, hnext⟩ k
    obtain ⟨q, r, hr, rfl⟩ : ∃ q r, r < n ∧ k = n * q + r :=
      ⟨k / n, k % n, Nat.mod_lt k hn, (Nat.div_add_mod k n).symm⟩
    rw [cycle_mul_add hr, Nat.mul_add_mod, Nat.mod_eq_of_lt hr]
    rcases Nat.lt_or_ge (r + 1) n with hlt | hge
    · -- within a round
      rw [Nat.add_assoc, cycle_mul_add hlt, hround r hlt, add_right_comm]
    · -- from one round to the next
      obtain rfl : r = n - 1 := by omega
      have hend : n * q + (n - 1) + 1 = n * (q + 1) := by
        rw [Nat.mul_succ]
        omega
      rw [hend, cycle_mul_succ hn, succ_nsmul', ← add_assoc, hnext, add_right_comm]

omit [PartialOrder α] [IsOrderedAddMonoid α] in
/-- Equal steps, repeated with the drift that fits, are a progression. -/
theorem cycle_nsmul {n : ℕ} {f : ℕ → α} {d : α} (hn : 0 < n) (hf : ∀ i < n, f i = i • d) (k : ℕ) :
    cycle n f (n • d) k = k • d := by
  rw [cycle, hf _ (Nat.mod_lt k hn), ← mul_nsmul, ← add_nsmul, Nat.add_comm, Nat.div_add_mod]

end Cycle
