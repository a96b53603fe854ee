/-
**Regrouping digit streams.**

A stream of big-endian digits names a number, and a serial converter between two digit sizes —
shift the next small digit into an accumulator, hand out a large digit whenever enough bits have
gathered — is correct because it keeps that number.  This module fixes the number a digit list
names and the two facts every such converter needs: how appending digits changes the number, and
that a list of digits of known length is determined by it.

Main definitions:

* `Digits.value` — the number named by a big-endian digit list.

Main results:

* `Digits.value_append` — the number named by a concatenation;
* `Digits.value_mod` — the low bits of a number are those of its last digit;
* `Digits.value_inj` — **digits are determined** by their number and how many there are;
* `Digits.shiftIn_mod` — shifting a small digit into an accumulator that wraps around does not
  disturb the low bits that have not been handed out;
* `Digits.split_mod` — handing out the upper part of the gathered bits;
* `Digits.value_inj_of_shift` — two lists agree once their numbers agree up to trailing bits.
-/
import Mathlib.Tactic
import Mathlib.Data.Nat.Digits.Lemmas

set_option relaxedAutoImplicit false
set_option autoImplicit false

namespace Digits

/-- **The number named by a digit list**, most significant digit first. -/
def value (b : ℕ) (ds : List ℕ) : ℕ := Nat.ofDigits b ds.reverse

@[simp] theorem value_nil (b : ℕ) : value b [] = 0 := rfl

@[simp] theorem value_singleton (b d : ℕ) : value b [d] = d := by
  simp [value]

theorem value_append (b : ℕ) (xs ys : List ℕ) :
    value b (xs ++ ys) = value b xs * b ^ ys.length + value b ys := by
  simp only [value, List.reverse_append, Nat.ofDigits_append, List.length_reverse]
  ring

theorem value_concat (b : ℕ) (xs : List ℕ) (d : ℕ) :
    value b (xs ++ [d]) = value b xs * b + d := by
  simp [value_append]

theorem value_cons (b d : ℕ) (ds : List ℕ) :
    value b (d :: ds) = d * b ^ ds.length + value b ds := by
  rw [← List.singleton_append, value_append, value_singleton]

/-- The low bits of a number are those of its last digit. -/
theorem value_mod {k w : ℕ} (hk : k ≤ w) (ds : List ℕ) :
    value (2 ^ w) ds % 2 ^ k = ds.getLastD 0 % 2 ^ k := by
  rcases List.eq_nil_or_concat ds with rfl | ⟨xs, d, rfl⟩
  · rfl
  · have hdvd : 2 ^ k ∣ value (2 ^ w) xs * 2 ^ w := (pow_dvd_pow 2 hk).mul_left _
    rw [List.concat_eq_append, value_concat, List.getLastD_concat, Nat.add_mod,
      Nat.mod_eq_zero_of_dvd hdvd, Nat.zero_add, Nat.mod_mod]

/-- **Digits are determined** by the number they name and how many there are. -/
theorem value_inj {b : ℕ} (hb : 1 < b) {xs ys : List ℕ} (hlen : xs.length = ys.length)
    (hxs : ∀ d ∈ xs, d < b) (hys : ∀ d ∈ ys, d < b) (h : value b xs = value b ys) : xs = ys := by
  have hrev : xs.reverse = ys.reverse :=
    Nat.ofDigits_inj_of_len_eq hb (by simpa using hlen)
      (fun d hd => hxs d (List.mem_reverse.1 hd)) (fun d hd => hys d (List.mem_reverse.1 hd)) h
  simpa using hrev

/-- Two digit lists of one length agree once their numbers agree up to `k` trailing bits. -/
theorem value_inj_of_shift {b k r : ℕ} (hb : 1 < b) {xs ys : List ℕ}
    (hlen : xs.length = ys.length) (hxs : ∀ d ∈ xs, d < b) (hys : ∀ d ∈ ys, d < b)
    (hr : r < 2 ^ k) (h : value b xs * 2 ^ k + r = value b ys * 2 ^ k) : xs = ys ∧ r = 0 := by
  have hpos : 0 < 2 ^ k := Nat.two_pow_pos k
  have hdiv : value b xs = value b ys := by
    have := congrArg (· / 2 ^ k) h
    simpa [Nat.add_div_of_dvd_right, Nat.mul_div_cancel _ hpos, Nat.div_eq_of_lt hr] using this
  refine ⟨value_inj hb hlen hxs hys hdiv, ?_⟩
  rw [hdiv] at h
  omega

/-! ### The accumulator of a serial converter -/

/-- Shifting a `w`-bit digit into an accumulator of `W` bits, the old upper bits falling out: the
low `k + w` bits are the old low `k` bits followed by the digit. -/
theorem shiftIn_mod {a v k w W : ℕ} (hv : v < 2 ^ w) (hW : k + w ≤ W) :
    (a * 2 ^ w + v) % 2 ^ W % 2 ^ (k + w) = a % 2 ^ k * 2 ^ w + v := by
  rw [Nat.mod_mod_of_dvd _ (pow_dvd_pow 2 hW), Nat.add_comm k w, pow_add]
  have hlow : (a * 2 ^ w + v) % 2 ^ w = v := by
    rw [Nat.mul_comm, Nat.mul_add_mod, Nat.mod_eq_of_lt hv]
  have hhigh : (a * 2 ^ w + v) / 2 ^ w = a := by
    rw [Nat.mul_comm, Nat.mul_add_div (Nat.two_pow_pos w), Nat.div_eq_of_lt hv, Nat.add_zero]
  rw [Nat.mod_mul, hlow, hhigh, Nat.add_comm, Nat.mul_comm]

/-- Handing out the upper `n` of `k + n` gathered bits keeps the lower `k`. -/
theorem split_mod (a k n : ℕ) :
    a % 2 ^ (k + n) = a / 2 ^ k % 2 ^ n * 2 ^ k + a % 2 ^ k := by
  rw [pow_add, Nat.mod_mul, Nat.mul_comm, Nat.add_comm]

end Digits
