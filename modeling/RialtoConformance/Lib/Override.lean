/-
**Overriding a finite map by a list of pairs.**

Writing the pairs of a list into an ordered map one after the other, the last pair winning for a
key that occurs twice.  The result is described by its lookups: what the list says last about a
key, and otherwise what the map said before.

Main definitions:

* `Override.override` — the map after the writes;
* `Override.lastValue` — what a list says last about a key.

Main results:

* `Override.getElem?_override`, `Override.contains_override` — the lookups of the result;
* `Override.override_eq_self_iff` — **when the writes change nothing**.
-/
import Mathlib.Tactic
import Std.Data.ExtTreeMap

set_option relaxedAutoImplicit false
set_option autoImplicit false

namespace Override

variable {κ ν : Type*} {cmp : κ → κ → Ordering} [Std.TransCmp cmp] [Std.LawfulEqCmp cmp]

/-- The map after writing the pairs of the list in order. -/
def override (m : Std.ExtTreeMap κ ν cmp) (ps : List (κ × ν)) : Std.ExtTreeMap κ ν cmp :=
  ps.foldl (fun m p => m.insert p.1 p.2) m

omit [Std.LawfulEqCmp cmp] in
@[simp] theorem override_nil (m : Std.ExtTreeMap κ ν cmp) : override m [] = m := rfl

omit [Std.LawfulEqCmp cmp] in
theorem override_cons (m : Std.ExtTreeMap κ ν cmp) (p : κ × ν) (ps : List (κ × ν)) :
    override m (p :: ps) = override (m.insert p.1 p.2) ps := rfl

variable [DecidableEq κ]

/-- What the list says last about the key `k`. -/
def lastValue (k : κ) : List (κ × ν) → Option ν
  | [] => none
  | p :: ps => (lastValue k ps).or (if p.1 = k then some p.2 else none)

theorem isSome_lastValue {k : κ} : ∀ {ps : List (κ × ν)},
    (lastValue k ps).isSome ↔ k ∈ ps.map Prod.fst := by
  intro ps
  induction ps with
  | nil => simp [lastValue]
  | cons p ps ih =>
      rw [lastValue, Option.isSome_or, Bool.or_eq_true, ih, List.map_cons, List.mem_cons, or_comm]
      refine or_congr_left ?_
      split
      · rename_i h; simp [h]
      · rename_i h; simpa using Ne.symm h

/-- A list of keys, each with what a function gives it, says of each of them just that. -/
theorem lastValue_map {f : κ → ν} {k : κ} : ∀ {ks : List κ},
    lastValue k (ks.map fun x => (x, f x)) = if k ∈ ks then some (f k) else none := by
  intro ks
  induction ks with
  | nil => rfl
  | cons x ks ih =>
      rw [List.map_cons, lastValue, ih]
      by_cases hx : x = k
      · subst hx
        by_cases hk : x ∈ ks <;> simp [hk]
      · by_cases hk : k ∈ ks <;> simp [hk, hx, Ne.symm hx]

/-- **The lookups after the writes**: what the list says last, otherwise what the map said. -/
theorem getElem?_override {k : κ} : ∀ {ps : List (κ × ν)} {m : Std.ExtTreeMap κ ν cmp},
    (override m ps)[k]? = (lastValue k ps).or m[k]? := by
  intro ps
  induction ps with
  | nil => intro m; simp [lastValue]
  | cons p ps ih =>
      intro m
      rw [override_cons, ih, lastValue, Std.ExtTreeMap.getElem?_insert]
      by_cases h : p.1 = k
      · subst h
        simp [Std.ReflCmp.compare_self]
      · have hne : cmp p.1 k ≠ .eq := fun hc => h (Std.LawfulEqCmp.eq_of_compare hc)
        simp [h, hne]

/-- The keys after the writes: those written and those that were there. -/
theorem contains_override {k : κ} {ps : List (κ × ν)} {m : Std.ExtTreeMap κ ν cmp} :
    (override m ps).contains k = true ↔ k ∈ ps.map Prod.fst ∨ m.contains k = true := by
  rw [Std.ExtTreeMap.contains_eq_isSome_getElem?, getElem?_override, Option.isSome_or,
    Bool.or_eq_true, isSome_lastValue, ← Std.ExtTreeMap.contains_eq_isSome_getElem?]

/-- **The writes change nothing** exactly when the map already holds, for each key of the list,
the value the list gives it last. -/
theorem override_eq_self_iff {ps : List (κ × ν)} {m : Std.ExtTreeMap κ ν cmp} :
    override m ps = m ↔ ∀ k v, lastValue k ps = some v → m[k]? = some v := by
  constructor
  · intro h k v hv
    rw [← h, getElem?_override, hv, Option.some_or]
  · intro h
    refine Std.ExtTreeMap.ext_getElem? fun k => ?_
    rw [getElem?_override]
    cases hv : lastValue k ps with
    | none => rfl
    | some v => rw [h k v hv, Option.some_or]

end Override
