/-
**The part of a machine.**

A machine may hold several parts that have nothing to do with each other, each reached by the
labels addressed to it.  What such a part goes through in a run of the whole is a run of the part
alone, whatever stands in between.

Main definitions:

* `Runs.Machine.Projects` — a machine shows another one as a part of itself.

Main results:

* `Runs.Machine.Projects.run` — **a run of the whole is a run of the part**.
-/
import RialtoConformance.Lib.Runs

set_option relaxedAutoImplicit false
set_option autoImplicit false

namespace Runs

namespace Machine

variable {σ α ω τ β ξ : Type*}

/-- **A machine shows `part` as a part of itself**: `view` is its state as long as it is there,
`own` what a label is to it, and `seen` what it has to do with an observation.  Labels that `spare`
does not hold of may end it. -/
structure Projects (whole : Machine σ α ω) (part : Machine τ β ξ) (view : σ → Option τ)
    (own : α → Option β) (seen : ω → Option ξ) (spare : α → Prop) : Prop where
  /-- A label addressed to the part is a step of the part. -/
  step_own : ∀ {s s' : σ} {a : α} {o : List ω} {t : τ} {b : β}, whole.step s a = some (s', o) →
    view s = some t → own a = some b →
      ∃ t', part.step t b = some (t', o.filterMap seen) ∧ view s' = some t'
  /-- Any other label leaves it alone. -/
  step_other : ∀ {s s' : σ} {a : α} {o : List ω} {t : τ}, whole.step s a = some (s', o) →
    view s = some t → own a = none → spare a → view s' = some t ∧ o.filterMap seen = []

/-- **A run of the whole is a run of the part**, with the labels addressed to it and what they
observe. -/
theorem Projects.run {whole : Machine σ α ω} {part : Machine τ β ξ} {view : σ → Option τ}
    {own : α → Option β} {seen : ω → Option ξ} {spare : α → Prop}
    (h : whole.Projects part view own seen spare) :
    ∀ {as : List α} {s s' : σ} {o : List ω} {t : τ}, (∀ a ∈ as, spare a) →
      whole.run s as = some (s', o) → view s = some t →
        ∃ t', part.run t (as.filterMap own) = some (t', o.filterMap seen) ∧
          view s' = some t' := by
  intro as
  induction as with
  | nil =>
      intro s s' o t _ hrun hview
      obtain ⟨rfl, rfl⟩ := Prod.mk.inj (Option.some.inj hrun)
      exact ⟨t, rfl, hview⟩
  | cons a as ih =>
      intro s s' o t hspare hrun hview
      obtain ⟨s₁, o₁, o₂, hstep, hrest, rfl⟩ := run_cons.1 hrun
      have hspare' := fun b hb => hspare b (List.mem_cons_of_mem _ hb)
      rw [List.filterMap_append]
      cases hown : own a with
      | none =>
          obtain ⟨hkept, hnone⟩ := h.step_other hstep hview hown (hspare a List.mem_cons_self)
          obtain ⟨t', hrun', hview'⟩ := ih hspare' hrest hkept
          rw [List.filterMap_cons_none hown, hnone, List.nil_append]
          exact ⟨t', hrun', hview'⟩
      | some b =>
          obtain ⟨t₁, hfirst, hview₁⟩ := h.step_own hstep hview hown
          obtain ⟨t', hrun', hview'⟩ := ih hspare' hrest hview₁
          rw [List.filterMap_cons_some hown]
          exact ⟨t', run_cons.2 ⟨t₁, o₁.filterMap seen, o₂.filterMap seen, hfirst, hrun', rfl⟩,
            hview'⟩

end Machine

end Runs
