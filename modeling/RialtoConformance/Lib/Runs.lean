/-
**Runs of a labelled machine.**

A machine takes a label in a state, if the label can happen there, to a new state and to what is
observed on the way.  A run is a list of labels; its observations are those of its steps, in order.

Main definitions:

* `Runs.Machine`, `Runs.Machine.run` — a machine and its runs;
* `Runs.Machine.Reachable` — what some run leads to;
* `Runs.Machine.recorded` — a machine that keeps a record on the side.

Main results:

* `Runs.Machine.run_append` — a run in two parts;
* `Runs.Machine.run_induction` — **what each step preserves holds after every run**, of the state
  and of everything observed so far;
* `Runs.Machine.run_bounded` — a measure that every step makes smaller bounds the length of a run;
* `Runs.Machine.run_potential` — **what the steps of a run cost together**, when each pays out of a
  potential and of what it adds to it;
* `Runs.Machine.run_forall₂` — **what the labels of a run leave in its observations**;
* `Runs.Machine.run_recorded` — **a record changes no run**.
-/
import Mathlib.Tactic

set_option relaxedAutoImplicit false
set_option autoImplicit false

namespace Runs

variable {σ α ω γ : Type*}

/-- **A machine**: what a label does in a state, if it can happen there, and what is observed. -/
structure Machine (σ α ω : Type*) where
  /-- The state after a label, and the observations. -/
  step : σ → α → Option (σ × List ω)

namespace Machine

variable (m : Machine σ α ω)

/-- A run: the labels one after the other, the observations in order. -/
def run : σ → List α → Option (σ × List ω)
  | s, [] => some (s, [])
  | s, a :: as =>
      (m.step s a).bind fun r => (run r.1 as).map fun r' => (r'.1, r.2 ++ r'.2)

@[simp] theorem run_nil (s : σ) : m.run s [] = some (s, []) := rfl

variable {m}

theorem run_cons {s s'' : σ} {a : α} {as : List α} {o : List ω} :
    m.run s (a :: as) = some (s'', o) ↔
      ∃ s' o₁ o₂, m.step s a = some (s', o₁) ∧ m.run s' as = some (s'', o₂) ∧ o = o₁ ++ o₂ := by
  rw [run, Option.bind_eq_some_iff]
  constructor
  · rintro ⟨⟨s', o₁⟩, hstep, hrest⟩
    rw [Option.map_eq_some_iff] at hrest
    obtain ⟨⟨t, o₂⟩, hrun, heq⟩ := hrest
    obtain ⟨rfl, rfl⟩ := Prod.mk.inj heq
    exact ⟨s', o₁, o₂, hstep, hrun, rfl⟩
  · rintro ⟨s', o₁, o₂, hstep, hrun, rfl⟩
    exact ⟨(s', o₁), hstep, by rw [hrun]; rfl⟩

theorem run_singleton {s s' : σ} {a : α} {o : List ω} :
    m.run s [a] = some (s', o) ↔ m.step s a = some (s', o) := by
  rw [run_cons]
  constructor
  · rintro ⟨t, o₁, o₂, hstep, hrun, rfl⟩
    obtain ⟨rfl, rfl⟩ := Prod.mk.inj (Option.some.inj hrun)
    rw [hstep, List.append_nil]
  · intro h
    exact ⟨s', o, [], h, rfl, (List.append_nil o).symm⟩

/-- **A run in two parts.** -/
theorem run_append {s s'' : σ} : ∀ {as bs : List α} {o : List ω},
    m.run s (as ++ bs) = some (s'', o) ↔
      ∃ s' o₁ o₂, m.run s as = some (s', o₁) ∧ m.run s' bs = some (s'', o₂) ∧ o = o₁ ++ o₂ := by
  intro as
  induction as generalizing s with
  | nil =>
      intro bs o
      constructor
      · intro h
        exact ⟨s, [], o, rfl, h, rfl⟩
      · rintro ⟨s', o₁, o₂, h₁, h₂, rfl⟩
        obtain ⟨rfl, rfl⟩ := Prod.mk.inj (Option.some.inj h₁)
        exact h₂
  | cons a as ih =>
      intro bs o
      rw [List.cons_append, run_cons]
      constructor
      · rintro ⟨s', o₁, o₂, hstep, hrun, rfl⟩
        obtain ⟨t, p₁, p₂, has, hbs, rfl⟩ := ih.1 hrun
        exact ⟨t, o₁ ++ p₁, p₂, run_cons.2 ⟨s', o₁, p₁, hstep, has, rfl⟩, hbs,
          (List.append_assoc ..).symm⟩
      · rintro ⟨t, o₁, o₂, hrun, hbs, rfl⟩
        obtain ⟨s', p₁, p₂, hstep, has, rfl⟩ := run_cons.1 hrun
        exact ⟨s', p₁, p₂ ++ o₂, hstep, ih.2 ⟨t, p₂, o₂, has, hbs, rfl⟩, List.append_assoc ..⟩

/-- **What each step preserves holds after every run**, of the state and of everything observed so
far. -/
theorem run_induction {P : σ → List ω → Prop}
    (hstep : ∀ s o a s' o', P s o → m.step s a = some (s', o') → P s' (o ++ o')) :
    ∀ {as : List α} {s s' : σ} {o o' : List ω}, P s o → m.run s as = some (s', o') →
      P s' (o ++ o') := by
  intro as
  induction as with
  | nil =>
      intro s s' o o' hP hrun
      obtain ⟨rfl, rfl⟩ := Prod.mk.inj (Option.some.inj hrun)
      rwa [List.append_nil]
  | cons a as ih =>
      intro s s' o o' hP hrun
      obtain ⟨t, o₁, o₂, h₁, h₂, rfl⟩ := run_cons.1 hrun
      have := ih (hstep s o a t o₁ hP h₁) h₂
      rwa [List.append_assoc] at this

theorem run_invariant {P : σ → Prop} (hstep : ∀ s a s' o, P s → m.step s a = some (s', o) → P s')
    {as : List α} {s s' : σ} {o : List ω} (hs : P s) (hrun : m.run s as = some (s', o)) : P s' :=
  run_induction (P := fun s _ => P s) (fun s _ a s' o' hs h => hstep s a s' o' hs h)
    (o := []) hs hrun

/-- What each step with a label that is allowed preserves of the state holds after every run of
such labels. -/
theorem run_invariant_of_forall {P : σ → Prop} {Q : α → Prop}
    (hstep : ∀ s a s' o, Q a → P s → m.step s a = some (s', o) → P s') :
    ∀ {as : List α} {s s' : σ} {o : List ω}, (∀ a ∈ as, Q a) → P s →
      m.run s as = some (s', o) → P s' := by
  intro as
  induction as with
  | nil =>
      intro s s' o _ hs hrun
      obtain ⟨rfl, -⟩ := Prod.mk.inj (Option.some.inj hrun)
      exact hs
  | cons a as ih =>
      intro s s' o hall hs hrun
      obtain ⟨t, o₁, o₂, hfirst, hrest, -⟩ := run_cons.1 hrun
      exact ih (fun b hb => hall b (List.mem_cons_of_mem _ hb))
        (hstep s a t o₁ (hall a List.mem_cons_self) hs hfirst) hrest

/-- **A measure that every step makes smaller bounds the length of a run.** -/
theorem run_bounded {P : σ → Prop} {μ : σ → ℕ}
    (hstep : ∀ s a s' o, P s → m.step s a = some (s', o) → P s' ∧ μ s' < μ s) :
    ∀ {as : List α} {s s' : σ} {o : List ω}, P s → m.run s as = some (s', o) →
      as.length + μ s' ≤ μ s := by
  intro as
  induction as with
  | nil =>
      intro s s' o _ hrun
      obtain ⟨rfl, -⟩ := Prod.mk.inj (Option.some.inj hrun)
      exact (Nat.zero_add _).le
  | cons a as ih =>
      intro s s' o hs hrun
      obtain ⟨t, o₁, o₂, hfirst, hrest, -⟩ := run_cons.1 hrun
      obtain ⟨ht, hlt⟩ := hstep s a t o₁ hs hfirst
      have := ih ht hrest
      rw [List.length_cons]
      omega

/-- **The potential method.**  Where every step pays for itself out of the potential of the state it
leaves and of its own credit, so does every run. -/
theorem run_potential {P : σ → Prop} {Q : α → Prop} {μ : σ → ℕ} {cost credit : α → ℕ}
    (hstep : ∀ s a s' o, Q a → P s → m.step s a = some (s', o) →
      P s' ∧ cost a + μ s' ≤ μ s + credit a) :
    ∀ {as : List α} {s s' : σ} {o : List ω}, (∀ a ∈ as, Q a) → P s → m.run s as = some (s', o) →
      (as.map cost).sum + μ s' ≤ μ s + (as.map credit).sum := by
  intro as
  induction as with
  | nil =>
      intro s s' o _ _ hrun
      obtain ⟨rfl, -⟩ := Prod.mk.inj (Option.some.inj hrun)
      simp
  | cons a as ih =>
      intro s s' o hall hs hrun
      obtain ⟨t, o₁, o₂, hfirst, hrest, -⟩ := run_cons.1 hrun
      obtain ⟨ht, hpaid⟩ := hstep s a t o₁ (hall a List.mem_cons_self) hs hfirst
      have := ih (fun b hb => hall b (List.mem_cons_of_mem _ hb)) ht hrest
      rw [List.map_cons, List.map_cons, List.sum_cons, List.sum_cons]
      omega

/-- **What the labels of a run leave in its observations.**  Where each step leaves, for its label,
what belongs to the label, so does every run, in order. -/
theorem run_forall₂ {β : Type*} {R : β → ω → Prop} {f : α → Option β} {g : ω → Bool}
    (hstep : ∀ s a s' o, m.step s a = some (s', o) →
      List.Forall₂ R (f a).toList (o.filter g)) :
    ∀ {as : List α} {s s' : σ} {o : List ω}, m.run s as = some (s', o) →
      List.Forall₂ R (as.filterMap f) (o.filter g) := by
  intro as
  induction as with
  | nil =>
      intro s s' o hrun
      obtain ⟨rfl, rfl⟩ := Prod.mk.inj (Option.some.inj hrun)
      exact .nil
  | cons a as ih =>
      intro s s' o hrun
      obtain ⟨t, o₁, o₂, hfirst, hrest, rfl⟩ := run_cons.1 hrun
      have hcons : (a :: as).filterMap f = (f a).toList ++ as.filterMap f := by
        cases hlabel : f a with
        | none => rw [List.filterMap_cons_none hlabel]; rfl
        | some b => rw [List.filterMap_cons_some hlabel]; rfl
      rw [hcons, List.filter_append]
      exact List.rel_append (hstep s a t o₁ hfirst) (ih hrest)

/-- A state that some run from `s` leads to. -/
def Reachable (m : Machine σ α ω) (s s' : σ) : Prop := ∃ as o, m.run s as = some (s', o)

/-- The machine with a record kept on the side: what is written into it depends on the state and
the label of each step. -/
def recorded (m : Machine σ α ω) (note : σ → α → γ → γ) : Machine (σ × γ) α ω where
  step s a := (m.step s.1 a).map fun r => ((r.1, note s.1 a s.2), r.2)

theorem step_recorded {note : σ → α → γ → γ} {s : σ} {a : α} {s' : σ × γ} {g : γ} {o : List ω} :
    (m.recorded note).step (s, g) a = some (s', o) ↔
      m.step s a = some (s'.1, o) ∧ s'.2 = note s a g := by
  obtain ⟨t, g'⟩ := s'
  simp only [recorded, Option.map_eq_some_iff, Prod.mk.injEq]
  constructor
  · rintro ⟨⟨t', o'⟩, hstep, ⟨rfl, rfl⟩, rfl⟩
    exact ⟨hstep, rfl⟩
  · rintro ⟨hstep, rfl⟩
    exact ⟨(t, o), hstep, ⟨rfl, rfl⟩, rfl⟩

/-- **A record changes no run.** -/
theorem run_recorded {note : σ → α → γ → γ} : ∀ {as : List α} {s s' : σ} {o : List ω} (g : γ),
    m.run s as = some (s', o) ↔ ∃ g', (m.recorded note).run (s, g) as = some ((s', g'), o) := by
  intro as
  induction as with
  | nil =>
      intro s s' o g
      simp only [run_nil, Option.some.injEq, Prod.mk.injEq]
      constructor
      · rintro ⟨rfl, rfl⟩
        exact ⟨g, ⟨rfl, rfl⟩, rfl⟩
      · rintro ⟨g', ⟨rfl, rfl⟩, rfl⟩
        exact ⟨rfl, rfl⟩
  | cons a as ih =>
      intro s s' o g
      constructor
      · intro hrun
        obtain ⟨t, o₁, o₂, hstep, hrest, rfl⟩ := run_cons.1 hrun
        obtain ⟨g', hrest⟩ := (ih (note s a g)).1 hrest
        exact ⟨g', run_cons.2 ⟨(t, note s a g), o₁, o₂, step_recorded.2 ⟨hstep, rfl⟩, hrest, rfl⟩⟩
      · rintro ⟨g', hrun⟩
        obtain ⟨⟨t, g₁⟩, o₁, o₂, hstep, hrest, rfl⟩ := run_cons.1 hrun
        exact run_cons.2 ⟨t, o₁, o₂, (step_recorded.1 hstep).1, (ih g₁).2 ⟨g', hrest⟩, rfl⟩

end Machine

end Runs
