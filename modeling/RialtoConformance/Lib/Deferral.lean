/-
**Putting off a step.**

Two observations of a run may be independent of each other, and then it does not matter in which
order they were made.  Where the steps that make them commute, a step can be put off behind others,
and a run can be brought into an order in which all of some kind of steps come last.

Main definitions:

* `Runs.Swapped` — two lists of observations are the same but for the order of independent
  neighbours;
* `Runs.Machine.Commutes` — a step can be put off behind another;
* `Runs.Machine.Deferrable` — every step of a kind in a run may be put off.

Main results:

* `Runs.Swapped.filter_eq`, `Runs.Swapped.foldl_eq` — **what an order of independent observations
  does not change**;
* `Runs.Machine.run_deferred` — **a run with all steps of a kind put off to its end**.
-/
import RialtoConformance.Lib.Runs

set_option relaxedAutoImplicit false
set_option autoImplicit false

namespace Runs

variable {σ α ω β : Type*}

/-! ### Independent observations -/

/-- **The same observations but for the order of independent neighbours**: an `x` immediately
before a `y` may stand behind it when `indep x y`. -/
inductive Swapped (indep : ω → ω → Prop) : List ω → List ω → Prop
  | refl (o : List ω) : Swapped indep o o
  | swap (before later : List ω) {x y : ω} (h : indep x y) :
      Swapped indep (before ++ x :: y :: later) (before ++ y :: x :: later)
  | trans {o₁ o₂ o₃ : List ω} : Swapped indep o₁ o₂ → Swapped indep o₂ o₃ → Swapped indep o₁ o₃

namespace Swapped

variable {indep : ω → ω → Prop}

theorem context {o o' : List ω} (h : Swapped indep o o') (before later : List ω) :
    Swapped indep (before ++ o ++ later) (before ++ o' ++ later) := by
  induction h with
  | refl o => exact .refl _
  | swap b l hxy =>
      have := Swapped.swap (before ++ b) (l ++ later) hxy
      simpa only [List.append_assoc, List.cons_append] using this
  | trans _ _ ih₁ ih₂ => exact ih₁.trans ih₂

theorem append {o₁ o₁' o₂ o₂' : List ω} (h₁ : Swapped indep o₁ o₁') (h₂ : Swapped indep o₂ o₂') :
    Swapped indep (o₁ ++ o₂) (o₁' ++ o₂') := by
  have hleft := h₁.context [] o₂
  have hright := h₂.context o₁' []
  simp only [List.nil_append, List.append_nil] at hleft hright
  exact hleft.trans hright

theorem past {x : ω} : ∀ {o : List ω}, (∀ y ∈ o, indep x y) → Swapped indep (x :: o) (o ++ [x]) := by
  intro o
  induction o with
  | nil => intro _; exact .refl _
  | cons y o ih =>
      intro h
      have hfirst := Swapped.swap [] o (h y List.mem_cons_self)
      have hrest := (ih fun z hz => h z (List.mem_cons_of_mem _ hz)).context [y] []
      simp only [List.append_nil, List.singleton_append, List.nil_append] at hfirst hrest
      exact hfirst.trans hrest

theorem exchange : ∀ {o o' : List ω}, (∀ x ∈ o, ∀ y ∈ o', indep x y) →
    Swapped indep (o ++ o') (o' ++ o) := by
  intro o
  induction o with
  | nil => intro o' _; rw [List.append_nil]; exact .refl _
  | cons x o ih =>
      intro o' h
      have hrest := (ih fun z hz => h z (List.mem_cons_of_mem _ hz)).context [x] []
      have hfirst := (past (h x List.mem_cons_self)).context [] o
      simp only [List.append_nil, List.nil_append, List.cons_append, List.append_assoc]
        at hrest hfirst
      exact hrest.trans hfirst

/-- **A selection in which no two independent observations occur keeps its order.** -/
theorem filter_eq {p : ω → Bool} (hp : ∀ x y, indep x y → ¬ (p x = true ∧ p y = true))
    {o o' : List ω} (h : Swapped indep o o') : o.filter p = o'.filter p := by
  induction h with
  | refl o => rfl
  | @swap before later x y hxy =>
      have hnot := hp x y hxy
      rw [List.filter_append, List.filter_append]
      congr 1
      cases hx : p x with
      | false => cases hy : p y <;> simp [hx, hy]
      | true =>
          cases hy : p y with
          | false => simp [hx, hy]
          | true => exact absurd ⟨hx, hy⟩ hnot
  | trans _ _ ih₁ ih₂ => exact ih₁.trans ih₂

/-- **A summary to which independent observations contribute in either order** is the same. -/
theorem foldl_eq {f : β → ω → β} (hf : ∀ x y, indep x y → ∀ b, f (f b x) y = f (f b y) x)
    {o o' : List ω} (h : Swapped indep o o') (b : β) : o.foldl f b = o'.foldl f b := by
  induction h with
  | refl o => rfl
  | swap before later hxy =>
      rw [List.foldl_append, List.foldl_append, List.foldl_cons, List.foldl_cons, hf _ _ hxy]
      rfl
  | trans _ _ ih₁ ih₂ => exact ih₁.trans ih₂

end Swapped

/-! ### Putting steps off -/

namespace Machine

variable (m : Machine σ α ω)

/-- **In the state `s` the step `a` can be put off behind `b`**: both orders lead to the same
state, and what the two observe is independent. -/
def Commutes (indep : ω → ω → Prop) (s : σ) (a b : α) : Prop :=
  ∀ s₁ o₁ s₂ o₂, m.step s a = some (s₁, o₁) → m.step s₁ b = some (s₂, o₂) →
    (∀ x ∈ o₁, ∀ y ∈ o₂, indep x y) ∧ ∃ t, m.step s b = some (t, o₂) ∧ m.step t a = some (s₂, o₁)

/-- Every step of a kind in a run may be put off where it is taken. -/
def Deferrable (late : α → Bool) (may : σ → α → Prop) (s : σ) (as : List α) : Prop :=
  ∀ before a rest, as = before ++ a :: rest → late a = true → ∀ t o,
    m.run s before = some (t, o) → may t a

variable {m}

theorem Deferrable.mono {late : α → Bool} {may may' : σ → α → Prop} {s : σ} {as : List α}
    (h : m.Deferrable late may s as) (himp : ∀ t a, late a = true → may t a → may' t a) :
    m.Deferrable late may' s as :=
  fun before a rest has ha t o hrun => himp t a ha (h before a rest has ha t o hrun)

theorem Deferrable.tail {late : α → Bool} {may : σ → α → Prop} {s t : σ} {a : α} {as : List α}
    {o : List ω} (h : m.Deferrable late may s (a :: as)) (hstep : m.step s a = some (t, o)) :
    m.Deferrable late may t as := by
  intro before b rest has hb u o' hrun
  exact h (a :: before) b rest (by rw [has, List.cons_append]) hb u (o ++ o')
    (run_cons.2 ⟨t, o, o', hstep, hrun, rfl⟩)

theorem deferrable_of_forall {late : α → Bool} {may : σ → α → Prop} {s : σ} {as : List α}
    (h : ∀ a ∈ as, late a = false) : m.Deferrable late may s as := by
  intro before a rest has ha
  rw [h a (by rw [has]; simp)] at ha
  simp at ha

theorem Deferrable.cons {late : α → Bool} {may : σ → α → Prop} {s t : σ} {a : α} {as : List α}
    {o : List ω} (ha : late a = true → may s a) (hstep : m.step s a = some (t, o))
    (h : m.Deferrable late may t as) : m.Deferrable late may s (a :: as) := by
  intro before b rest has hb u p hrun
  cases before with
  | nil =>
      obtain ⟨rfl, -⟩ := Prod.mk.inj (Option.some.inj hrun)
      obtain ⟨rfl, -⟩ := List.cons.inj has
      exact ha hb
  | cons a' before =>
      obtain ⟨rfl, rfl⟩ := List.cons.inj has
      obtain ⟨v, p₁, p₂, hfirst, hlater, -⟩ := run_cons.1 hrun
      obtain ⟨rfl, rfl⟩ := Prod.mk.inj (Option.some.inj (hstep.symm.trans hfirst))
      exact h before b rest rfl hb u p₂ hlater

theorem Deferrable.append {late : α → Bool} {may : σ → α → Prop} :
    ∀ {as bs : List α} {s t : σ} {o : List ω}, m.Deferrable late may s as →
      m.run s as = some (t, o) → m.Deferrable late may t bs →
        m.Deferrable late may s (as ++ bs) := by
  intro as
  induction as with
  | nil =>
      intro bs s t o _ hrun h
      obtain ⟨rfl, -⟩ := Prod.mk.inj (Option.some.inj hrun)
      exact h
  | cons a as ih =>
      intro bs s t o hfirst hrun h
      obtain ⟨u, o₁, o₂, hstep, hrest, -⟩ := run_cons.1 hrun
      exact .cons (fun ha => hfirst [] a as rfl ha s [] rfl) hstep
        (ih (hfirst.tail hstep) hrest h)

theorem Deferrable.later {late : α → Bool} {may : σ → α → Prop} :
    ∀ {as bs : List α} {s t : σ} {o : List ω}, m.Deferrable late may s (as ++ bs) →
      m.run s as = some (t, o) → m.Deferrable late may t bs := by
  intro as
  induction as with
  | nil =>
      intro bs s t o h hrun
      obtain ⟨rfl, -⟩ := Prod.mk.inj (Option.some.inj hrun)
      exact h
  | cons a as ih =>
      intro bs s t o h hrun
      obtain ⟨u, o₁, o₂, hstep, hrest, -⟩ := run_cons.1 hrun
      exact ih (h.tail hstep) hrest

theorem Deferrable.earlier {late : α → Bool} {may : σ → α → Prop} {as bs : List α} {s : σ}
    (h : m.Deferrable late may s (as ++ bs)) : m.Deferrable late may s as := by
  intro before a rest has ha t o hrun
  exact h before a (rest ++ bs) (by rw [has, List.append_assoc, List.cons_append]) ha t o hrun

theorem run_past {late : α → Bool} {early : α → Prop} {may : σ → α → Prop} {indep : ω → ω → Prop}
    (hmay : ∀ s a b t o, may s a → early b → m.step s b = some (t, o) → may t a)
    (hcomm : ∀ s a b, may s a → late a = true → early b → m.Commutes indep s a b)
    {a : α} (ha : late a = true) : ∀ {bs : List α} {s s₁ s' : σ} {o₁ o₂ : List ω},
      (∀ b ∈ bs, early b) → may s a → m.step s a = some (s₁, o₁) →
        m.run s₁ bs = some (s', o₂) →
          (∀ x ∈ o₁, ∀ y ∈ o₂, indep x y) ∧
            ∃ t, m.run s bs = some (t, o₂) ∧ m.step t a = some (s', o₁) := by
  intro bs
  induction bs with
  | nil =>
      intro s s₁ s' o₁ o₂ _ _ hstep hrun
      obtain ⟨rfl, rfl⟩ := Prod.mk.inj (Option.some.inj hrun)
      exact ⟨by simp, s, rfl, hstep⟩
  | cons b bs ih =>
      intro s s₁ s' o₁ o₂ hbs hs hstep hrun
      obtain ⟨s₂, p, q, hb, hrest, rfl⟩ := run_cons.1 hrun
      have hearly := hbs b List.mem_cons_self
      obtain ⟨hp, t, hfirst, hlast⟩ := hcomm s a b hs ha hearly s₁ o₁ s₂ p hstep hb
      obtain ⟨hq, u, hrun', hend⟩ := ih (fun c hc => hbs c (List.mem_cons_of_mem _ hc))
        (hmay s a b t p hs hearly hfirst) hlast hrest
      refine ⟨?_, u, run_cons.2 ⟨t, p, q, hfirst, hrun', rfl⟩, hend⟩
      intro x hx y hy
      rcases List.mem_append.1 hy with hy | hy
      · exact hp x hx y hy
      · exact hq x hx y hy

/-- **A run with all steps of a kind put off to its end.** -/
theorem run_deferred {late : α → Bool} {early : α → Prop} {may : σ → α → Prop}
    {indep : ω → ω → Prop}
    (hmay : ∀ s a b t o, may s a → early b → m.step s b = some (t, o) → may t a)
    (hcomm : ∀ s a b, may s a → late a = true → early b → m.Commutes indep s a b) :
    ∀ {as : List α} {s s' : σ} {o : List ω}, (∀ a ∈ as, late a = false → early a) →
      m.Deferrable late may s as → m.run s as = some (s', o) →
        ∃ t o₁ o₂, m.run s (as.filter fun a => !late a) = some (t, o₁) ∧
          m.run t (as.filter late) = some (s', o₂) ∧ Swapped indep o (o₁ ++ o₂) := by
  intro as
  induction as with
  | nil =>
      intro s s' o _ _ hrun
      obtain ⟨rfl, rfl⟩ := Prod.mk.inj (Option.some.inj hrun)
      exact ⟨s, [], [], rfl, rfl, .refl _⟩
  | cons a as ih =>
      intro s s' o hkind hdefer hrun
      obtain ⟨s₁, p, q, hstep, hrest, rfl⟩ := run_cons.1 hrun
      have hkind' := fun b hb => hkind b (List.mem_cons_of_mem _ hb)
      obtain ⟨t, o₁, o₂, hearly, hlater, hswap⟩ := ih hkind' (hdefer.tail hstep) hrest
      cases hlate : late a with
      | false =>
          rw [List.filter_cons_of_pos (by simp [hlate]), List.filter_cons_of_neg (by simp [hlate])]
          refine ⟨t, p ++ o₁, o₂, run_cons.2 ⟨s₁, p, o₁, hstep, hearly, rfl⟩, hlater, ?_⟩
          rw [List.append_assoc]
          exact (Swapped.refl p).append hswap
      | true =>
          -- the step goes past those that come first now
          rw [List.filter_cons_of_neg (by simp [hlate]), List.filter_cons_of_pos hlate]
          have hs : may s a := hdefer [] a as rfl hlate s [] rfl
          have hbs : ∀ b ∈ as.filter fun a => !late a, early b := by
            intro b hb
            obtain ⟨hmem, hnot⟩ := List.mem_filter.1 hb
            exact hkind' b hmem (by simpa using hnot)
          obtain ⟨hind, u, hearly', hlast⟩ := run_past hmay hcomm hlate hbs hs hstep hearly
          refine ⟨u, o₁, p ++ o₂, hearly', run_cons.2 ⟨t, p, o₂, hlast, hlater, rfl⟩, ?_⟩
          have hfirst := (Swapped.refl p).append hswap
          have hpast := (Swapped.exchange hind).append (Swapped.refl o₂)
          rw [List.append_assoc, List.append_assoc] at hpast
          exact hfirst.trans hpast

end Machine

end Runs
