/-
**Histories in stages.**

A program that goes through its stages in order leaves a history in which the events of the stages
come in that order, each stage having one event at most, with any other events in between.

Main definitions:

* `Stages.Below` — only stages before the `n`-th have left an event;
* `Stages.InOrder` — the events of the stages come in order.

Main results:

* `Stages.InOrder.concat` — one more event;
* `Stages.InOrder.eq_of_stage` — a stage has one event;
* `Stages.InOrder.split_inj` — **a history is cut in one way** at the event of a stage;
* `Stages.InOrder.mem_between` — an event between two stages stands between theirs.
-/
import Mathlib.Tactic

set_option relaxedAutoImplicit false
set_option autoImplicit false

namespace Stages

variable {ε : Type*} {stage : ε → Option ℕ}

/-- Only stages before the `n`-th have left an event. -/
def Below (stage : ε → Option ℕ) (n : ℕ) (h : List ε) : Prop :=
  ∀ e ∈ h, ∀ r, stage e = some r → r < n

/-- **The events of the stages come in order.** -/
def InOrder (stage : ε → Option ℕ) (h : List ε) : Prop :=
  h.Pairwise fun a b => ∀ r r', stage a = some r → stage b = some r' → r < r'

theorem Below.mono {n n' : ℕ} {h : List ε} (hbelow : Below stage n h) (hle : n ≤ n') :
    Below stage n' h := fun e he r hr => (hbelow e he r hr).trans_le hle

theorem Below.concat {n : ℕ} {h : List ε} {e : ε} (hbelow : Below stage n h)
    (he : ∀ r, stage e = some r → r < n) : Below stage n (h ++ [e]) := by
  intro e' he' r hr
  rcases List.mem_append.1 he' with he' | he'
  · exact hbelow e' he' r hr
  · rw [List.mem_singleton.1 he'] at hr
    exact he r hr

/-- **One more event**, of a later stage than all those before it or of none. -/
theorem InOrder.concat {h : List ε} {e : ε} (horder : InOrder stage h)
    (he : ∀ r, stage e = some r → Below stage r h) : InOrder stage (h ++ [e]) := by
  refine List.pairwise_append.2 ⟨horder, List.pairwise_singleton _ _, ?_⟩
  intro a ha b hb r r' hr hr'
  rw [List.mem_singleton.1 hb] at hr'
  exact he r' hr' a ha r hr

/-- **A stage has one event.** -/
theorem InOrder.eq_of_stage {r : ℕ} {a b : ε} : ∀ {h : List ε}, InOrder stage h → a ∈ h → b ∈ h →
    stage a = some r → stage b = some r → a = b := by
  intro h
  induction h with
  | nil => intro _ ha; simp at ha
  | cons e h ih =>
      intro horder ha hb hra hrb
      obtain ⟨hfirst, hrest⟩ := List.pairwise_cons.1 horder
      rcases List.mem_cons.1 ha with rfl | ha'
      · rcases List.mem_cons.1 hb with rfl | hb'
        · rfl
        · exact absurd (hfirst b hb' r r hra hrb) (lt_irrefl r)
      · rcases List.mem_cons.1 hb with rfl | hb'
        · exact absurd (hfirst a ha' r r hrb hra) (lt_irrefl r)
        · exact ih hrest ha' hb' hra hrb

/-- **A history is cut in one way at the event of a stage.** -/
theorem InOrder.split_inj {r : ℕ} {a b : ε} : ∀ {before before' after after' : List ε},
    InOrder stage (before ++ a :: after) → stage a = some r → stage b = some r →
      before ++ a :: after = before' ++ b :: after' →
        before = before' ∧ a = b ∧ after = after' := by
  intro before
  induction before with
  | nil =>
      intro before' after after' horder ha hb heq
      cases before' with
      | nil =>
          obtain ⟨rfl, rfl⟩ := List.cons.inj heq
          exact ⟨rfl, rfl, rfl⟩
      | cons e before' =>
          -- the event of the stage would come twice
          obtain ⟨rfl, rfl⟩ := List.cons.inj heq
          have hlt := (List.pairwise_cons.1 horder).1 b (by simp)
          exact absurd (hlt r r ha hb) (lt_irrefl r)
  | cons e before ih =>
      intro before' after after' horder ha hb heq
      cases before' with
      | nil =>
          obtain ⟨rfl, rfl⟩ := List.cons.inj heq
          have hlt := (List.pairwise_cons.1 horder).1 a (by simp)
          exact absurd (hlt r r hb ha) (lt_irrefl r)
      | cons e' before' =>
          obtain ⟨rfl, htail⟩ := List.cons.inj heq
          obtain ⟨rfl, rfl, rfl⟩ := ih (List.pairwise_cons.1 horder).2 ha hb htail
          exact ⟨rfl, rfl, rfl⟩

/-- An event of a stage between those of two others stands between theirs. -/
theorem InOrder.mem_between {before window after : List ε} {a b e : ε} {ra rb re : ℕ}
    (horder : InOrder stage (before ++ a :: (window ++ b :: after))) (ha : stage a = some ra)
    (hb : stage b = some rb) (he : stage e = some re) (hlow : ra < re) (hhigh : re < rb)
    (hmem : e ∈ before ++ a :: (window ++ b :: after)) : e ∈ window := by
  obtain ⟨-, hrest, hbefore⟩ := List.pairwise_append.1 horder
  obtain ⟨-, hrest⟩ := List.pairwise_cons.1 hrest
  obtain ⟨-, hafter, -⟩ := List.pairwise_append.1 hrest
  simp only [List.mem_append, List.mem_cons] at hmem
  rcases hmem with hmem | rfl | hmem | rfl | hmem
  · have := hbefore e hmem a (by simp) re ra he ha
    omega
  · have := Option.some.inj (ha.symm.trans he)
    omega
  · exact hmem
  · have := Option.some.inj (hb.symm.trans he)
    omega
  · have := (List.pairwise_cons.1 hafter).1 e hmem rb re hb he
    omega

end Stages
