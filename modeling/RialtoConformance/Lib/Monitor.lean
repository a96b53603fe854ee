/-
**A mutex with a condition variable.**

Operations change a value under a lock, and some of them call `notify_all` behind it.  Threads wait
until a condition on the value holds: they look at it under the lock, sleep when it does not hold,
and look again when they are woken, by a notification or without any reason; when the deadline of a
wait has passed, the thread looks once more and returns what it sees.

Main definitions:

* `Monitor.Guarded` — the operations, the conditions, and which operations notify;
* `Monitor.machine` — the value, the notifications still to come and the waiting threads;
* `Monitor.Latched` — every condition is made true by operations that notify, and stays so.

Main results:

* `Monitor.foldl_latest` — what the last operation of a kind has left;
* `Monitor.awake_of_run` — **no wake-up is lost**: a thread sleeps through its condition only while
  a notification is still to come;
* `Monitor.returned_eq` — a wait returns what holds when it returns;
* `Monitor.returned_iff` — **a wait returns whether its condition has been made true before**;
* `Monitor.returns_true` — a wait whose condition holds returns behind the notification that is to
  come, without a further operation and before its deadline.
-/
import RialtoConformance.Lib.Runs

set_option relaxedAutoImplicit false
set_option autoImplicit false

namespace Monitor

open Runs

variable {σ ω κ ι : Type*}

/-! ### What the last operation of a kind has left -/

theorem split_concat {α : Type*} {l before after : List α} {e x : α}
    (h : l ++ [e] = before ++ x :: after) :
    l = before ∧ e = x ∨ ∃ after', l = before ++ x :: after' ∧ after = after' ++ [e] := by
  rcases List.eq_nil_or_concat after with rfl | ⟨after', e', rfl⟩
  · obtain ⟨rfl, hlast⟩ := List.append_inj' h rfl
    exact Or.inl ⟨rfl, (List.cons.inj hlast).1⟩
  · rw [List.concat_eq_append, ← List.cons_append, ← List.append_assoc] at h
    obtain ⟨hl, he⟩ := List.append_inj' h rfl
    exact Or.inr ⟨after', hl, by rw [(List.cons.inj he).1, List.concat_eq_append]⟩

/-- **A part of the value that operations of one kind set** is what the last of them has left, or
what it was in the beginning if there was none. -/
theorem foldl_latest {β γ : Type*} {f : β → ω → β} {part : β → γ} {sets : ω → Bool}
    {left : β → ω → γ} (hpart : ∀ b x, part (f b x) = if sets x then left b x else part b)
    (b : β) {c : γ} : ∀ h : List ω, part (h.foldl f b) = c ↔
      (∃ before x after, h = before ++ x :: after ∧ sets x = true ∧
        left (before.foldl f b) x = c ∧ ∀ y ∈ after, sets y = false) ∨
      part b = c ∧ ∀ y ∈ h, sets y = false := by
  intro h
  induction h using List.reverseRecOn with
  | nil => simp
  | append_singleton h e ih =>
      rw [List.foldl_append, List.foldl_cons, List.foldl_nil, hpart]
      cases he : sets e with
      | true =>
          rw [if_pos rfl]
          constructor
          · intro hc
            exact Or.inl ⟨h, e, [], rfl, he, hc, by simp⟩
          · rintro (⟨before, x, after, hsplit, hx, hc, hafter⟩ | ⟨-, hnone⟩)
            · rcases split_concat hsplit with ⟨rfl, rfl⟩ | ⟨after', -, rfl⟩
              · exact hc
              · have := hafter e (by simp)
                rw [he] at this
                exact absurd this (by simp)
            · rw [hnone e (by simp)] at he
              exact absurd he (by simp)
      | false =>
          rw [if_neg (by simp), ih]
          refine or_congr ⟨?_, ?_⟩ (and_congr_right fun _ => ?_)
          · rintro ⟨before, x, after, rfl, hx, hc, hafter⟩
            refine ⟨before, x, after ++ [e], by simp, hx, hc, ?_⟩
            intro y hy
            rcases List.mem_append.1 hy with hy | hy
            · exact hafter y hy
            · rwa [List.mem_singleton.1 hy]
          · rintro ⟨before, x, after, hsplit, hx, hc, hafter⟩
            rcases split_concat hsplit with ⟨rfl, rfl⟩ | ⟨after', rfl, rfl⟩
            · rw [he] at hx
              exact absurd hx (by simp)
            · exact ⟨before, x, after', rfl, hx, hc,
                fun y hy => hafter y (List.mem_append_left _ hy)⟩
          · simp only [List.forall_mem_append, List.forall_mem_singleton, he, and_true]

/-! ### The machine -/

/-- **What a mutex guards**: the value, its operations and the conditions waited for. -/
structure Guarded (σ ω κ : Type*) where
  /-- What an operation does under the lock. -/
  apply : σ → ω → σ
  /-- The operation calls `notify_all` behind the lock. -/
  notifies : ω → Bool
  /-- The condition of a wait. -/
  holds : κ → σ → Bool

/-- **Every condition is made true by operations that notify, and stays so.** -/
structure Latched (g : Guarded σ ω κ) (makes : κ → ω → Bool) : Prop where
  holds_apply : ∀ k s op, g.holds k (g.apply s op) = (makes k op || g.holds k s)
  announced : ∀ k op, makes k op = true → g.notifies op = true

/-- Where a thread stands. -/
inductive Position (κ : Type*)
  /-- Not in a wait. -/
  | out
  /-- About to look at its condition. -/
  | looking (k : κ)
  | asleep (k : κ)

def Position.woken : Position κ → Position κ
  | .asleep k => .looking k
  | p => p

/-- The value, the number of notifications still to come, and the threads. -/
structure State (σ κ ι : Type*) where
  value : σ
  pending : ℕ
  position : ι → Position κ

/-- A step of one of the threads. -/
inductive Step (ω κ ι : Type*)
  /-- An operation, up to the end of its lock. -/
  | operate (op : ω)
  /-- The `notify_all` of an operation that has left the lock. -/
  | notifyAll
  /-- A thread begins to wait. -/
  | wait (i : ι) (k : κ)
  /-- A thread looks at its condition, under the lock. -/
  | look (i : ι)
  /-- A thread wakes up without reason. -/
  | wake (i : ι)
  /-- The deadline of a wait has passed. -/
  | expire (i : ι)

/-- What is seen of it. -/
inductive Seen (ω κ ι : Type*)
  | operated (op : ω)
  | returned (i : ι) (k : κ) (result : Bool)

def start (value : σ) : State σ κ ι := ⟨value, 0, fun _ => .out⟩

def operations (h : List (Seen ω κ ι)) : List ω :=
  h.filterMap fun
    | .operated op => some op
    | .returned _ _ _ => none

theorem operations_append (h h' : List (Seen ω κ ι)) :
    operations (h ++ h') = operations h ++ operations h' := List.filterMap_append

variable [DecidableEq ι]

def State.move (s : State σ κ ι) (i : ι) (p : Position κ) : State σ κ ι :=
  { s with position := Function.update s.position i p }

/-- **The threads as a machine.** -/
def machine (g : Guarded σ ω κ) : Machine (State σ κ ι) (Step ω κ ι) (Seen ω κ ι) where
  step s
    | .operate op =>
        some ({ s with
          value := g.apply s.value op
          pending := if g.notifies op then s.pending + 1 else s.pending }, [.operated op])
    | .notifyAll =>
        match s.pending with
        | 0 => none
        | pending + 1 =>
            some ({ s with pending := pending, position := fun i => (s.position i).woken }, [])
    | .wait i k =>
        match s.position i with
        | .out => some (s.move i (.looking k), [])
        | _ => none
    | .look i =>
        match s.position i with
        | .looking k =>
            if g.holds k s.value then some (s.move i .out, [.returned i k true])
            else some (s.move i (.asleep k), [])
        | _ => none
    | .wake i =>
        match s.position i with
        | .asleep k => some (s.move i (.looking k), [])
        | _ => none
    | .expire i =>
        match s.position i with
        | .asleep k => some (s.move i .out, [.returned i k (g.holds k s.value)])
        | _ => none

/-- **What a step does.** -/
inductive Stepped (g : Guarded σ ω κ) (s : State σ κ ι) :
    Step ω κ ι → State σ κ ι → List (Seen ω κ ι) → Prop
  | operate (op : ω) : Stepped g s (.operate op)
      { s with
        value := g.apply s.value op
        pending := if g.notifies op then s.pending + 1 else s.pending } [.operated op]
  | notifyAll (pending : ℕ) (h : s.pending = pending + 1) : Stepped g s .notifyAll
      { s with pending := pending, position := fun i => (s.position i).woken } []
  | wait (i : ι) (k : κ) (h : s.position i = .out) :
      Stepped g s (.wait i k) (s.move i (.looking k)) []
  | found (i : ι) (k : κ) (h : s.position i = .looking k) (hk : g.holds k s.value = true) :
      Stepped g s (.look i) (s.move i .out) [.returned i k true]
  | sleep (i : ι) (k : κ) (h : s.position i = .looking k) (hk : g.holds k s.value = false) :
      Stepped g s (.look i) (s.move i (.asleep k)) []
  | wake (i : ι) (k : κ) (h : s.position i = .asleep k) :
      Stepped g s (.wake i) (s.move i (.looking k)) []
  | expire (i : ι) (k : κ) (h : s.position i = .asleep k) :
      Stepped g s (.expire i) (s.move i .out) [.returned i k (g.holds k s.value)]

theorem stepped_iff {g : Guarded σ ω κ} {s s' : State σ κ ι} {a : Step ω κ ι}
    {o : List (Seen ω κ ι)} : (machine g).step s a = some (s', o) ↔ Stepped g s a s' o := by
  constructor
  · intro h
    cases a with
    | operate op =>
        obtain ⟨rfl, rfl⟩ := Prod.mk.inj (Option.some.inj h)
        exact .operate op
    | notifyAll =>
        simp only [machine] at h
        split at h
        · cases h
        · rename_i pending heq
          obtain ⟨rfl, rfl⟩ := Prod.mk.inj (Option.some.inj h)
          exact .notifyAll pending heq
    | wait i k =>
        simp only [machine] at h
        split at h
        · rename_i heq
          obtain ⟨rfl, rfl⟩ := Prod.mk.inj (Option.some.inj h)
          exact .wait i k heq
        · cases h
    | look i =>
        simp only [machine] at h
        split at h
        · rename_i k heq
          split_ifs at h with hk
          · obtain ⟨rfl, rfl⟩ := Prod.mk.inj (Option.some.inj h)
            exact .found i k heq hk
          · obtain ⟨rfl, rfl⟩ := Prod.mk.inj (Option.some.inj h)
            exact .sleep i k heq (by simpa using hk)
        · cases h
    | wake i =>
        simp only [machine] at h
        split at h
        · rename_i k heq
          obtain ⟨rfl, rfl⟩ := Prod.mk.inj (Option.some.inj h)
          exact .wake i k heq
        · cases h
    | expire i =>
        simp only [machine] at h
        split at h
        · rename_i k heq
          obtain ⟨rfl, rfl⟩ := Prod.mk.inj (Option.some.inj h)
          exact .expire i k heq
        · cases h
  · intro h
    cases h with
    | operate op => rfl
    | notifyAll pending hp => simp only [machine, hp]
    | wait i k hi => simp only [machine, hi]
    | found i k hi hk => simp only [machine, hi, hk, if_true]
    | sleep i k hi hk => simp only [machine, hi, hk, Bool.false_eq_true, if_false]
    | wake i k hi => simp only [machine, hi]
    | expire i k hi => simp only [machine, hi]

/-! ### No wake-up is lost -/

/-- **A thread sleeps through its condition only while a notification is still to come.** -/
def Awake (g : Guarded σ ω κ) (s : State σ κ ι) : Prop :=
  ∀ i k, s.position i = .asleep k → g.holds k s.value = true → s.pending ≠ 0

/-- A thread that goes on to a position in which it does not sleep through its condition. -/
theorem Awake.move {g : Guarded σ ω κ} {s : State σ κ ι} (h : Awake g s) {i : ι} {p : Position κ}
    (hp : ∀ k, p = .asleep k → g.holds k s.value = false) : Awake g (s.move i p) := by
  intro j k hj hk
  simp only [State.move] at hj hk ⊢
  by_cases hij : j = i
  · subst hij
    rw [Function.update_self] at hj
    rw [hp k hj] at hk
    exact absurd hk (by simp)
  · rw [Function.update_of_ne hij] at hj
    exact h j k hj hk

/-- **One step.** -/
theorem awake_step {g : Guarded σ ω κ} {makes : κ → ω → Bool} (hg : Latched g makes)
    {s s' : State σ κ ι} {a : Step ω κ ι} {o : List (Seen ω κ ι)} (h : Awake g s)
    (hstep : (machine g).step s a = some (s', o)) : Awake g s' := by
  cases stepped_iff.1 hstep with
  | operate op =>
      intro i k hi hk
      simp only [hg.holds_apply, Bool.or_eq_true] at hi hk ⊢
      rcases hk with hmakes | hbefore
      · rw [if_pos (hg.announced k op hmakes)]
        omega
      · have := h i k hi hbefore
        split <;> omega
  | notifyAll pending hp =>
      intro i k hi
      simp only at hi
      cases hpos : s.position i <;> simp [hpos, Position.woken] at hi
  | wait i k hi => exact h.move (by simp)
  | found i k hi hk => exact h.move (by simp)
  | sleep i k hi hk =>
      refine h.move fun k' hk' => ?_
      cases hk'
      exact hk
  | wake i k hi => exact h.move (by simp)
  | expire i k hi => exact h.move (by simp)

/-- **No wake-up is lost.** -/
theorem awake_of_run {g : Guarded σ ω κ} {makes : κ → ω → Bool} (hg : Latched g makes) {v : σ}
    {as : List (Step ω κ ι)} {s : State σ κ ι} {h : List (Seen ω κ ι)}
    (hrun : (machine g).run (start v) as = some (s, h)) : Awake g s :=
  Machine.run_invariant (P := Awake g) (fun _ _ _ _ hs hstep => awake_step hg hs hstep)
    (fun i k hi => by simp [start] at hi) hrun

/-! ### What a wait returns -/

theorem value_step {g : Guarded σ ω κ} {v : σ} {s s' : State σ κ ι} {a : Step ω κ ι}
    {h o : List (Seen ω κ ι)} (hv : s.value = (operations h).foldl g.apply v)
    (hstep : (machine g).step s a = some (s', o)) :
    s'.value = (operations (h ++ o)).foldl g.apply v := by
  rw [operations_append, List.foldl_append, ← hv]
  cases stepped_iff.1 hstep <;> rfl

theorem value_of_run {g : Guarded σ ω κ} {v : σ} {as : List (Step ω κ ι)} {s : State σ κ ι}
    {h : List (Seen ω κ ι)} (hrun : (machine g).run (start v) as = some (s, h)) :
    s.value = (operations h).foldl g.apply v :=
  Machine.run_induction (o := [])
    (P := fun (s : State σ κ ι) h => s.value = (operations h).foldl g.apply v)
    (fun _ _ _ _ _ hv hstep => value_step hv hstep) rfl hrun

theorem returned_step {g : Guarded σ ω κ} {s s' : State σ κ ι} {a : Step ω κ ι}
    {o : List (Seen ω κ ι)} (hstep : (machine g).step s a = some (s', o)) :
    o = [] ∨ ∃ e, o = [e] ∧ ∀ i k b, e = .returned i k b → b = g.holds k s.value := by
  cases stepped_iff.1 hstep with
  | operate op => exact Or.inr ⟨_, rfl, by simp⟩
  | found i k hi hk =>
      refine Or.inr ⟨_, rfl, ?_⟩
      rintro j k' b ⟨⟩
      exact hk.symm
  | expire i k hi =>
      refine Or.inr ⟨_, rfl, ?_⟩
      rintro j k' b ⟨⟩
      rfl
  | _ => exact Or.inl rfl

/-- **A wait returns what holds when it returns.** -/
theorem returned_eq {g : Guarded σ ω κ} {v : σ} {as : List (Step ω κ ι)} {s : State σ κ ι}
    {h : List (Seen ω κ ι)} (hrun : (machine g).run (start v) as = some (s, h)) :
    ∀ before i k b after, h = before ++ .returned i k b :: after →
      b = g.holds k ((operations before).foldl g.apply v) := by
  have := Machine.run_induction (o := [])
    (P := fun (s : State σ κ ι) h => s.value = (operations h).foldl g.apply v ∧
      ∀ before i k b after, h = before ++ .returned i k b :: after →
        b = g.holds k ((operations before).foldl g.apply v)) (fun s h a s' o hs hstep => ?_)
    ⟨rfl, by simp⟩ hrun
  · exact this.2
  · refine ⟨value_step hs.1 hstep, ?_⟩
    intro before i k b after hsplit
    rcases returned_step hstep with rfl | ⟨e, rfl, he⟩
    · rw [List.append_nil] at hsplit
      exact hs.2 before i k b after hsplit
    · rcases split_concat hsplit with ⟨rfl, rfl⟩ | ⟨after', hsplit', -⟩
      · rw [← hs.1]
        exact he i k b rfl
      · exact hs.2 before i k b after' hsplit'

theorem Latched.holds_foldl {g : Guarded σ ω κ} {makes : κ → ω → Bool} (hg : Latched g makes)
    (k : κ) : ∀ (ops : List ω) (v : σ),
      g.holds k (ops.foldl g.apply v) = (ops.any (makes k) || g.holds k v) := by
  intro ops
  induction ops with
  | nil => intro v; rfl
  | cons op ops ih =>
      intro v
      rw [List.foldl_cons, ih, hg.holds_apply, List.any_cons, Bool.or_comm (makes k op),
        Bool.or_assoc]
      cases ops.any (makes k) <;> cases makes k op <;> simp

/-- **A wait returns whether its condition has been made true before.** -/
theorem returned_iff {g : Guarded σ ω κ} {makes : κ → ω → Bool} (hg : Latched g makes) {v : σ}
    (hv : ∀ k, g.holds k v = false) {as : List (Step ω κ ι)} {s : State σ κ ι}
    {h : List (Seen ω κ ι)} (hrun : (machine g).run (start v) as = some (s, h)) :
    ∀ before i k b after, h = before ++ .returned i k b :: after →
      (b = true ↔ ∃ op ∈ operations before, makes k op = true) := by
  intro before i k b after hsplit
  rw [returned_eq hrun before i k b after hsplit, hg.holds_foldl, hv, Bool.or_false, List.any_eq_true]

/-- **A wait whose condition holds returns**, behind the notification that is to come if it sleeps,
without a further operation and before its deadline. -/
theorem returns_true {g : Guarded σ ω κ} {s : State σ κ ι} (hs : Awake g s) {i : ι} {k : κ}
    (hi : s.position i = .looking k ∨ s.position i = .asleep k) (hk : g.holds k s.value = true) :
    ∃ as s', (machine g).run s as = some (s', [.returned i k true]) ∧
      (∀ a ∈ as, a = .notifyAll ∨ a = .look i) ∧ as.length ≤ 2 ∧ s'.value = s.value := by
  rcases hi with hi | hi
  · have hlook := stepped_iff.2 (Stepped.found i k hi hk)
    exact ⟨[.look i], _, Machine.run_singleton.2 hlook, by simp, by simp, rfl⟩
  · obtain ⟨pending, hp⟩ := Nat.exists_eq_succ_of_ne_zero (hs i k hi hk)
    have hnotify := stepped_iff.2 (Stepped.notifyAll (g := g) pending hp)
    have hlook := stepped_iff.2 (Stepped.found (g := g) (s := { s with
      pending := pending, position := fun i => (s.position i).woken }) i k
        (by simp only [hi, Position.woken]) hk)
    exact ⟨[.notifyAll, .look i], _, Machine.run_cons.2 ⟨_, _, _, hnotify,
      Machine.run_singleton.2 hlook, rfl⟩, by simp, by simp, rfl⟩

end Monitor
