/-
**Reading back what is applied later.**

A setter hands its value to the worker of the server and returns; the worker applies the values one
after the other, when it gets to them.  A test reads the value back with `pollUntilApplied`, again and
again until it is there or five seconds have passed, and once more.  When the value is there is for
the test to say: most ask for the value written, the volume may be off by a hundredth.  The worker,
the clock and the test are interleaved in any way here.

Main definitions:

* `Apply.ReadBack` — what a test takes for the value written;
* `Apply.Poll`, `Apply.Place` — a call of `pollUntilApplied`, and where it stands;
* `Apply.State`, `Apply.polling` — the test, the worker and the clock;
* `Apply.Verdict` — what a call returns, and how matters stood;
* `Apply.Exact` — verdicts that say whether the worker had got there;
* `Apply.Settled`, `Apply.Poll.Timed` — what the steps keep.

Main results:

* `Apply.settled_step` — what a step keeps as long as no call has failed;
* `Apply.verdict_exact` — **`pollUntilApplied` is never taken in by an old value** when no value
  written is taken for the next one;
* `Apply.verdict_late` — **it fails only behind its deadline**, with the write still to be applied or
  the getter refusing, and reads a bounded number of times.
-/
import RialtoConformance.Lib.Runs

set_option relaxedAutoImplicit false
set_option autoImplicit false

namespace Apply

open Runs

variable {V : Type}

/-! ### The test, the worker and the clock -/

/-- **What a test takes for the value written**, among the values read: at least that value. -/
structure ReadBack (V : Type) where
  accepts : (reported target : V) → Bool
  accepts_self : ∀ target, accepts target target = true

/-- The value itself, as for `getMute`. -/
def ReadBack.equal [DecidableEq V] : ReadBack V where
  accepts reported target := reported = target
  accepts_self _ := decide_eq_true rfl

/-- A value next to it, as for `getVolume`. -/
def ReadBack.within (tolerance : ℚ) (h : 0 ≤ tolerance) : ReadBack ℚ where
  accepts reported target := |reported - target| ≤ tolerance
  accepts_self target := by
    rw [sub_self, abs_zero]
    exact decide_eq_true h

/-- How long a written property is given, in milliseconds. -/
def kApplyDeadline : ℕ := 5000

def kApplyPoll : ℕ := 50

/-- Where a call of `pollUntilApplied` stands. -/
inductive Place
  /-- In front of the reading of the clock that sets the deadline. -/
  | called
  /-- In front of the condition of the loop. -/
  | checking
  /-- In front of the read in the loop. -/
  | reading
  | sleeping (till : ℕ)
  /-- Behind the loop. -/
  | late
  deriving DecidableEq

/-- A call of `pollUntilApplied`. -/
structure Poll (V : Type) where
  /-- What was written, and is to be read. -/
  target : V
  place : Place
  since : ℕ
  reads : ℕ
  deriving DecidableEq

/-- **The state of a test and of the server.** -/
structure State (V : Type) where
  now : ℕ
  /-- What the getter reports. -/
  value : V
  /-- The writes that the worker has still to apply, the next one first. -/
  queue : List V
  poll : Option (Poll V)
  deriving DecidableEq

def State.init (initial : V) : State V := ⟨0, initial, [], none⟩

/-- What happens. -/
inductive Label (V : Type)
  /-- Time passes. -/
  | wait (duration : ℕ)
  /-- The setter is called, and `pollUntilApplied` behind it. -/
  | set (target : V)
  /-- The worker applies a write. -/
  | work
  /-- `pollUntilApplied` goes on; a getter that it calls answers, or not. -/
  | go (answered : Bool)

/-- **What `pollUntilApplied` returns**, and how matters stood. -/
structure Verdict (V : Type) where
  target : V
  applied : Bool
  /-- Whether the getter had answered. -/
  answered : Bool
  /-- What the worker had still to apply. -/
  pending : List V
  /-- How long the call had taken. -/
  waited : ℕ
  reads : ℕ
  deriving DecidableEq

/-- `read()`. -/
def State.read (b : ReadBack V) (s : State V) (p : Poll V) (answered : Bool) : Bool :=
  answered && b.accepts s.value p.target

def State.returns (b : ReadBack V) (s : State V) (p : Poll V) (answered : Bool) :
    State V × List (Verdict V) :=
  ({ s with poll := none },
    [⟨p.target, s.read b p answered, answered, s.queue, s.now - p.since, p.reads + 1⟩])

/-- **`pollUntilApplied`**, from one action to the next. -/
def pollUntilApplied (b : ReadBack V) (s : State V) (p : Poll V) (answered : Bool) :
    Option (State V × List (Verdict V)) :=
  match p.place with
  | .called => some ({ s with poll := some { p with place := .checking, since := s.now } }, [])
  | .checking =>
      if s.now < p.since + kApplyDeadline then
        some ({ s with poll := some { p with place := .reading } }, [])
      else some ({ s with poll := some { p with place := .late } }, [])
  | .reading =>
      if s.read b p answered then some (s.returns b p answered)
      else some ({ s with
        poll := some { p with place := .sleeping (s.now + kApplyPoll), reads := p.reads + 1 } }, [])
  | .sleeping till =>
      if till ≤ s.now then some ({ s with poll := some { p with place := .checking } }, [])
      else none
  | .late => some (s.returns b p answered)

/-- **The test, the worker and the clock**, step by step. -/
def polling (b : ReadBack V) : Machine (State V) (Label V) (Verdict V) where
  step s
    | .wait duration => some ({ s with now := s.now + duration }, [])
    | .set target =>
        match s.poll with
        | none => some ({ s with
            queue := s.queue ++ [target]
            poll := some ⟨target, .called, s.now, 0⟩ }, [])
        | some _ => none
    | .work =>
        match s.queue with
        | [] => none
        | value :: queue => some ({ s with value := value, queue := queue }, [])
    | .go answered => s.poll.bind fun p => pollUntilApplied b s p answered

def written : List (Label V) → List V
  | [] => []
  | .set target :: labels => target :: written labels
  | _ :: labels => written labels

/-! ### How long a call takes -/

/-- How far a call has come, by the clock. -/
def Poll.Timed (p : Poll V) (now : ℕ) : Prop :=
  match p.place with
  | .called => p.reads = 0
  | .checking => p.reads ≤ 100 ∧ p.since + 50 * p.reads ≤ now
  | .reading => p.reads < 100 ∧ p.since + 50 * p.reads ≤ now
  | .sleeping till => p.reads ≤ 100 ∧ p.since + 50 * p.reads ≤ till
  | .late => p.reads ≤ 100 ∧ p.since + kApplyDeadline ≤ now

/-- What is written last is what is to be read. -/
def State.Awaits (s : State V) (p : Poll V) : Prop := s.queue.getLast?.getD s.value = p.target

def State.Calling (s : State V) : Prop :=
  ∀ p, s.poll = some p → p.Timed s.now ∧ s.Awaits p

theorem calling_init (initial : V) : (State.init initial).Calling := by
  intro p hp
  cases hp

/-- A verdict that came late enough and soon enough. -/
def Verdict.Late (v : Verdict V) : Prop :=
  v.reads ≤ 101 ∧ (v.applied = false →
    kApplyDeadline ≤ v.waited ∧ (v.pending ≠ [] ∨ v.answered = false))

theorem Poll.Timed.mono {p : Poll V} {now now' : ℕ} (h : p.Timed now) (hle : now ≤ now') :
    p.Timed now' := by
  rw [Poll.Timed] at h ⊢
  cases hplace : p.place with
  | called => simpa only [hplace] using h
  | checking =>
      simp only [hplace] at h ⊢
      omega
  | reading =>
      simp only [hplace] at h ⊢
      omega
  | sleeping till => simpa only [hplace] using h
  | late =>
      simp only [hplace] at h ⊢
      omega

/-- **What a step of `pollUntilApplied` does**: it stays in the call, or it returns, in time. -/
theorem pollUntilApplied_spec {b : ReadBack V} {s s' : State V} {p : Poll V} {answered : Bool}
    {o : List (Verdict V)} (htimed : p.Timed s.now)
    (h : pollUntilApplied b s p answered = some (s', o)) :
    (o = [] ∧ ∃ p' : Poll V, s' = { s with poll := some p' } ∧ p'.target = p.target ∧
      p'.Timed s.now) ∨
    (s' = { s with poll := none } ∧ (s', o) = s.returns b p answered ∧ p.reads + 1 ≤ 101 ∧
      (s.read b p answered = false → p.since + kApplyDeadline ≤ s.now)) := by
  rw [Poll.Timed] at htimed
  cases hplace : p.place with
  | called =>
      simp only [pollUntilApplied, hplace, Option.some.injEq, Prod.mk.injEq] at h htimed
      obtain ⟨rfl, rfl⟩ := h
      refine Or.inl ⟨rfl, _, rfl, rfl, ?_⟩
      simp only [Poll.Timed]
      omega
  | checking =>
      simp only [pollUntilApplied, hplace] at h htimed
      refine Or.inl ?_
      split_ifs at h with hbefore
      · -- the deadline has not passed, so there have been fewer reads than gaps up to it
        obtain ⟨rfl, rfl⟩ := Prod.mk.inj (Option.some.inj h)
        refine ⟨rfl, _, rfl, rfl, ?_⟩
        simp only [Poll.Timed]
        simp only [kApplyDeadline] at hbefore
        omega
      · obtain ⟨rfl, rfl⟩ := Prod.mk.inj (Option.some.inj h)
        refine ⟨rfl, _, rfl, rfl, ?_⟩
        simp only [Poll.Timed]
        omega
  | reading =>
      simp only [pollUntilApplied, hplace] at h htimed
      split_ifs at h with hread
      · have hpair := (Option.some.inj h).symm
        refine Or.inr ⟨congrArg Prod.fst hpair, hpair, by omega, fun hfalse => ?_⟩
        rw [hread] at hfalse
        cases hfalse
      · obtain ⟨rfl, rfl⟩ := Prod.mk.inj (Option.some.inj h)
        refine Or.inl ⟨rfl, _, rfl, rfl, ?_⟩
        simp only [Poll.Timed, kApplyPoll]
        omega
  | sleeping till =>
      simp only [pollUntilApplied, hplace, Option.ite_none_right_eq_some, Option.some.injEq,
        Prod.mk.injEq] at h htimed
      obtain ⟨hle, rfl, rfl⟩ := h
      refine Or.inl ⟨rfl, _, rfl, rfl, ?_⟩
      simp only [Poll.Timed]
      omega
  | late =>
      simp only [pollUntilApplied, hplace] at h htimed
      have hpair := (Option.some.inj h).symm
      exact Or.inr ⟨congrArg Prod.fst hpair, hpair, by omega, fun _ => htimed.2⟩

theorem late_of_returns {b : ReadBack V} {s s' : State V} {p : Poll V} {answered : Bool}
    {o : List (Verdict V)} (hawaits : s.Awaits p) (hreturns : (s', o) = s.returns b p answered)
    (hreads : p.reads + 1 ≤ 101)
    (hlate : s.read b p answered = false → p.since + kApplyDeadline ≤ s.now) :
    ∀ v ∈ o, v.Late := by
  obtain ⟨-, rfl⟩ := Prod.mk.inj hreturns
  intro v hv
  obtain rfl := List.mem_singleton.1 hv
  refine ⟨hreads, fun hfalse => ⟨?_, ?_⟩⟩
  · have := hlate hfalse
    change kApplyDeadline ≤ s.now - p.since
    omega
  · cases answered with
    | false => exact Or.inr rfl
    | true =>
        refine Or.inl fun hpending => ?_
        -- with nothing left to apply the getter reports what was written last
        have hempty : s.queue = [] := hpending
        have hvalue : s.value = p.target := by
          rwa [State.Awaits, hempty] at hawaits
        change s.read b p true = false at hfalse
        rw [State.read, hvalue, b.accepts_self] at hfalse
        cases hfalse

/-- **What a step keeps about the call.** -/
theorem calling_step {b : ReadBack V} {s s' : State V} {label : Label V} {o : List (Verdict V)}
    (hs : s.Calling) (h : (polling b).step s label = some (s', o)) : s'.Calling ∧ ∀ v ∈ o, v.Late := by
  cases label with
  | wait duration =>
      obtain ⟨rfl, rfl⟩ := Prod.mk.inj (Option.some.inj h)
      refine ⟨fun p hp => ?_, by simp⟩
      obtain ⟨htimed, hawaits⟩ := hs p hp
      exact ⟨htimed.mono (Nat.le_add_right _ _), hawaits⟩
  | set target =>
      cases hpoll : s.poll with
      | some p => simp [polling, hpoll] at h
      | none =>
          simp only [polling, hpoll, Option.some.injEq, Prod.mk.injEq] at h
          obtain ⟨rfl, rfl⟩ := h
          refine ⟨fun p hp => ?_, by simp⟩
          obtain rfl := Option.some.inj hp
          refine ⟨rfl, ?_⟩
          rw [State.Awaits, List.getLast?_concat]
          rfl
  | work =>
      cases hqueue : s.queue with
      | nil => simp [polling, hqueue] at h
      | cons value queue =>
          simp only [polling, hqueue, Option.some.injEq, Prod.mk.injEq] at h
          obtain ⟨rfl, rfl⟩ := h
          refine ⟨fun p hp => ?_, by simp⟩
          obtain ⟨htimed, hawaits⟩ := hs p hp
          refine ⟨htimed, ?_⟩
          rw [State.Awaits, hqueue, List.getLast?_cons, Option.getD_some] at hawaits
          exact hawaits
  | go answered =>
      obtain ⟨p, hp, h⟩ := Option.bind_eq_some_iff.1 h
      obtain ⟨htimed, hawaits⟩ := hs p hp
      rcases pollUntilApplied_spec htimed h with
        ⟨rfl, p', rfl, htarget, htimed'⟩ | ⟨rfl, hreturns, hreads, hlate⟩
      · refine ⟨fun q hq => ?_, by simp⟩
        obtain rfl := Option.some.inj hq
        exact ⟨htimed', hawaits.trans htarget.symm⟩
      · refine ⟨fun q hq => ?_, late_of_returns hawaits hreturns hreads hlate⟩
        cases hq

theorem Poll.Timed.reads_le {p : Poll V} {now : ℕ} (h : p.Timed now) : p.reads ≤ 100 := by
  rw [Poll.Timed] at h
  cases hplace : p.place with
  | called =>
      simp only [hplace] at h
      omega
  | checking => simp only [hplace] at h; exact h.1
  | reading => simp only [hplace] at h; exact h.1.le
  | sleeping till => simp only [hplace] at h; exact h.1
  | late => simp only [hplace] at h; exact h.1

/-- **`pollUntilApplied` fails only behind its deadline**, with the write still to be applied or the
getter refusing, and never reads more than a hundred and one times: a call in progress has read a
hundred times at most. -/
theorem verdict_late {b : ReadBack V} {initial : V} {labels : List (Label V)} {s : State V}
    {o : List (Verdict V)} (hrun : (polling b).run (.init initial) labels = some (s, o)) :
    (∀ v ∈ o, v.Late) ∧ ∀ p, s.poll = some p → p.reads ≤ 100 := by
  have hstart : (State.init initial).Calling ∧ ∀ v ∈ ([] : List (Verdict V)), v.Late :=
    ⟨calling_init initial, by simp⟩
  have hkept := Machine.run_induction
    (P := fun (s : State V) (o : List (Verdict V)) => s.Calling ∧ ∀ v ∈ o, v.Late)
    (fun s o label s' o' hs h => by
      obtain ⟨hcalling, hlate⟩ := calling_step hs.1 h
      refine ⟨hcalling, fun v hv => ?_⟩
      rcases List.mem_append.1 hv with hv | hv
      · exact hs.2 v hv
      · exact hlate v hv)
    hstart hrun
  exact ⟨hkept.2, fun p hp => (hkept.1 p hp).1.reads_le⟩

/-! ### Old values -/

/-- **Verdicts that say whether the worker had got there**, up to the first one that says no. -/
def Exact : List (Verdict V) → Prop
  | [] => True
  | v :: verdicts => (v.applied = true ↔ v.pending = [] ∧ v.answered = true) ∧
      (v.applied = true → Exact verdicts)

/-- How matters stand as long as no call has failed; `last` was written last. -/
def State.Settled (b : ReadBack V) (s : State V) (last : V) : Prop :=
  match s.poll with
  | none => s.queue = [] ∧ s.value = last
  | some p => p.target = last ∧
      ((s.queue = [] ∧ s.value = p.target) ∨
        (s.queue = [p.target] ∧ b.accepts s.value p.target = false))

/-- What has been written last, behind a step. -/
def lastWritten (last : V) : Label V → V
  | .set target => target
  | _ => last

theorem settled_pollUntilApplied {b : ReadBack V} {s s' : State V} {last : V} {p : Poll V}
    (answered : Bool) {o : List (Verdict V)} (hs : s.Settled b last) (hp : s.poll = some p)
    (h : (o = [] ∧ ∃ p' : Poll V, s' = { s with poll := some p' } ∧ p'.target = p.target) ∨
      (s', o) = s.returns b p answered) :
    (o = [] ∧ s'.Settled b last) ∨ ∃ v, o = [v] ∧
      (v.applied = true ↔ v.pending = [] ∧ v.answered = true) ∧
        (v.applied = true → s'.Settled b last) := by
  simp only [State.Settled, hp] at hs
  obtain ⟨hlast, hvalue⟩ := hs
  rcases h with ⟨rfl, p', rfl, htarget⟩ | hreturns
  · refine Or.inl ⟨rfl, ?_⟩
    simp only [State.Settled, htarget]
    exact ⟨hlast, hvalue⟩
  · obtain ⟨rfl, rfl⟩ := Prod.mk.inj hreturns
    have hexact : s.read b p answered = true ↔ s.queue = [] ∧ answered = true := by
      rw [State.read, Bool.and_eq_true]
      rcases hvalue with ⟨hqueue, hvalue⟩ | ⟨hqueue, hvalue⟩
      · simp [hqueue, hvalue, b.accepts_self]
      · simp [hqueue, hvalue]
    refine Or.inr ⟨_, rfl, hexact, fun happlied => ?_⟩
    have hqueue : s.queue = [] := (hexact.1 happlied).1
    rcases hvalue with ⟨-, hvalue⟩ | ⟨hother, -⟩
    · exact ⟨hqueue, hvalue.trans hlast⟩
    · rw [hqueue] at hother
      cases hother

/-- **What a step keeps as long as no call has failed.** -/
theorem settled_step {b : ReadBack V} {s s' : State V} {last : V} {label : Label V}
    {o : List (Verdict V)} (hcalling : s.Calling) (hs : s.Settled b last)
    (hnew : ∀ target, label = .set target → b.accepts last target = false)
    (h : (polling b).step s label = some (s', o)) :
    (o = [] ∧ s'.Settled b (lastWritten last label)) ∨ ∃ v, o = [v] ∧
      (v.applied = true ↔ v.pending = [] ∧ v.answered = true) ∧
        (v.applied = true → s'.Settled b (lastWritten last label)) := by
  cases label with
  | wait duration =>
      obtain ⟨rfl, rfl⟩ := Prod.mk.inj (Option.some.inj h)
      exact Or.inl ⟨rfl, hs⟩
  | set target =>
      cases hpoll : s.poll with
      | some p => simp [polling, hpoll] at h
      | none =>
          simp only [polling, hpoll, Option.some.injEq, Prod.mk.injEq] at h
          obtain ⟨rfl, rfl⟩ := h
          simp only [State.Settled, hpoll] at hs
          refine Or.inl ⟨rfl, rfl, Or.inr ⟨?_, ?_⟩⟩
          · rw [hs.1, List.nil_append]
          · rw [hs.2]
            exact hnew target rfl
  | work =>
      cases hqueue : s.queue with
      | nil => simp [polling, hqueue] at h
      | cons value queue =>
          simp only [polling, hqueue, Option.some.injEq, Prod.mk.injEq] at h
          obtain ⟨rfl, rfl⟩ := h
          refine Or.inl ⟨rfl, ?_⟩
          cases hpoll : s.poll with
          | none =>
              simp only [State.Settled, hpoll, hqueue] at hs
              cases hs.1
          | some p =>
              simp only [State.Settled, hpoll, hqueue, List.cons.injEq] at hs ⊢
              obtain ⟨hlast, ⟨hnone, -⟩ | ⟨⟨rfl, rfl⟩, -⟩⟩ := hs
              · cases hnone
              · exact ⟨hlast, Or.inl ⟨rfl, rfl⟩⟩
  | go answered =>
      obtain ⟨p, hp, h⟩ := Option.bind_eq_some_iff.1 h
      refine settled_pollUntilApplied answered hs hp ?_
      rcases pollUntilApplied_spec (hcalling p hp).1 h with
        ⟨rfl, p', rfl, htarget, -⟩ | ⟨-, hreturns, -⟩
      · exact Or.inl ⟨rfl, p', rfl, htarget⟩
      · exact Or.inr hreturns

theorem exact_run {b : ReadBack V} : ∀ {labels : List (Label V)} {s s' : State V} {last : V}
    {o : List (Verdict V)}, s.Calling → s.Settled b last →
      (last :: written labels).IsChain (fun old new => b.accepts old new = false) →
        (polling b).run s labels = some (s', o) → Exact o := by
  intro labels
  induction labels with
  | nil =>
      intro s s' last o _ _ _ hrun
      obtain ⟨-, rfl⟩ := Prod.mk.inj (Option.some.inj hrun)
      trivial
  | cons label labels ih =>
      intro s s' last o hcalling hs hchain hrun
      obtain ⟨t, o₁, o₂, hstep, hrest, rfl⟩ := Machine.run_cons.1 hrun
      have hcalling' := (calling_step hcalling hstep).1
      -- what was written last is not taken for what is written now
      have hnew : (∀ target, label = .set target → b.accepts last target = false) ∧
          (lastWritten last label :: written labels).IsChain
            (fun old new => b.accepts old new = false) := by
        cases label with
        | set target =>
            rw [written, List.isChain_cons_cons] at hchain
            refine ⟨fun other hother => ?_, hchain.2⟩
            obtain rfl := Label.set.inj hother
            exact hchain.1
        | wait duration => exact ⟨fun _ h => (nomatch h), hchain⟩
        | work => exact ⟨fun _ h => (nomatch h), hchain⟩
        | go answered => exact ⟨fun _ h => (nomatch h), hchain⟩
      rcases settled_step hcalling hs hnew.1 hstep with ⟨rfl, hs'⟩ | ⟨v, rfl, hexact, hs'⟩
      · exact ih hcalling' hs' hnew.2 hrest
      · exact ⟨hexact, fun happlied => ih hcalling' (hs' happlied) hnew.2 hrest⟩

/-- **`pollUntilApplied` is never taken in by an old value** when no value written is taken for the
next one: as long as no call has failed it says whether the worker has applied all that was
written. -/
theorem verdict_exact {b : ReadBack V} {initial : V} {labels : List (Label V)} {s : State V}
    {o : List (Verdict V)}
    (hchain : (initial :: written labels).IsChain fun old new => b.accepts old new = false)
    (hrun : (polling b).run (.init initial) labels = some (s, o)) : Exact o := by
  have hsettled : (State.init initial).Settled b initial := ⟨rfl, rfl⟩
  exact exact_run (calling_init initial) hsettled hchain hrun

/-- `setMute(true)` is applied between two reads, `setMute(false)` not in time. -/
def muteRun : List (Label Bool) :=
  [.set true, .go true, .go true, .go true, .wait 50, .work, .go true, .go true, .go true,
    .set false, .go true, .wait 6000, .go true, .go true, .work]

/-- `setVolume` of a half, which is applied between two reads, and of the whole. -/
def volumeRun : List (Label ℚ) :=
  [.set (1 / 2), .go true, .go true, .go true, .wait 50, .work, .go true, .go true, .go true,
    .set 1, .go true, .go true, .go true]

theorem run_muteRun : ∃ s, (polling .equal).run (.init false) muteRun =
    some (s, [⟨true, true, true, [], 50, 2⟩, ⟨false, false, true, [false], 6000, 1⟩]) :=
  ⟨⟨6050, false, [], none⟩, by decide⟩

theorem run_volumeRun : (polling (.within (1 / 100) (by norm_num))).run (.init 0) volumeRun =
    some (⟨50, 1 / 2, [1], some ⟨1, .sleeping 100, 50, 1⟩⟩, [⟨1 / 2, true, true, [], 50, 2⟩]) := by
  decide +kernel

theorem verdict_exact_muteRun :
    Exact [(⟨true, true, true, [], 50, 2⟩ : Verdict Bool), ⟨false, false, true, [false], 6000, 1⟩] ∧
      Exact [(⟨1 / 2, true, true, [], 50, 2⟩ : Verdict ℚ)] :=
  have ⟨_, hrun⟩ := run_muteRun
  ⟨verdict_exact (by decide) hrun, verdict_exact (by decide +kernel) run_volumeRun⟩

theorem verdict_late_muteRun : (⟨false, false, true, [false], 6000, 1⟩ : Verdict Bool).Late ∧
    (⟨1, .sleeping 100, 50, 1⟩ : Poll ℚ).reads ≤ 100 :=
  have ⟨_, hrun⟩ := run_muteRun
  ⟨(verdict_late hrun).1 _ (List.mem_cons_of_mem _ List.mem_cons_self),
    (verdict_late run_volumeRun).2 _ rfl⟩

end Apply
