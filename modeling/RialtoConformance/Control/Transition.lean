/-
**The case that drives a state transition.**

`RegisteredClientIsNotifiedOfStateTransition` registers a client that records the notifications it
gets, has the simulator set the application inactive and active again, and waits each time for the
notification.  These come on a thread of their own, at any moment, and some may be left over from
before; the case counts them before each command and looks only behind that point.  However it
goes, the case sets the application active again before it leaves.  The history of a run says what
the simulator is told, and what has come of each exchange with it.

Whether a failed check ends the case at once is a parameter.

Main definitions:

* `Control.Place`, `Control.State` — where the case stands, and what the client has recorded;
* `Control.transition` — the case between the notifications, as a machine;
* `Control.Toggled` — a leg of the case has gone as it should;
* `Control.Tells` — what the simulator is told over the connections of a run, and what comes of it;
* `Control.Rounds` — the rounds in which the application is set active again.

Main results:

* `Control.moved_of_step` — **what a step does**;
* `Control.tracked_of_run`, `Control.tells_of_run` — what holds in every run;
* `Control.passes_iff` — **when the case passes**;
* `Control.restored` — **the case leaves the application active**.
-/
import RialtoConformance.Lib.Monitor
import RialtoConformance.Lib.Stages
import RialtoConformance.Sim.Exchange

set_option relaxedAutoImplicit false
set_option autoImplicit false

namespace Control

open Runs Sim Stages

/-! ### The recording client -/

/-- `ApplicationState`. -/
inductive ApplicationState
  | unknown
  | running
  | inactive
  deriving DecidableEq

/-- The condition of `RecordingControlClient::waitForStateSince`. -/
def seenSince (since : ℕ) (state : ApplicationState) (states : List ApplicationState) : Bool :=
  (states.drop since).contains state

/-! ### The case -/

/-- The two legs of the case. -/
inductive Leg
  | inactive
  | active
  deriving DecidableEq

def Leg.awaited : Leg → ApplicationState
  | .inactive => .inactive
  | .active => .running

/-- The state that the simulator is told to set. -/
def Leg.target : Leg → Sim.Bytes
  | .inactive => Sim.ascii "Inactive"
  | .active => Sim.ascii "Active"

/-- Where the case stands. -/
inductive Place
  /-- About to register the client. -/
  | registering
  /-- About to take the count of the notifications. -/
  | counting (leg : Leg)
  /-- About to give the command. -/
  | commanding (leg : Leg) (since : ℕ)
  /-- In `waitForStateSince`. -/
  | waiting (leg : Leg) (since : ℕ)
  /-- In the destructor of `RestoreActive`, about to ask for the state. -/
  | querying (round : ℕ)
  /-- In the destructor of `RestoreActive`, about to set the application active. -/
  | restoring (round : ℕ)
  | ended
  deriving DecidableEq

def Leg.next : Leg → Place
  | .inactive => .counting .active
  | .active => .querying 0

/-- The notifications recorded, where the case stands, and whether a check has failed. -/
structure State where
  states : List ApplicationState
  place : Place
  failed : Bool
  deriving DecidableEq

def State.init : State := ⟨[], .registering, false⟩

/-- A step of the case, or a notification. -/
inductive Label
  /-- `notifyApplicationState`. -/
  | notify (state : ApplicationState)
  /-- `registerClient` returns `ok` and has written `state`. -/
  | register (ok : Bool) (state : ApplicationState)
  | count
  /-- The command of a leg, over a connection that goes as `net`. -/
  | command (net : Network)
  /-- The condition of the wait is looked at. -/
  | look
  /-- The deadline of the wait has passed. -/
  | expire
  | query (net : Network)
  | restore (net : Network)

/-- What a run leaves in its history. -/
inductive Event
  | notified (state : ApplicationState)
  | registered (ok : Bool) (state : ApplicationState)
  | counted (leg : Leg)
  /-- The simulator has been told to set the state `told`. -/
  | commanded (leg : Leg) (told : Sim.Bytes) (confirmed : Bool)
  | waited (leg : Leg) (result : Bool)
  | queried (reported : Sim.Bytes)
  /-- It has been told to in the destructor of `RestoreActive`. -/
  | reset (told : Sim.Bytes) (confirmed : Bool)
  deriving DecidableEq

/-- A check, and where the case goes on behind it: when it fails and `leaves` is set, to the
destructor of `RestoreActive`. -/
def State.check (s : State) (leaves ok : Bool) (next : Place) : State :=
  { s with
    place := if !ok && leaves then .querying 0 else next
    failed := s.failed || !ok }

/-- **The case, with the notifications.** -/
def transition (sim : SimControl) (leaves : Bool) : Machine State Label Event where
  step s
    | .notify state => some ({ s with states := s.states ++ [state] }, [.notified state])
    | .register ok state =>
        match s.place with
        | .registering =>
            -- a case that leaves here has not set up the restoring yet
            let passed := ok && decide (state = .running)
            some ({ s with
              place := if !passed && leaves then .ended else .counting .inactive
              failed := s.failed || !passed }, [.registered ok state])
        | _ => none
    | .count =>
        match s.place with
        | .counting leg =>
            some ({ s with place := .commanding leg s.states.length }, [.counted leg])
        | _ => none
    | .command net =>
        match s.place with
        | .commanding leg since =>
            (sim.setState net leg.target).map fun confirmed =>
              (s.check leaves confirmed (.waiting leg since), [.commanded leg leg.target confirmed])
        | _ => none
    | .look =>
        match s.place with
        | .waiting leg since =>
            if seenSince since leg.awaited s.states then
              some (s.check leaves true leg.next, [.waited leg true])
            else some (s, [])
        | _ => none
    | .expire =>
        match s.place with
        | .waiting leg since =>
            let result := seenSince since leg.awaited s.states
            some (s.check leaves result leg.next, [.waited leg result])
        | _ => none
    | .query net =>
        match s.place with
        | .querying round =>
            (sim.getState net).map fun reported =>
              ({ s with
                place := if reported = Sim.ascii "Active" then .ended else .restoring round },
                [.queried reported])
        | _ => none
    | .restore net =>
        match s.place with
        | .restoring round =>
            (sim.setState net (Sim.ascii "Active")).map fun confirmed =>
              ({ s with place := if round + 1 < 25 then .querying (round + 1) else .ended },
                [.reset (Sim.ascii "Active") confirmed])
        | _ => none

/-- The connection of a step, if it opens one. -/
def Label.net : Label → Option Network
  | .command net => some net
  | .query net => some net
  | .restore net => some net
  | _ => none

/-- **What a step does**, over the connection that it opens. -/
inductive Moved (sim : SimControl) (leaves : Bool) :
    State → Option Network → State → List Event → Prop
  | notify (s : State) (state : ApplicationState) :
      Moved sim leaves s none { s with states := s.states ++ [state] } [.notified state]
  | sleep (s : State) : Moved sim leaves s none s []
  | register {s : State} (hplace : s.place = .registering) (ok : Bool) (state : ApplicationState) :
      Moved sim leaves s none { s with
        place := if !(ok && decide (state = .running)) && leaves then .ended
          else .counting .inactive
        failed := s.failed || !(ok && decide (state = .running)) } [.registered ok state]
  | count {s : State} {leg : Leg} (hplace : s.place = .counting leg) :
      Moved sim leaves s none { s with place := .commanding leg s.states.length } [.counted leg]
  | command {s : State} {leg : Leg} {since : ℕ} (hplace : s.place = .commanding leg since)
      {net : Network} {confirmed : Bool} (hset : sim.setState net leg.target = some confirmed) :
      Moved sim leaves s (some net) (s.check leaves confirmed (.waiting leg since))
        [.commanded leg leg.target confirmed]
  | wait {s : State} {leg : Leg} {since : ℕ} (hplace : s.place = .waiting leg since)
      (result : Bool) (hresult : result = seenSince since leg.awaited s.states) :
      Moved sim leaves s none (s.check leaves result leg.next) [.waited leg result]
  | query {s : State} {round : ℕ} (hplace : s.place = .querying round) {net : Network}
      {reported : Sim.Bytes} (hget : sim.getState net = some reported) :
      Moved sim leaves s (some net)
        { s with place := if reported = Sim.ascii "Active" then .ended else .restoring round }
        [.queried reported]
  | restore {s : State} {round : ℕ} (hplace : s.place = .restoring round) {net : Network}
      {confirmed : Bool} (hset : sim.setState net (Sim.ascii "Active") = some confirmed) :
      Moved sim leaves s (some net)
        { s with place := if round + 1 < 25 then .querying (round + 1) else .ended }
        [.reset (Sim.ascii "Active") confirmed]

/-- The steps of the machine are these. -/
theorem moved_of_step {sim : SimControl} {leaves : Bool} {s s' : State} {label : Label}
    {es : List Event} (hstep : (transition sim leaves).step s label = some (s', es)) :
    Moved sim leaves s label.net s' es := by
  cases label with
  | notify state =>
      obtain ⟨rfl, rfl⟩ := Prod.mk.inj (Option.some.inj hstep)
      exact .notify s state
  | register ok state =>
      simp only [transition] at hstep
      split at hstep
      · rename_i hplace
        obtain ⟨rfl, rfl⟩ := Prod.mk.inj (Option.some.inj hstep)
        exact .register hplace ok state
      · cases hstep
  | count =>
      simp only [transition] at hstep
      split at hstep
      · rename_i leg hplace
        obtain ⟨rfl, rfl⟩ := Prod.mk.inj (Option.some.inj hstep)
        exact .count hplace
      · cases hstep
  | command net =>
      simp only [transition] at hstep
      split at hstep
      · rename_i leg since hplace
        obtain ⟨confirmed, hset, heq⟩ := Option.map_eq_some_iff.1 hstep
        obtain ⟨rfl, rfl⟩ := Prod.mk.inj heq
        exact .command hplace hset
      · cases hstep
  | look =>
      simp only [transition] at hstep
      split at hstep
      · rename_i leg since hplace
        split_ifs at hstep with hseen
        · obtain ⟨rfl, rfl⟩ := Prod.mk.inj (Option.some.inj hstep)
          exact .wait hplace true hseen.symm
        · obtain ⟨rfl, rfl⟩ := Prod.mk.inj (Option.some.inj hstep)
          exact .sleep s
      · cases hstep
  | expire =>
      simp only [transition] at hstep
      split at hstep
      · rename_i leg since hplace
        obtain ⟨rfl, rfl⟩ := Prod.mk.inj (Option.some.inj hstep)
        exact .wait hplace _ rfl
      · cases hstep
  | query net =>
      simp only [transition] at hstep
      split at hstep
      · rename_i round hplace
        obtain ⟨reported, hget, heq⟩ := Option.map_eq_some_iff.1 hstep
        obtain ⟨rfl, rfl⟩ := Prod.mk.inj heq
        exact .query hplace hget
      · cases hstep
  | restore net =>
      simp only [transition] at hstep
      split at hstep
      · rename_i round hplace
        obtain ⟨confirmed, hset, heq⟩ := Option.map_eq_some_iff.1 hstep
        obtain ⟨rfl, rfl⟩ := Prod.mk.inj heq
        exact .restore hplace hset
      · cases hstep

/-! ### The stages of the case -/

def Leg.stage : Leg → ℕ
  | .inactive => 1
  | .active => 4

def Place.stage : Place → ℕ
  | .registering => 0
  | .counting leg => leg.stage
  | .commanding leg _ => leg.stage + 1
  | .waiting leg _ => leg.stage + 2
  | _ => 7

def Event.stage : Event → Option ℕ
  | .registered _ _ => some 0
  | .counted leg => some leg.stage
  | .commanded leg _ _ => some (leg.stage + 1)
  | .waited leg _ => some (leg.stage + 2)
  | _ => none

def Event.fails : Event → Bool
  | .registered ok state => !(ok && decide (state = .running))
  | .commanded _ _ confirmed => !confirmed
  | .waited _ result => !result
  | _ => false

def notified (h : List Event) : List ApplicationState :=
  h.filterMap fun
    | .notified state => some state
    | _ => none

@[simp] theorem notified_append (h h' : List Event) :
    notified (h ++ h') = notified h ++ notified h' := List.filterMap_append

/-- What comes between the count of a leg and the end of its wait. -/
def Window (leg : Leg) (window h : List Event) : Prop :=
  ∃ before result after, h = before ++ .counted leg :: (window ++ .waited leg result :: after)

/-- What is awaited in a leg comes between the count and the end of the wait. -/
def Heard (leg : Leg) (h : List Event) : Prop :=
  ∃ window, Window leg window h ∧ .notified leg.awaited ∈ window

/-- **A leg has gone as it should**: between the count and the end of the wait the simulator has been
told the state of the leg and confirmed it, and what is awaited comes. -/
def Toggled (leg : Leg) (h : List Event) : Prop :=
  ∃ window, Window leg window h ∧ .commanded leg leg.target true ∈ window ∧
    .notified leg.awaited ∈ window

theorem mem_notified {state : ApplicationState} {h : List Event} :
    state ∈ notified h ↔ .notified state ∈ h := by
  rw [notified, List.mem_filterMap]
  constructor
  · rintro ⟨e, he, heq⟩
    cases e with
    | notified other =>
        obtain rfl : other = state := Option.some.inj heq
        exact he
    | _ => cases heq
  · intro h
    exact ⟨_, h, rfl⟩

theorem heard_concat {leg : Leg} {h : List Event} {e : Event} (he : ∀ r, e ≠ .waited leg r) :
    Heard leg (h ++ [e]) ↔ Heard leg h := by
  constructor
  · rintro ⟨window, ⟨before, result, after, heq⟩, hmem⟩
    rw [← List.cons_append, ← List.append_assoc] at heq
    rcases Monitor.split_concat heq with ⟨-, hlast⟩ | ⟨after', hsplit, -⟩
    · exact absurd hlast (he result)
    · exact ⟨window, ⟨before, result, after', by rw [hsplit]; simp⟩, hmem⟩
  · rintro ⟨window, ⟨before, result, after, rfl⟩, hmem⟩
    exact ⟨window, ⟨before, result, after ++ [e], by simp⟩, hmem⟩

/-! ### What holds in every run -/

/-- **What holds in every run.** -/
structure Tracked (s : State) (h : List Event) : Prop where
  states : s.states = notified h
  /-- Only stages that have been passed have left an event. -/
  below : Below Event.stage s.place.stage h
  inOrder : InOrder Event.stage h
  failed : s.failed = h.any Event.fails
  /-- Without a failure no stage has been left out. -/
  passed : s.failed = false → ∀ r < s.place.stage, ∃ e ∈ h, e.stage = some r
  /-- The count is the one taken in the leg. -/
  counted : ∀ leg since, s.place = .commanding leg since ∨ s.place = .waiting leg since →
    ∃ before window, h = before ++ .counted leg :: window ∧ since = (notified before).length
  /-- A wait returns whether what is awaited has come. -/
  waited : ∀ leg result, .waited leg result ∈ h → (result = true ↔ Heard leg h)

theorem heard_of_waiting {s : State} {h : List Event} {leg : Leg} {since : ℕ} (result : Bool)
    (htracked : Tracked s h) (hplace : s.place = .waiting leg since) :
    seenSince since leg.awaited s.states = true ↔ Heard leg (h ++ [.waited leg result]) := by
  obtain ⟨before, window, rfl, rfl⟩ := htracked.counted leg since (Or.inr hplace)
  have hbelow := htracked.below
  rw [hplace] at hbelow
  have hwindow : seenSince (notified before).length leg.awaited s.states = true ↔
      .notified leg.awaited ∈ window := by
    have hcounted : notified (.counted leg :: window) = notified window := rfl
    rw [seenSince, htracked.states, notified_append, hcounted, List.drop_left,
      List.contains_iff_mem, mem_notified]
  rw [hwindow]
  constructor
  · intro hmem
    exact ⟨window, ⟨before, result, [], by simp⟩, hmem⟩
  · rintro ⟨window', ⟨before', result', after', heq⟩, hmem⟩
    -- the history is cut in one way at the count, and again at the end of the wait
    have horder : InOrder Event.stage
        (before ++ .counted leg :: (window ++ [.waited leg result])) := by
      rw [← List.cons_append, ← List.append_assoc]
      exact htracked.inOrder.concat fun r hr => Option.some.inj hr ▸ hbelow
    rw [List.append_assoc, List.cons_append] at heq
    obtain ⟨-, -, hrest⟩ := horder.split_inj rfl rfl heq
    have horder' : InOrder Event.stage (window ++ .waited leg result :: []) :=
      (List.pairwise_cons.1 (List.pairwise_append.1 horder).2.1).2
    obtain ⟨rfl, -, -⟩ := horder'.split_inj rfl rfl hrest
    exact hmem

theorem Tracked.concat {s s' : State} {h : List Event} {e : Event} (htracked : Tracked s h)
    (hstates : s'.states = s.states) (hquiet : notified [e] = [])
    (hstage : ∀ r, e.stage = some r → r = s.place.stage ∧ r < s'.place.stage)
    (hle : s.place.stage ≤ s'.place.stage) (hfailed : s'.failed = (s.failed || e.fails))
    (hpassed : s'.failed = false → ∀ r < s'.place.stage, s.place.stage ≤ r → e.stage = some r)
    (hcounted : ∀ leg since, s'.place = .commanding leg since ∨ s'.place = .waiting leg since →
      ∃ before window, h ++ [e] = before ++ .counted leg :: window ∧
        since = (notified before).length)
    (hwaited : ∀ leg result, e = .waited leg result → (result = true ↔ Heard leg (h ++ [e]))) :
    Tracked s' (h ++ [e]) := by
  refine ⟨?_, ?_, ?_, ?_, ?_, hcounted, ?_⟩
  · rw [hstates, htracked.states, notified_append, hquiet, List.append_nil]
  · exact (htracked.below.mono hle).concat fun r hr => (hstage r hr).2
  · exact htracked.inOrder.concat fun r hr => (hstage r hr).1 ▸ htracked.below
  · rw [hfailed, htracked.failed, List.any_append, List.any_cons, List.any_nil, Bool.or_false]
  · intro hok r hr
    rcases lt_or_ge r s.place.stage with hlt | hge
    · have hok' : s.failed = false := by
        rw [hfailed, Bool.or_eq_false_iff] at hok
        exact hok.1
      obtain ⟨e', he', hstage'⟩ := htracked.passed hok' r hlt
      exact ⟨e', List.mem_append_left _ he', hstage'⟩
    · exact ⟨e, by simp, hpassed hok r hr hge⟩
  · intro leg result hmem
    rcases List.mem_append.1 hmem with hold | hnew
    · have hother : ∀ r, e ≠ .waited leg r := by
        rintro r rfl
        have hlt := htracked.below (.waited leg result) hold _ rfl
        have heq := (hstage _ rfl).1
        omega
      rw [heard_concat hother]
      exact htracked.waited leg result hold
    · exact hwaited leg result (List.mem_singleton.1 hnew).symm

theorem tracked_notify {s : State} {h : List Event} (htracked : Tracked s h)
    (state : ApplicationState) :
    Tracked { s with states := s.states ++ [state] } (h ++ [.notified state]) := by
  refine ⟨?_, ?_, ?_, ?_, ?_, ?_, ?_⟩
  · rw [htracked.states, notified_append]
    rfl
  · exact htracked.below.concat fun r hr => by cases hr
  · exact htracked.inOrder.concat fun r hr => by cases hr
  · rw [htracked.failed, List.any_append]
    exact (Bool.or_false _).symm
  · intro hok r hr
    obtain ⟨e, he, hstage⟩ := htracked.passed hok r hr
    exact ⟨e, List.mem_append_left _ he, hstage⟩
  · intro leg since hplace
    obtain ⟨before, window, rfl, hsince⟩ := htracked.counted leg since hplace
    exact ⟨before, window ++ [.notified state], by simp, hsince⟩
  · intro leg result hmem
    rw [heard_concat (by simp)]
    rcases List.mem_append.1 hmem with hmem | hmem
    · exact htracked.waited leg result hmem
    · simp at hmem

theorem Leg.stage_le (leg : Leg) : leg.stage + 3 ≤ 7 := by
  cases leg <;> decide

theorem Leg.stage_next (leg : Leg) : leg.next.stage = leg.stage + 3 := by
  cases leg <;> rfl

theorem check_place_cases (s : State) (leaves ok : Bool) (next : Place) :
    (s.check leaves ok next).place = next ∨ (s.check leaves ok next).place = .querying 0 := by
  simp only [State.check]
  split
  · exact Or.inr rfl
  · exact Or.inl rfl

theorem check_place {s : State} {leaves ok : Bool} {next : Place}
    (hok : (s.check leaves ok next).failed = false) : (s.check leaves ok next).place = next := by
  rw [State.check, Bool.or_eq_false_iff] at hok
  simp [State.check, hok.2]

theorem check_stage {s : State} {leaves ok : Bool} {next : Place} {n : ℕ} (hn : n ≤ next.stage)
    (hle : n ≤ 7) : n ≤ (s.check leaves ok next).place.stage := by
  rcases check_place_cases s leaves ok next with h | h <;> rw [h]
  · exact hn
  · exact hle

theorem Tracked.pass {s s' : State} {h : List Event} {e : Event} (htracked : Tracked s h)
    (hstates : s'.states = s.states) (hquiet : notified [e] = [])
    (hstage : e.stage = some s.place.stage) (hlt : s.place.stage < s'.place.stage)
    (hnext : s'.failed = false → s'.place.stage = s.place.stage + 1)
    (hfailed : s'.failed = (s.failed || e.fails))
    (hcounted : ∀ leg since, s'.place = .commanding leg since ∨ s'.place = .waiting leg since →
      ∃ before window, h ++ [e] = before ++ .counted leg :: window ∧
        since = (notified before).length)
    (hwaited : ∀ leg result, e = .waited leg result → (result = true ↔ Heard leg (h ++ [e]))) :
    Tracked s' (h ++ [e]) := by
  refine htracked.concat hstates hquiet ?_ hlt.le hfailed ?_ hcounted hwaited
  · intro r hr
    obtain rfl : s.place.stage = r := Option.some.inj (hstage.symm.trans hr)
    exact ⟨rfl, hlt⟩
  · intro hok r hr hge
    have := hnext hok
    obtain rfl : r = s.place.stage := by omega
    exact hstage

theorem Tracked.rest {s s' : State} {h : List Event} {e : Event} (htracked : Tracked s h)
    (hstates : s'.states = s.states) (hfailed : s'.failed = s.failed)
    (hplace : s.place.stage = 7) (hplace' : s'.place.stage = 7) (hquiet : notified [e] = [])
    (hstage : e.stage = none) (hok : e.fails = false) : Tracked s' (h ++ [e]) := by
  refine htracked.concat hstates hquiet ?_ (hplace.trans hplace'.symm).le ?_ ?_ ?_ ?_
  · intro r hr
    rw [hstage] at hr
    cases hr
  · rw [hfailed, hok, Bool.or_false]
  · intro _ r hr hge
    omega
  · rintro leg since (hsince | hsince) <;> rw [hsince] at hplace' <;>
      cases leg <;> simp [Place.stage, Leg.stage] at hplace'
  · rintro leg result rfl
    cases hstage

theorem tracked_register {leaves : Bool} {s : State} {h : List Event} (htracked : Tracked s h)
    (hplace : s.place = .registering) (ok : Bool) (state : ApplicationState) :
    Tracked { s with
      place := if !(ok && decide (state = .running)) && leaves then .ended else .counting .inactive
      failed := s.failed || !(ok && decide (state = .running)) } (h ++ [.registered ok state]) := by
  have hzero : s.place.stage = 0 := by rw [hplace]; rfl
  refine htracked.pass rfl rfl (by rw [hzero]; rfl) ?_ ?_ rfl ?_ (by simp)
  · rw [hzero]
    simp only
    split <;> decide
  · intro hok
    rw [Bool.or_eq_false_iff] at hok
    simp only [hok.2, Bool.false_and, Bool.false_eq_true, if_false, hzero]
    rfl
  · intro leg since hsince
    simp only at hsince
    split at hsince <;> simp at hsince

theorem tracked_count {s : State} {h : List Event} {leg : Leg} (htracked : Tracked s h)
    (hplace : s.place = .counting leg) :
    Tracked { s with place := .commanding leg s.states.length } (h ++ [.counted leg]) := by
  have hstage : s.place.stage = leg.stage := by rw [hplace]; rfl
  refine htracked.pass rfl rfl (by rw [hstage]; rfl) ?_ ?_ (Bool.or_false _).symm ?_ (by simp)
  · rw [hstage]
    exact Nat.lt_succ_self _
  · intro _
    rw [hstage]
    rfl
  · intro leg' since hsince
    simp only [Place.commanding.injEq, reduceCtorEq, or_false] at hsince
    obtain ⟨rfl, rfl⟩ := hsince
    exact ⟨h, [], rfl, by rw [htracked.states]⟩

theorem tracked_command {leaves : Bool} {s : State} {h : List Event} {leg : Leg} {since : ℕ}
    (htracked : Tracked s h) (hplace : s.place = .commanding leg since) (confirmed : Bool) :
    Tracked (s.check leaves confirmed (.waiting leg since))
      (h ++ [.commanded leg leg.target confirmed]) := by
  have hstage : s.place.stage = leg.stage + 1 := by rw [hplace]; rfl
  have hle := leg.stage_le
  refine htracked.pass rfl rfl (by rw [hstage]; rfl) ?_ ?_ rfl ?_ (by simp)
  · rw [hstage]
    exact check_stage le_rfl (by omega)
  · intro hok
    rw [check_place hok, hstage]
    rfl
  · intro leg' since' hsince
    rcases check_place_cases s leaves confirmed (.waiting leg since) with h' | h' <;>
      rw [h'] at hsince <;>
      simp only [reduceCtorEq, Place.waiting.injEq, false_or, or_self] at hsince
    obtain ⟨rfl, rfl⟩ := hsince
    obtain ⟨before, window, rfl, hcount⟩ := htracked.counted leg since (Or.inl hplace)
    exact ⟨before, window ++ [.commanded leg leg.target confirmed], by simp, hcount⟩

theorem tracked_wait {leaves : Bool} {s : State} {h : List Event} {leg : Leg} {since : ℕ}
    {result : Bool} (htracked : Tracked s h) (hplace : s.place = .waiting leg since)
    (hresult : result = seenSince since leg.awaited s.states) :
    Tracked (s.check leaves result leg.next) (h ++ [.waited leg result]) := by
  have hstage : s.place.stage = leg.stage + 2 := by rw [hplace]; rfl
  have hnext := leg.stage_next
  have hle := leg.stage_le
  refine htracked.pass rfl rfl (by rw [hstage]; rfl) ?_ ?_ rfl ?_ ?_
  · rw [hstage]
    exact check_stage hnext.ge hle
  · intro hok
    rw [check_place hok, hstage, hnext]
  · intro leg' since' hsince
    rcases check_place_cases s leaves result leg.next with h' | h' <;> rw [h'] at hsince
    · cases leg <;> simp [Leg.next] at hsince
    · simp at hsince
  · rintro leg' result' ⟨⟩
    rw [hresult]
    exact heard_of_waiting _ htracked hplace

/-- **One step.** -/
theorem tracked_step {sim : SimControl} {leaves : Bool} {s s' : State} {net : Option Network}
    {h es : List Event} (htracked : Tracked s h) (hmoved : Moved sim leaves s net s' es) :
    Tracked s' (h ++ es) := by
  cases hmoved with
  | notify state => exact tracked_notify htracked state
  | sleep =>
      rw [List.append_nil]
      exact htracked
  | register hplace ok state => exact tracked_register htracked hplace ok state
  | count hplace => exact tracked_count htracked hplace
  | command hplace _ => exact tracked_command htracked hplace _
  | wait hplace result hresult => exact tracked_wait htracked hplace hresult
  | query hplace _ =>
      refine htracked.rest rfl rfl (by rw [hplace]; rfl) ?_ rfl rfl rfl
      simp only
      split <;> rfl
  | restore hplace _ =>
      refine htracked.rest rfl rfl (by rw [hplace]; rfl) ?_ rfl rfl rfl
      simp only
      split <;> rfl

/-- **What holds in every run.** -/
theorem tracked_of_run {sim : SimControl} {leaves : Bool} {labels : List Label} {s : State}
    {h : List Event} (hrun : (transition sim leaves).run State.init labels = some (s, h)) :
    Tracked s h := by
  have hinit : Tracked State.init [] := by
    refine ⟨rfl, by simp [Below], List.Pairwise.nil, rfl, ?_, ?_, by simp⟩
    · intro _ r hr
      exact absurd hr (Nat.not_lt_zero r)
    · rintro leg since (hplace | hplace) <;> cases hplace
  have := Machine.run_induction (P := Tracked)
    (fun _ _ _ _ _ htracked hstep => tracked_step htracked (moved_of_step hstep)) hinit hrun
  rwa [List.nil_append] at this

/-! ### What the simulator is told -/

/-- An event that an exchange with the simulator leaves. -/
def Event.talks : Event → Bool
  | .commanded _ _ _ => true
  | .queried _ => true
  | .reset _ _ => true
  | _ => false

/-- **An event tells what has been said over a connection**: what the simulator was told there, and
what has come of it; in the destructor it is told that the application be active. -/
def Event.TellsOver (sim : SimControl) (net : Network) : Event → Prop
  | .commanded leg told confirmed =>
      told = leg.target ∧ sim.setState net told = some confirmed
  | .queried reported => sim.getState net = some reported
  | .reset told confirmed =>
      told = Sim.ascii "Active" ∧ sim.setState net told = some confirmed
  | _ => False

/-- **What the simulator is told in a run**: the connections opened, in order, and the events they
leave. -/
def Tells (sim : SimControl) (labels : List Label) (h : List Event) : Prop :=
  List.Forall₂ (Event.TellsOver sim) (labels.filterMap Label.net) (h.filter Event.talks)

theorem tells_step {sim : SimControl} {leaves : Bool} {s s' : State} {net : Option Network}
    {es : List Event} (hmoved : Moved sim leaves s net s' es) :
    List.Forall₂ (Event.TellsOver sim) net.toList (es.filter Event.talks) := by
  cases hmoved with
  | command hplace hset => exact .cons ⟨rfl, hset⟩ .nil
  | query hplace hget => exact .cons hget .nil
  | restore hplace hset => exact .cons ⟨rfl, hset⟩ .nil
  | _ => exact .nil

/-- **What the simulator is told in a run.** -/
theorem tells_of_run {sim : SimControl} {leaves : Bool} {labels : List Label} {s s' : State}
    {h : List Event} (hrun : (transition sim leaves).run s labels = some (s', h)) :
    Tells sim labels h :=
  Machine.run_forall₂ (fun _ _ _ _ hstep => tells_step (moved_of_step hstep)) hrun

theorem Tells.exists_net {sim : SimControl} {labels : List Label} {h : List Event} {e : Event}
    (htells : Tells sim labels h) (he : e ∈ h) (htalks : e.talks = true) :
    ∃ net, e.TellsOver sim net := by
  have hmem : e ∈ h.filter Event.talks := List.mem_filter.2 ⟨he, htalks⟩
  obtain ⟨i, hi, rfl⟩ := List.getElem_of_mem hmem
  obtain ⟨hlength, hall⟩ := List.forall₂_iff_get.1 htells
  exact ⟨_, hall i (hlength ▸ hi) hi⟩

theorem Tells.commanded {sim : SimControl} {labels : List Label} {h : List Event} {leg : Leg}
    {told : Sim.Bytes} {confirmed : Bool} (htells : Tells sim labels h)
    (he : .commanded leg told confirmed ∈ h) : told = leg.target := by
  obtain ⟨net, htold, -⟩ := htells.exists_net he rfl
  exact htold

theorem Tells.reset {sim : SimControl} {labels : List Label} {h : List Event}
    {told : Sim.Bytes} {confirmed : Bool} (htells : Tells sim labels h)
    (he : .reset told confirmed ∈ h) : told = Sim.ascii "Active" := by
  obtain ⟨net, htold, -⟩ := htells.exists_net he rfl
  exact htold

/-! ### The verdict -/

/-- The event that a stage leaves when its check passes. -/
def passedEvent : ℕ → Option Event
  | 0 => some (.registered true .running)
  | 1 => some (.counted .inactive)
  | 2 => some (.commanded .inactive Leg.inactive.target true)
  | 3 => some (.waited .inactive true)
  | 4 => some (.counted .active)
  | 5 => some (.commanded .active Leg.active.target true)
  | 6 => some (.waited .active true)
  | _ => none

theorem passedEvent_eq {e : Event} {r : ℕ} (hstage : e.stage = some r) (hok : e.fails = false)
    (htold : ∀ leg told confirmed, e = .commanded leg told confirmed → told = leg.target) :
    passedEvent r = some e := by
  cases e with
  | registered ok state =>
      obtain rfl : 0 = r := Option.some.inj hstage
      simp only [Event.fails, Bool.not_eq_false', Bool.and_eq_true, decide_eq_true_eq] at hok
      obtain ⟨rfl, rfl⟩ := hok
      rfl
  | counted leg =>
      obtain rfl : leg.stage = r := Option.some.inj hstage
      cases leg <;> rfl
  | commanded leg told confirmed =>
      obtain rfl : leg.stage + 1 = r := Option.some.inj hstage
      obtain rfl : confirmed = true := by simpa [Event.fails] using hok
      obtain rfl : told = leg.target := htold leg told true rfl
      cases leg <;> rfl
  | waited leg result =>
      obtain rfl : leg.stage + 2 = r := Option.some.inj hstage
      obtain rfl : result = true := by simpa [Event.fails] using hok
      cases leg <;> rfl
  | _ => cases hstage

theorem Tracked.failed_eq_false_iff {s : State} {h : List Event} (htracked : Tracked s h) :
    s.failed = false ↔ ∀ e ∈ h, e.fails = false := by
  rw [htracked.failed, List.any_eq_false]
  simp only [Bool.not_eq_true]

/-- Where no check has failed, the stages passed have left the events of checks that pass. -/
theorem Tracked.mem_of_passed {sim : SimControl} {labels : List Label} {s : State}
    {h : List Event} {r : ℕ} {e : Event} (htracked : Tracked s h) (htells : Tells sim labels h)
    (hok : s.failed = false) (hr : r < s.place.stage) (he : passedEvent r = some e) : e ∈ h := by
  obtain ⟨e', hmem, hstage⟩ := htracked.passed hok r hr
  have := passedEvent_eq hstage (htracked.failed_eq_false_iff.1 hok e' hmem)
    fun leg told confirmed hcommand => htells.commanded (hcommand ▸ hmem)
  rw [he, Option.some.injEq] at this
  rwa [this]

theorem toggled_of_passed {sim : SimControl} {labels : List Label} {s : State} {h : List Event}
    {leg : Leg} (htracked : Tracked s h) (htells : Tells sim labels h) (hok : s.failed = false)
    (hplace : leg.stage + 2 < s.place.stage) : Toggled leg h := by
  have hcommand : .commanded leg leg.target true ∈ h :=
    htracked.mem_of_passed htells hok (r := leg.stage + 1) (by omega) (by cases leg <;> rfl)
  have hwait : .waited leg true ∈ h :=
    htracked.mem_of_passed htells hok hplace (by cases leg <;> rfl)
  obtain ⟨window, ⟨before, result, after, rfl⟩, hheard⟩ := (htracked.waited leg true hwait).1 rfl
  refine ⟨window, ⟨before, result, after, rfl⟩, ?_, hheard⟩
  exact htracked.inOrder.mem_between rfl rfl rfl (by omega) (by omega) hcommand

/-- **When the case passes**: the client has been registered and told that the application runs,
and in both legs the simulator is told the state of the leg and confirms it, and the notification
awaited comes between the count and the end of the wait, whatever else has been notified before, in
between and afterwards. -/
theorem passes_iff {sim : SimControl} {leaves : Bool} {labels : List Label} {s : State}
    {h : List Event} (hrun : (transition sim leaves).run State.init labels = some (s, h))
    (hended : s.place = .ended) :
    Tells sim labels h ∧
      (s.failed = false ↔ .registered true .running ∈ h ∧ ∀ leg, Toggled leg h) := by
  have htracked := tracked_of_run hrun
  have htells := tells_of_run hrun
  refine ⟨htells, ?_⟩
  have hstage : s.place.stage = 7 := by rw [hended]; rfl
  constructor
  · intro hok
    refine ⟨htracked.mem_of_passed htells hok (r := 0) (by omega) rfl, fun leg => ?_⟩
    have := leg.stage_le
    exact toggled_of_passed htracked htells hok (by omega)
  · rintro ⟨hregistered, htoggled⟩
    rw [htracked.failed_eq_false_iff]
    intro e he
    cases e with
    | registered ok state =>
        have := htracked.inOrder.eq_of_stage he hregistered rfl rfl
        rw [this]
        rfl
    | commanded leg told confirmed =>
        obtain ⟨window, ⟨before, result, after, heq⟩, hcommand, -⟩ := htoggled leg
        have hmem : .commanded leg leg.target true ∈ h := by
          rw [heq]
          simp [hcommand]
        have := htracked.inOrder.eq_of_stage he hmem rfl rfl
        rw [this]
        rfl
    | waited leg result =>
        obtain ⟨window, hwindow, -, hheard⟩ := htoggled leg
        have : result = true := (htracked.waited leg result he).2 ⟨window, hwindow, hheard⟩
        rw [this]
        rfl
    | _ => rfl

/-- A connection to the simulator over which it sends `reply`. -/
def replying (reply : Chunk) : Network where
  getaddrinfo := fun _ _ => some [.connected]
  sends := [1024]
  chunks := [reply]
  ending := .close

def accepting : Network :=
  replying ⟨Sim.ascii "HTTP/1.0 200 OK\r\n\r\nSetState command succeeded!", by decide +kernel⟩

/-- The simulator reports the application active. -/
def reportingActive : Network :=
  replying ⟨Sim.ascii "HTTP/1.0 200 OK\r\n\r\nGetState returned: Active", by decide +kernel⟩

/-- The simulator reports the application inactive. -/
def reportingInactive : Network :=
  replying ⟨Sim.ascii "HTTP/1.0 200 OK\r\n\r\nGetState returned: Inactive", by decide +kernel⟩

/-- The case with a notification left over from before, and the one awaited in the last moment. -/
def toggledRun : List Label :=
  [.register true .running, .notify .inactive, .count, .command accepting, .look,
    .notify .inactive, .look, .count, .command accepting, .notify .running, .expire,
    .query reportingActive]

/-- It passes, and both legs have gone as they should. -/
theorem passes_toggledRun : ∃ s h, (transition localSim true).run State.init toggledRun =
    some (s, h) ∧ s.failed = false ∧ Tells localSim toggledRun h ∧ ∀ leg, Toggled leg h := by
  have hrun : (transition localSim true).run State.init toggledRun =
      some (⟨[.inactive, .inactive, .running], .ended, false⟩,
        [.registered true .running, .notified .inactive, .counted .inactive,
          .commanded .inactive (Sim.ascii "Inactive") true, .notified .inactive,
          .waited .inactive true, .counted .active, .commanded .active (Sim.ascii "Active") true,
          .notified .running, .waited .active true, .queried (Sim.ascii "Active")]) := by
    decide +kernel
  have hpasses := passes_iff hrun rfl
  exact ⟨_, _, hrun, rfl, hpasses.1, (hpasses.2.1 rfl).2⟩

/-! ### The application is set active again -/

/-- The application has been told to be active in the destructor of `RestoreActive`. -/
def Event.isReset : Event → Bool
  | .reset _ _ => true
  | _ => false

def resets (h : List Event) : ℕ := h.countP Event.isReset

@[simp] theorem resets_append (h h' : List Event) : resets (h ++ h') = resets h + resets h' :=
  List.countP_append

/-- The simulator has reported the application active, and nothing has been asked of it since. -/
def LeftActive (h : List Event) : Prop :=
  ∃ before after, h = before ++ .queried (Sim.ascii "Active") :: after ∧
    ∀ e ∈ after, ∃ state, e = .notified state

/-- In the round `i` the simulator has reported another state. -/
def Asked (i : ℕ) (h : List Event) : Prop :=
  ∃ before reported after, h = before ++ .queried reported :: after ∧ resets before = i ∧
    reported ≠ Sim.ascii "Active"

/-- **The rounds of the destructor.** -/
structure Rounds (s : State) (h : List Event) : Prop where
  early : s.place.stage < 7 → resets h = 0
  round : ∀ round, s.place = .querying round ∨ s.place = .restoring round →
    round < 25 ∧ resets h = round
  asked : ∀ i, i < resets h ∨ s.place = .restoring i → Asked i h
  ended : s.place = .ended → (∀ leg told confirmed, .commanded leg told confirmed ∉ h) ∨ LeftActive h ∨
    resets h = 25

theorem Asked.append {i : ℕ} {h : List Event} (hasked : Asked i h) (h' : List Event) :
    Asked i (h ++ h') := by
  obtain ⟨before, reported, after, rfl, hresets, hreported⟩ := hasked
  exact ⟨before, reported, after ++ h', by simp, hresets, hreported⟩

theorem Rounds.concat {s s' : State} {h : List Event} {e : Event} (hrounds : Rounds s h)
    (hearly : s.place.stage < 7) (he : e.isReset = false)
    (hplace : s'.place.stage < 7 ∨ s'.place = .querying 0 ∨
      s'.place = .ended ∧ ∀ leg told confirmed, .commanded leg told confirmed ∉ h ++ [e]) :
    Rounds s' (h ++ [e]) := by
  have hnone : resets (h ++ [e]) = 0 := by
    rw [resets_append, hrounds.early hearly, resets, List.countP_singleton, he]
    rfl
  refine ⟨fun _ => hnone, ?_, ?_, ?_⟩
  · rintro round (hround | hround) <;> rw [hround] at hplace
    · rcases hplace with hplace | hplace | ⟨hplace, -⟩
      · exact absurd hplace (lt_irrefl 7)
      · cases hplace
        exact ⟨by decide, hnone⟩
      · cases hplace
    · rcases hplace with hplace | hplace | ⟨hplace, -⟩
      · exact absurd hplace (lt_irrefl 7)
      · cases hplace
      · cases hplace
  · rintro i (hi | hi)
    · rw [hnone] at hi
      exact absurd hi (Nat.not_lt_zero i)
    · rw [hi] at hplace
      rcases hplace with hplace | hplace | ⟨hplace, -⟩
      · exact absurd hplace (lt_irrefl 7)
      · cases hplace
      · cases hplace
  · intro hended
    rw [hended] at hplace
    rcases hplace with hplace | hplace | ⟨-, hplace⟩
    · exact absurd hplace (lt_irrefl 7)
    · cases hplace
    · exact Or.inl hplace

theorem rounds_notify {s : State} {h : List Event} (hrounds : Rounds s h)
    (state : ApplicationState) :
    Rounds { s with states := s.states ++ [state] } (h ++ [.notified state]) := by
  have hsame : resets (h ++ [.notified state]) = resets h := by
    rw [resets_append]
    rfl
  refine ⟨?_, ?_, ?_, ?_⟩ <;> rw [hsame]
  · exact hrounds.early
  · exact hrounds.round
  · exact fun i hi => (hrounds.asked i hi).append _
  · intro hended
    rcases hrounds.ended hended with hnone | ⟨before, after, rfl, hafter⟩ | hall
    · exact Or.inl fun leg told confirmed => by simpa using hnone leg told confirmed
    · refine Or.inr (Or.inl ⟨before, after ++ [.notified state], by simp, ?_⟩)
      intro e he
      rcases List.mem_append.1 he with he | he
      · exact hafter e he
      · exact ⟨state, List.mem_singleton.1 he⟩
    · exact Or.inr (Or.inr hall)

theorem rounds_query {s : State} {h : List Event} {round : ℕ} (hrounds : Rounds s h)
    (hplace : s.place = .querying round) (reported : Sim.Bytes) :
    Rounds { s with place := if reported = Sim.ascii "Active" then .ended else .restoring round }
      (h ++ [.queried reported]) := by
  obtain ⟨hlt, hround⟩ := hrounds.round round (Or.inl hplace)
  have hsame : resets (h ++ [.queried reported]) = resets h := by
    rw [resets_append]
    rfl
  have hasked : ∀ i, i < resets (h ++ [.queried reported]) →
      Asked i (h ++ [.queried reported]) := by
    intro i hi
    rw [hsame] at hi
    exact (hrounds.asked i (Or.inl hi)).append _
  by_cases hactive : reported = Sim.ascii "Active"
  · simp only [if_pos hactive]
    refine ⟨fun hearly => absurd hearly (lt_irrefl 7), ?_, ?_, fun _ => ?_⟩
    · rintro round' (hround' | hround') <;> cases hround'
    · rintro i (hi | hi)
      · exact hasked i hi
      · cases hi
    · rw [hactive]
      exact Or.inr (Or.inl ⟨h, [], rfl, by simp⟩)
  · simp only [if_neg hactive]
    refine ⟨fun hearly => absurd hearly (lt_irrefl 7), ?_, ?_, fun hended => by cases hended⟩
    · rintro round' (hround' | hround') <;> cases hround'
      exact ⟨hlt, hsame.trans hround⟩
    · rintro i (hi | hi)
      · exact hasked i hi
      · cases hi
        exact ⟨h, reported, [], rfl, hround, hactive⟩

theorem rounds_restore {s : State} {h : List Event} {round : ℕ} (hrounds : Rounds s h)
    (hplace : s.place = .restoring round) (confirmed : Bool) :
    Rounds { s with place := if round + 1 < 25 then .querying (round + 1) else .ended }
      (h ++ [.reset (Sim.ascii "Active") confirmed]) := by
  obtain ⟨hlt, hround⟩ := hrounds.round round (Or.inr hplace)
  have hone : resets (h ++ [.reset (Sim.ascii "Active") confirmed]) = round + 1 := by
    rw [resets_append, hround]
    rfl
  have hasked : ∀ i, i < resets (h ++ [.reset (Sim.ascii "Active") confirmed]) →
      Asked i (h ++ [.reset (Sim.ascii "Active") confirmed]) := by
    intro i hi
    rw [hone] at hi
    refine Asked.append ?_ _
    rcases Nat.lt_succ_iff_lt_or_eq.1 hi with hi | rfl
    · exact hrounds.asked i (Or.inl (hround ▸ hi))
    · exact hrounds.asked i (Or.inr hplace)
  by_cases hmore : round + 1 < 25
  · simp only [if_pos hmore]
    refine ⟨fun hearly => absurd hearly (lt_irrefl 7), ?_, ?_, fun hended => by cases hended⟩
    · rintro round' (hround' | hround') <;> cases hround'
      exact ⟨hmore, hone⟩
    · rintro i (hi | hi)
      · exact hasked i hi
      · cases hi
  · simp only [if_neg hmore]
    refine ⟨fun hearly => absurd hearly (lt_irrefl 7), ?_, ?_, fun _ => ?_⟩
    · rintro round' (hround' | hround') <;> cases hround'
    · rintro i (hi | hi)
      · exact hasked i hi
      · cases hi
    · exact Or.inr (Or.inr (by rw [hone]; omega))

/-- **One step.** -/
theorem rounds_step {sim : SimControl} {leaves : Bool} {s s' : State} {net : Option Network}
    {h es : List Event} (htracked : Tracked s h) (hrounds : Rounds s h)
    (hmoved : Moved sim leaves s net s' es) : Rounds s' (h ++ es) := by
  cases hmoved with
  | notify state => exact rounds_notify hrounds state
  | sleep =>
      rw [List.append_nil]
      exact hrounds
  | register hplace ok state =>
      have hbelow := htracked.below
      rw [hplace] at hbelow
      refine hrounds.concat (by rw [hplace]; decide) rfl ?_
      simp only
      split
      · refine Or.inr (Or.inr ⟨rfl, fun leg told confirmed hmem => ?_⟩)
        have hmem : .commanded leg told confirmed ∈ h := by simpa using hmem
        exact absurd (hbelow _ hmem _ rfl) (Nat.not_lt_zero _)
      · exact Or.inl (by decide)
  | @count leg hplace =>
      have := leg.stage_le
      refine hrounds.concat (by rw [hplace]; simp only [Place.stage]; omega) rfl (Or.inl ?_)
      simp only [Place.stage]
      omega
  | @command leg since hplace _ confirmed _ =>
      have := leg.stage_le
      refine hrounds.concat (by rw [hplace]; simp only [Place.stage]; omega) rfl ?_
      rcases check_place_cases s leaves confirmed (.waiting leg since) with hnext | hnext
      · refine Or.inl ?_
        rw [hnext]
        simp only [Place.stage]
        omega
      · exact Or.inr (Or.inl hnext)
  | @wait leg since hplace result hresult =>
      have := leg.stage_le
      refine hrounds.concat (by rw [hplace]; simp only [Place.stage]; omega) rfl ?_
      rcases check_place_cases s leaves result leg.next with hnext | hnext
      · rw [hnext]
        cases leg with
        | inactive => exact Or.inl (by decide)
        | active => exact Or.inr (Or.inl rfl)
      · exact Or.inr (Or.inl hnext)
  | query hplace _ => exact rounds_query hrounds hplace _
  | restore hplace _ => exact rounds_restore hrounds hplace _

/-- **The rounds of the destructor**, in every run. -/
theorem rounds_of_run {sim : SimControl} {leaves : Bool} {labels : List Label} {s : State}
    {h : List Event} (hrun : (transition sim leaves).run State.init labels = some (s, h)) :
    Rounds s h := by
  have hinit : Rounds State.init [] := by
    refine ⟨fun _ => rfl, ?_, ?_, fun hended => by cases hended⟩
    · rintro round (hround | hround) <;> cases hround
    · rintro i (hi | hi)
      · exact absurd hi (Nat.not_lt_zero i)
      · cases hi
  have htracked : Tracked State.init [] := @tracked_of_run sim leaves [] State.init [] rfl
  have := Machine.run_induction (P := fun s h => Tracked s h ∧ Rounds s h)
    (fun _ _ _ _ _ hboth hstep => ⟨tracked_step hboth.1 (moved_of_step hstep),
      rounds_step hboth.1 hboth.2 (moved_of_step hstep)⟩) ⟨htracked, hinit⟩ hrun
  exact (List.nil_append h ▸ this).2

/-- **The case leaves the application active.**  However the case has gone, once it has given a
command it ends only behind a report that the application is active, provided that the simulator
reports so when it has been told `k` times in the end; and it is told no more often than that, each
time over a connection of its own, and each time that the application be active. -/
theorem restored {sim : SimControl} {leaves : Bool} {labels : List Label} {s : State}
    {h : List Event} {k : ℕ}
    (hrun : (transition sim leaves).run State.init labels = some (s, h))
    (hended : s.place = .ended)
    (hcommanded : ∃ leg told confirmed, .commanded leg told confirmed ∈ h)
    (hk : k < 25) (hobeys : ∀ before reported after, h = before ++ .queried reported :: after →
      k ≤ resets before → reported = Sim.ascii "Active") :
    LeftActive h ∧ resets h ≤ k ∧ Tells sim labels h ∧
      ∀ told confirmed, .reset told confirmed ∈ h → told = Sim.ascii "Active" := by
  have htells := tells_of_run hrun
  have hrounds := rounds_of_run hrun
  have hle : resets h ≤ k := by
    by_contra hlt
    obtain ⟨before, reported, after, heq, hresets, hother⟩ :=
      hrounds.asked k (Or.inl (not_le.1 hlt))
    exact hother (hobeys before reported after heq hresets.ge)
  obtain ⟨leg, told, confirmed, hmem⟩ := hcommanded
  rcases hrounds.ended hended with hnone | hactive | hall
  · exact absurd hmem (hnone leg told confirmed)
  · exact ⟨hactive, hle, htells, fun _ _ hreset => htells.reset hreset⟩
  · omega

/-- The case leaves behind a command that fails, and the simulator reports the application inactive
once. -/
def restoredRun : List Label :=
  [.register true .running, .count, .command reportingInactive, .query reportingInactive,
    .restore accepting, .query reportingActive]

/-- It is told once that the application be active, and the application is left active. -/
theorem restored_restoredRun : ∃ s h, (transition localSim true).run State.init restoredRun =
    some (s, h) ∧ s.failed = true ∧ .reset (Sim.ascii "Active") true ∈ h ∧
      (LeftActive h ∧ resets h ≤ 1 ∧ Tells localSim restoredRun h ∧
        ∀ told confirmed, .reset told confirmed ∈ h → told = Sim.ascii "Active") := by
  have hrun : (transition localSim true).run State.init restoredRun =
      some (⟨[], .ended, true⟩,
        [.registered true .running, .counted .inactive,
          .commanded .inactive (Sim.ascii "Inactive") false, .queried (Sim.ascii "Inactive"),
          .reset (Sim.ascii "Active") true, .queried (Sim.ascii "Active")]) := by
    decide +kernel
  refine ⟨_, _, hrun, rfl, by simp,
    restored hrun rfl ⟨.inactive, Sim.ascii "Inactive", false, by simp⟩ (by omega) ?_⟩
  intro before reported after heq hresets
  -- the one report behind the command of the end is the last event
  have hlength : before.length < 6 := by
    have := congrArg List.length heq
    simp only [List.length_append, List.length_cons, List.length_nil] at this
    omega
  have hbefore := congrArg (List.take before.length) heq
  have hreported := congrArg (fun h : List Event => h[before.length]?) heq
  simp only [List.take_left, List.getElem?_append_right le_rfl, Nat.sub_self,
    List.getElem?_cons_zero] at hbefore hreported
  rw [← hbefore] at hresets
  clear heq hbefore hrun
  generalize before.length = n at hlength hresets hreported
  interval_cases n <;> simp [resets, Event.isReset] at hresets hreported ⊢
  exact hreported.symm

end Control
