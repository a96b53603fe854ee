/-
**What the client observes, and the threads that wait for it.**

Besides feeding the pipeline, the client keeps what the server notifies.  Every access takes the one
mutex of the client, and three of the accessors wait on its condition variable.  The sections that
hold the mutex are taken here one by one, in any order, with any number of threads waiting.

The states, errors and infos of the pipeline interface are only kept and handed out; their types are
parameters.

Main definitions:

* `Feed.Observed` — the client with what it has been notified;
* `Feed.Critical` — a section that holds the mutex;
* `Feed.Condition` — what an accessor waits for;
* `Feed.observer` — the mutex, and which sections notify.

Main results:

* `Feed.latched_observer` — a condition comes with the callback it is waited for, which notifies;
* `Feed.waits_observe` — **a wait returns whether its callback has come**, and does not sleep
  through it;
* `Feed.stateAtLastError_eq_iff` — **what the state at the last error says** about the history.
-/
import RialtoConformance.Lib.Monitor
import RialtoConformance.Feed.Client

set_option relaxedAutoImplicit false
set_option autoImplicit false

namespace Feed

open Runs Monitor

variable {PlaybackState NetworkState PlaybackError QosInfo : Type}

/-! ### What is kept -/

/-- **The client with what it has been notified.** -/
structure Observed (PlaybackState NetworkState PlaybackError QosInfo : Type) where
  client : Client
  statesSeen : Finset PlaybackState
  flushedSources : Finset Int32
  networkStatesSeen : Finset NetworkState
  underflowSources : Finset Int32
  firstFrameSources : Finset Int32
  positionUpdates : UInt64
  lastPosition : Int64
  qosCount : UInt64
  lastQos : QosInfo
  playbackErrorCount : UInt64
  lastPlaybackError : PlaybackError
  lastState : PlaybackState
  stateAtLastError : PlaybackState

/-- A client as it is constructed, `unknown`, `unknownError` and `noQos` being the values its
members begin with. -/
def Observed.init (unknown : PlaybackState) (unknownError : PlaybackError) (noQos : QosInfo) :
    Observed PlaybackState NetworkState PlaybackError QosInfo where
  client := Client.init
  statesSeen := ∅
  flushedSources := ∅
  networkStatesSeen := ∅
  underflowSources := ∅
  firstFrameSources := ∅
  positionUpdates := 0
  lastPosition := -1
  qosCount := 0
  lastQos := noQos
  playbackErrorCount := 0
  lastPlaybackError := unknownError
  lastState := unknown
  stateAtLastError := unknown

/-- **A section that holds the mutex**: a call of the application, a section of a request, or a
callback. -/
inductive Critical (PlaybackState NetworkState PlaybackError QosInfo : Type)
  | app (op : AppOp)
  | need (need : NeedData)
  | settle (sourceId : Int32)
  | note (round : Round) (status : AddSegmentStatus)
  | close (round : Round)
  | cancelNeedMediaData (sourceId : Int32)
  | playbackState (state : PlaybackState)
  | networkState (state : NetworkState)
  | position (position : Int64)
  | qos (sourceId : Int32) (qosInfo : QosInfo)
  | bufferUnderflow (sourceId : Int32)
  | firstFrameReceived (sourceId : Int32)
  | playbackError (sourceId : Int32) (error : PlaybackError)
  | sourceFlushed (sourceId : Int32)
  deriving DecidableEq

/-- **What an accessor waits for.** -/
inductive Condition (PlaybackState : Type)
  /-- `waitForPlaybackState`. -/
  | playbackState (state : PlaybackState)
  /-- `waitForSourceFlushed`. -/
  | sourceFlushed (sourceId : Int32)
  /-- `waitForBufferUnderflow`. -/
  | bufferUnderflow (sourceId : Int32)

def Condition.callback : Condition PlaybackState →
    Critical PlaybackState NetworkState PlaybackError QosInfo
  | .playbackState state => .playbackState state
  | .sourceFlushed sourceId => .sourceFlushed sourceId
  | .bufferUnderflow sourceId => .bufferUnderflow sourceId

variable [DecidableEq PlaybackState]

/-- A section is the callback a condition waits for. -/
def Condition.comesWith (k : Condition PlaybackState)
    (op : Critical PlaybackState NetworkState PlaybackError QosInfo) : Bool :=
  match k, op with
  | .playbackState state, .playbackState state' => decide (state = state')
  | .sourceFlushed sourceId, .sourceFlushed sourceId' => decide (sourceId = sourceId')
  | .bufferUnderflow sourceId, .bufferUnderflow sourceId' => decide (sourceId = sourceId')
  | _, _ => false

theorem comesWith_iff {k : Condition PlaybackState}
    {op : Critical PlaybackState NetworkState PlaybackError QosInfo} :
    k.comesWith op = true ↔ op = k.callback := by
  cases k <;> cases op <;> simp [Condition.comesWith, Condition.callback, eq_comm]

variable [DecidableEq NetworkState]

/-- **What a section does.** -/
def Critical.apply (o : Observed PlaybackState NetworkState PlaybackError QosInfo) :
    Critical PlaybackState NetworkState PlaybackError QosInfo →
      Observed PlaybackState NetworkState PlaybackError QosInfo
  | .app op => { o with client := op.apply o.client }
  | .need request => { o with client := (o.client.openRound request).1 }
  | .settle sourceId => { o with client := o.client.settle sourceId }
  | .note round status => { o with client := (o.client.noteAnswer round status).1 }
  | .close round => { o with client := (o.client.closeRound round).1 }
  | .cancelNeedMediaData sourceId =>
      { o with client := o.client.notifyCancelNeedMediaData sourceId }
  | .playbackState state => { o with statesSeen := insert state o.statesSeen, lastState := state }
  | .networkState state => { o with networkStatesSeen := insert state o.networkStatesSeen }
  | .position ns =>
      { o with positionUpdates := o.positionUpdates + 1, lastPosition := ns }
  | .qos _ qosInfo => { o with qosCount := o.qosCount + 1, lastQos := qosInfo }
  | .bufferUnderflow sourceId =>
      { o with underflowSources := insert sourceId o.underflowSources }
  | .firstFrameReceived sourceId =>
      { o with firstFrameSources := insert sourceId o.firstFrameSources }
  | .playbackError _ error =>
      { o with
        playbackErrorCount := o.playbackErrorCount + 1
        lastPlaybackError := error
        -- the state in force when the error arrives
        stateAtLastError := o.lastState }
  | .sourceFlushed sourceId => { o with flushedSources := insert sourceId o.flushedSources }

/-- The sections that `notify_all` is called behind. -/
def Critical.notifies : Critical PlaybackState NetworkState PlaybackError QosInfo → Bool
  | .cancelNeedMediaData _ => true
  | .playbackState _ => true
  | .bufferUnderflow _ => true
  | .playbackError _ _ => true
  | .sourceFlushed _ => true
  | _ => false

/-! ### Waiting -/

/-- The condition, as it is looked at under the mutex. -/
def Condition.holds (o : Observed PlaybackState NetworkState PlaybackError QosInfo) :
    Condition PlaybackState → Bool
  | .playbackState state => decide (state ∈ o.statesSeen)
  | .sourceFlushed sourceId => decide (sourceId ∈ o.flushedSources)
  | .bufferUnderflow sourceId => decide (sourceId ∈ o.underflowSources)

/-- **The mutex of the client.** -/
def observer : Guarded (Observed PlaybackState NetworkState PlaybackError QosInfo)
    (Critical PlaybackState NetworkState PlaybackError QosInfo) (Condition PlaybackState) where
  apply := Critical.apply
  notifies := Critical.notifies
  holds := fun k o => k.holds o

/-- **A condition comes with the callback it is waited for, which notifies.** -/
theorem latched_observer :
    Latched (observer : Guarded (Observed PlaybackState NetworkState PlaybackError QosInfo) _ _)
      Condition.comesWith := by
  constructor
  · intro k o op
    cases k <;> cases op <;>
      simp [observer, Condition.holds, Condition.comesWith, Critical.apply, Finset.mem_insert]
  · intro k op hop
    rw [comesWith_iff] at hop
    subst hop
    cases k <;> rfl

/-- **A wait returns whether its callback has come**, with any number of threads that wait, and it
does not sleep through the callback: behind it, and behind the `notify_all` still to come, the wait
returns without any further callback and before its deadline. -/
theorem waits_observe {ι : Type} [DecidableEq ι] {unknown : PlaybackState}
    {unknownError : PlaybackError} {noQos : QosInfo}
    {as : List (Step (Critical PlaybackState NetworkState PlaybackError QosInfo)
      (Condition PlaybackState) ι)}
    {s : State (Observed PlaybackState NetworkState PlaybackError QosInfo) (Condition PlaybackState)
      ι}
    {h : List (Seen (Critical PlaybackState NetworkState PlaybackError QosInfo)
      (Condition PlaybackState) ι)}
    (hrun : (machine observer).run (start (Observed.init unknown unknownError noQos)) as =
      some (s, h)) :
    (∀ before i k result after, h = before ++ .returned i k result :: after →
      (result = true ↔ k.callback ∈ operations before)) ∧
    ∀ i k, s.position i = .looking k ∨ s.position i = .asleep k → k.callback ∈ operations h →
      (s.position i = .asleep k → s.pending ≠ 0) ∧
        ∃ bs s', (machine observer).run s bs = some (s', [.returned i k true]) ∧
          (∀ b ∈ bs, b = .notifyAll ∨ b = .look i) ∧ bs.length ≤ 2 := by
  have hinit : ∀ k, (observer : Guarded (Observed PlaybackState NetworkState PlaybackError QosInfo)
      _ _).holds k (Observed.init unknown unknownError noQos) = false := by
    intro k
    cases k <;> simp [observer, Condition.holds, Observed.init]
  have hawake := awake_of_run latched_observer hrun
  refine ⟨?_, ?_⟩
  · intro before i k result after hsplit
    rw [returned_iff latched_observer hinit hrun before i k result after hsplit]
    constructor
    · rintro ⟨op, hop, hmakes⟩
      rwa [← comesWith_iff.1 hmakes]
    · exact fun hop => ⟨_, hop, comesWith_iff.2 rfl⟩
  · intro i k hi hcome
    have hvalue : s.value = (operations h).foldl observer.apply
        (Observed.init unknown unknownError noQos) := value_of_run hrun
    have hholds : observer.holds k s.value = true := by
      rw [hvalue, latched_observer.holds_foldl, Bool.or_eq_true, List.any_eq_true]
      exact Or.inl ⟨_, hcome, comesWith_iff.2 rfl⟩
    obtain ⟨bs, s', hbs, hlabels, hlength, -⟩ := returns_true hawake hi hholds
    exact ⟨fun hasleep => hawake i k hasleep hholds, bs, s', hbs, hlabels, hlength⟩

/-- A thread waits for a state that is notified while it sleeps. -/
def sleepingRun : List (Step (Critical ℕ ℕ ℕ ℕ) (Condition ℕ) ℕ) :=
  [.wait 0 (.playbackState 3), .look 0, .operate (.app (.setPipeline true)),
    .operate (.playbackState 3)]

/-- It is woken and returns. -/
theorem waits_observe_sleepingRun : ∃ (s s' : State (Observed ℕ ℕ ℕ ℕ) (Condition ℕ) ℕ) (h : _)
    (bs : List (Step (Critical ℕ ℕ ℕ ℕ) (Condition ℕ) ℕ)),
    (machine observer).run (start (Observed.init 0 0 0)) sleepingRun = some (s, h) ∧
      s.position 0 = .asleep (.playbackState 3) ∧
        (machine observer).run s bs = some (s', [.returned 0 (.playbackState 3) true]) := by
  have hrun : (machine observer).run (start (Observed.init 0 0 0)) sleepingRun = some (_, _) := rfl
  obtain ⟨-, bs, s', hbs, -, -⟩ := (waits_observe hrun).2 0 (.playbackState 3) (Or.inr rfl)
    (by simp [operations, Condition.callback])
  exact ⟨_, s', _, bs, hrun, rfl, hbs⟩

/-! ### The state at the last error -/

/-- A section is `notifyPlaybackState`. -/
def Critical.isPlaybackState : Critical PlaybackState NetworkState PlaybackError QosInfo → Bool
  | .playbackState _ => true
  | _ => false

/-- A section is `notifyPlaybackError`. -/
def Critical.isPlaybackError : Critical PlaybackState NetworkState PlaybackError QosInfo → Bool
  | .playbackError _ _ => true
  | _ => false

theorem lastState_eq_iff (o : Observed PlaybackState NetworkState PlaybackError QosInfo)
    {state : PlaybackState} (hstate : o.lastState ≠ state)
    (h : List (Critical PlaybackState NetworkState PlaybackError QosInfo)) :
    (h.foldl Critical.apply o).lastState = state ↔
      ∃ before after, h = before ++ .playbackState state :: after ∧
        ∀ y ∈ after, y.isPlaybackState = false := by
  have hpart : ∀ (o : Observed PlaybackState NetworkState PlaybackError QosInfo) x,
      (Critical.apply o x).lastState = if x.isPlaybackState then
        (Critical.apply o x).lastState else o.lastState := by
    intro o x
    cases x <;> rfl
  rw [foldl_latest hpart o h]
  constructor
  · rintro (⟨before, x, after, rfl, hx, hleft, hafter⟩ | ⟨hbegin, -⟩)
    · cases x with
      | playbackState state' =>
          obtain rfl : state' = state := hleft
          exact ⟨before, after, rfl, hafter⟩
      | _ => exact absurd hx (by simp [Critical.isPlaybackState])
    · exact absurd hbegin hstate
  · rintro ⟨before, after, rfl, hafter⟩
    exact Or.inl ⟨before, .playbackState state, after, rfl, rfl, rfl, hafter⟩

/-- **What the state at the last error says**: that state has been notified, no other one behind
it, and then the last error. -/
theorem stateAtLastError_eq_iff {unknown state : PlaybackState} (hstate : unknown ≠ state)
    (unknownError : PlaybackError) (noQos : QosInfo)
    (h : List (Critical PlaybackState NetworkState PlaybackError QosInfo)) :
    (h.foldl Critical.apply (Observed.init unknown unknownError noQos)).stateAtLastError = state ↔
      ∃ before between after sourceId error,
        h = before ++ .playbackState state :: (between ++ .playbackError sourceId error :: after) ∧
          (∀ y ∈ between, y.isPlaybackState = false) ∧
            ∀ y ∈ after, y.isPlaybackError = false := by
  have hpart : ∀ (o : Observed PlaybackState NetworkState PlaybackError QosInfo) x,
      (Critical.apply o x).stateAtLastError = if x.isPlaybackError then
        o.lastState else o.stateAtLastError := by
    intro o x
    cases x <;> rfl
  rw [foldl_latest hpart _ h]
  constructor
  · rintro (⟨done, x, after, rfl, hx, hleft, hafter⟩ | ⟨hbegin, -⟩)
    · obtain ⟨before, between, rfl, hbetween⟩ := (lastState_eq_iff _ hstate done).1 hleft
      cases x with
      | playbackError sourceId error =>
          exact ⟨before, between, after, sourceId, error, by simp, hbetween, hafter⟩
      | _ => exact absurd hx (by simp [Critical.isPlaybackError])
    · exact absurd hbegin hstate
  · rintro ⟨before, between, after, sourceId, error, rfl, hbetween, hafter⟩
    exact Or.inl ⟨before ++ .playbackState state :: between, .playbackError sourceId error, after,
      by simp, rfl, (lastState_eq_iff _ hstate _).2 ⟨before, between, rfl, hbetween⟩, hafter⟩

/-- An error in the state `3`, and a state that is notified behind it. -/
def errorHistory : List (Critical ℕ ℕ ℕ ℕ) :=
  [.playbackState 3, .position 5, .playbackError 1 7, .playbackState 4]

/-- The state at the last error is the earlier one. -/
theorem stateAtLastError_errorHistory :
    (errorHistory.foldl Critical.apply (Observed.init 0 0 0)).stateAtLastError = 3 :=
  (stateAtLastError_eq_iff (by decide) 0 0 errorHistory).2
    ⟨[], [.position 5], [.playbackState 4], 1, 7, rfl, by simp [Critical.isPlaybackState],
      by simp [Critical.isPlaybackError]⟩

end Feed
