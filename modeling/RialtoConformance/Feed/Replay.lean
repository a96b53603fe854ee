/-
**Replaying a stream for ever.**

The two feeds of the sinks push the frames of a stream one after the other, and begin again when
they have come to its end; every round of the stream is stamped later than the one before by the
sum of the durations.  They have the same `pushNextFrame`.

Timestamps are integers here, as the sum of a stream played without end leaves any fixed range.  The
code computes them in 64 bits, and that is a machine of its own; as long as everything stays in
range the two push the same buffers.

Main definitions:

* `Feed.SinkFeed`, `Feed.SinkFeed.pushNextFrame` — what the feeds have in common;
* `Feed.MseSinkFeed.construct`, `Feed.MseVideoSinkFeed.construct` — the feed of an audio and of a
  video stream;
* `Feed.replay`, `Feed.replay64` — a feed as a machine, with integers and in 64 bits;
* `Feed.Replays` — what is pushed, when its timestamps increase, and that the code pushes it.

Main results:

* `Feed.totalDurationNs_eq_sum` — the sum of the positive durations;
* `Feed.at_pushNextFrame`, `Feed.run_replay` — one push, and a run of them;
* `Feed.pts_toInt`, `Feed.run_replay64` — **in range the code pushes the same buffers**;
* `Feed.replays` — **both feeds replay their streams**.
-/
import RialtoConformance.Lib.Cycle
import RialtoConformance.Lib.Runs
import RialtoConformance.Feed.Client

set_option relaxedAutoImplicit false
set_option autoImplicit false

namespace Feed

open Runs Cycle

/-! ### The feeds -/

/-- `H264AvcElementaryStream`, without what the caps are made from. -/
structure H264AvcElementaryStream where
  frames : List EncodedFrame

/-- The sum of the durations that are positive. -/
def totalDurationNs (frames : List EncodedFrame) : ℤ :=
  frames.foldl (fun total frame =>
    if 0 < frame.duration then total + frame.duration.toInt else total) 0

/-- `AacElementaryStream::totalDurationNs`. -/
def AacElementaryStream.totalDurationNs (stream : AacElementaryStream) : ℤ :=
  Feed.totalDurationNs stream.frames

/-- `H264AvcElementaryStream::totalDurationNs`. -/
def H264AvcElementaryStream.totalDurationNs (stream : H264AvcElementaryStream) : ℤ :=
  Feed.totalDurationNs stream.frames

/-- A feed whose elements have been created. -/
structure SinkFeed where
  frames : List EncodedFrame
  nextFrame : ℕ
  /-- Times the frame list has been replayed. -/
  loopCount : ℕ
  streamDurationNs : ℤ
  eosSignalled : Bool

/-- A buffer that has been pushed. -/
structure PushedBuffer where
  data : List UInt8
  pts : ℤ
  duration : Int64
  deriving DecidableEq

def SinkFeed.construct (frames : List EncodedFrame) (streamDurationNs : ℤ) : SinkFeed :=
  ⟨frames, 0, 0, streamDurationNs, false⟩

/-- The frame list is begun again when it has come to its end. -/
def SinkFeed.wrap (feed : SinkFeed) : SinkFeed :=
  if feed.nextFrame ≥ feed.frames.length then
    { feed with nextFrame := 0, loopCount := feed.loopCount + 1 }
  else feed

/-- `pushNextFrame`: the feed, and the buffer pushed. -/
def SinkFeed.pushNextFrame (feed : SinkFeed) : SinkFeed × Option PushedBuffer :=
  if feed.eosSignalled || feed.frames.isEmpty then (feed, none)
  else
    let feed := feed.wrap
    match feed.frames[feed.nextFrame]? with
    | none => (feed, none)
    | some frame =>
        let pts := frame.timeStamp.toInt + feed.loopCount * feed.streamDurationNs
        ({ feed with nextFrame := feed.nextFrame + 1 }, some ⟨frame.data, pts, frame.duration⟩)

/-- `signalEos`. -/
def SinkFeed.signalEos (feed : SinkFeed) : SinkFeed := { feed with eosSignalled := true }

/-- `MseSinkFeed::MseSinkFeed`. -/
def MseSinkFeed.construct (stream : AacElementaryStream) : SinkFeed :=
  SinkFeed.construct stream.frames stream.totalDurationNs

/-- `MseSinkFeed::pushNextFrame`. -/
def MseSinkFeed.pushNextFrame : SinkFeed → SinkFeed × Option PushedBuffer := SinkFeed.pushNextFrame

/-- `MseVideoSinkFeed::MseVideoSinkFeed`. -/
def MseVideoSinkFeed.construct (stream : H264AvcElementaryStream) : SinkFeed :=
  SinkFeed.construct stream.frames stream.totalDurationNs

/-- `MseVideoSinkFeed::pushNextFrame`. -/
def MseVideoSinkFeed.pushNextFrame : SinkFeed → SinkFeed × Option PushedBuffer :=
  SinkFeed.pushNextFrame

/-! ### Durations -/

/-- The sum of the positive durations. -/
theorem totalDurationNs_eq_sum (frames : List EncodedFrame) :
    totalDurationNs frames = (frames.map fun frame => max frame.duration.toInt 0).sum := by
  have hfold : ∀ (frames : List EncodedFrame) (total : ℤ), frames.foldl (fun total frame =>
      if 0 < frame.duration then total + frame.duration.toInt else total) total =
        total + (frames.map fun frame => max frame.duration.toInt 0).sum := by
    intro frames
    induction frames with
    | nil => intro total; exact (add_zero total).symm
    | cons frame frames ih =>
        intro total
        rw [List.foldl_cons, ih, List.map_cons, List.sum_cons]
        split_ifs with hpos
        · have : 0 < frame.duration.toInt := Int64.lt_iff_toInt_lt.1 hpos
          omega
        · have : ¬ 0 < frame.duration.toInt := fun h => hpos (Int64.lt_iff_toInt_lt.2 h)
          omega
  exact (hfold frames 0).trans (zero_add _)

/-! ### The arithmetic of the code -/

def InInt64 (x : ℤ) : Prop := -9223372036854775808 ≤ x ∧ x ≤ 9223372036854775807

theorem bmod_of_range {x : ℤ} (h : InInt64 x) : x.bmod (2 ^ 64) = x := by
  obtain ⟨hlo, hhi⟩ := h
  exact Int.bmod_eq_of_le (by omega) (by omega)

/-- The sum of the durations as the code computes it. -/
def totalDurationNs64 (frames : List EncodedFrame) : Int64 :=
  frames.foldl (fun total frame =>
    if 0 < frame.duration then total + frame.duration else total) 0

/-- A feed as the code has it, whose stream lasts a number of 64 bits. -/
structure SinkFeed64 where
  frames : List EncodedFrame
  nextFrame : ℕ
  loopCount : ℕ
  streamDurationNs : Int64
  eosSignalled : Bool

structure PushedBuffer64 where
  data : List UInt8
  pts : Int64
  duration : Int64

def SinkFeed64.construct (frames : List EncodedFrame) : SinkFeed64 :=
  ⟨frames, 0, 0, totalDurationNs64 frames, false⟩

/-- `pushNextFrame`, in the arithmetic of the code. -/
def SinkFeed64.pushNextFrame (feed : SinkFeed64) : SinkFeed64 × Option PushedBuffer64 :=
  if feed.eosSignalled || feed.frames.isEmpty then (feed, none)
  else
    let feed :=
      if feed.nextFrame ≥ feed.frames.length then
        { feed with nextFrame := 0, loopCount := feed.loopCount + 1 }
      else feed
    match feed.frames[feed.nextFrame]? with
    | none => (feed, none)
    | some frame =>
        let pts := frame.timeStamp + Int64.ofNat feed.loopCount * feed.streamDurationNs
        ({ feed with nextFrame := feed.nextFrame + 1 }, some ⟨frame.data, pts, frame.duration⟩)

/-- The buffer that the code has pushed, with its timestamp as a number. -/
def PushedBuffer64.toInt (buffer : PushedBuffer64) : PushedBuffer :=
  ⟨buffer.data, buffer.pts.toInt, buffer.duration⟩

theorem le_foldl_duration : ∀ (frames : List EncodedFrame) (total : ℤ),
    total ≤ frames.foldl (fun total frame =>
      if 0 < frame.duration then total + frame.duration.toInt else total) total := by
  intro frames
  induction frames with
  | nil => intro total; exact le_rfl
  | cons frame frames ih =>
      intro total
      rw [List.foldl_cons]
      refine le_trans ?_ (ih _)
      split_ifs with hpos
      · have : 0 < frame.duration.toInt := Int64.lt_iff_toInt_lt.1 hpos
        omega
      · exact le_rfl

theorem foldl_duration_toInt : ∀ (frames : List EncodedFrame) (total : Int64),
    0 ≤ total.toInt → frames.foldl (fun total frame =>
      if 0 < frame.duration then total + frame.duration.toInt else total) total.toInt ≤
        9223372036854775807 →
      (frames.foldl (fun total frame =>
        if 0 < frame.duration then total + frame.duration else total) total).toInt =
      frames.foldl (fun total frame =>
        if 0 < frame.duration then total + frame.duration.toInt else total) total.toInt := by
  intro frames
  induction frames with
  | nil => intro total _ _; rfl
  | cons frame frames ih =>
      intro total hnonneg hle
      rw [List.foldl_cons, List.foldl_cons]
      rw [List.foldl_cons] at hle
      by_cases hpos : 0 < frame.duration
      · rw [if_pos hpos] at hle ⊢
        rw [if_pos hpos]
        have hduration : 0 < frame.duration.toInt := Int64.lt_iff_toInt_lt.1 hpos
        have hsum : (total + frame.duration).toInt = total.toInt + frame.duration.toInt := by
          rw [Int64.toInt_add]
          have := (le_foldl_duration frames _).trans hle
          exact bmod_of_range ⟨by omega, this⟩
        rw [← hsum] at hle ⊢
        exact ih _ (by omega) hle
      · rw [if_neg hpos] at hle ⊢
        rw [if_neg hpos]
        exact ih _ hnonneg hle

/-- **In range the code computes the same timestamps.** -/
theorem pts_toInt {frames : List EncodedFrame} {frame : EncodedFrame} {loopCount : ℕ}
    (htotal : totalDurationNs frames ≤ 9223372036854775807)
    (hpts : InInt64 (frame.timeStamp.toInt + loopCount * totalDurationNs frames)) :
    (frame.timeStamp + Int64.ofNat loopCount * totalDurationNs64 frames).toInt =
      frame.timeStamp.toInt + loopCount * totalDurationNs frames := by
  have hsum : (totalDurationNs64 frames).toInt = totalDurationNs frames :=
    foldl_duration_toInt frames 0 (by decide) htotal
  have hcount : (Int64.ofNat loopCount).toInt = (loopCount : ℤ).bmod (2 ^ 64) :=
    Int64.toInt_ofNat'
  rw [Int64.toInt_add, Int64.toInt_mul, hsum, hcount, Int.bmod_mul_bmod, Int.add_bmod_bmod]
  exact bmod_of_range hpts

/-! ### Pushing frame after frame -/

/-- What appsrc asks for, and the end of the stream. -/
inductive FeedCall
  | needData
  | signalEos
  deriving DecidableEq

/-- **A feed as a machine**, which pushes with `push` when data is needed. -/
def replay (push : SinkFeed → SinkFeed × Option PushedBuffer) :
    Machine SinkFeed FeedCall PushedBuffer where
  step feed
    | .needData => some ((push feed).1, (push feed).2.toList)
    | .signalEos => some (feed.signalEos, [])

/-- The feed in the arithmetic of the code, as a machine. -/
def replay64 : Machine SinkFeed64 FeedCall PushedBuffer64 where
  step feed
    | .needData => some (feed.pushNextFrame.1, feed.pushNextFrame.2.toList)
    | .signalEos => some ({ feed with eosSignalled := true }, [])

/-- What push `k` is to push. -/
def pushed (frames : List EncodedFrame) (streamDurationNs : ℤ) (k : ℕ) : Option PushedBuffer :=
  frames[k % frames.length]?.map fun frame =>
    ⟨frame.data, frame.timeStamp.toInt + (k / frames.length : ℕ) * streamDurationNs,
      frame.duration⟩

/-- The requests for data before the end of the stream is signalled. -/
def needsBeforeEos (calls : List FeedCall) : ℕ := (calls.takeWhile (· = .needData)).length

/-- The feed stands before push `k`. -/
structure At (frames : List EncodedFrame) (streamDurationNs : ℤ) (k : ℕ) (feed : SinkFeed) :
    Prop where
  frames_eq : feed.frames = frames
  duration_eq : feed.streamDurationNs = streamDurationNs
  running : feed.eosSignalled = false
  count : frames.length * feed.loopCount + feed.nextFrame = k
  le : feed.nextFrame ≤ frames.length

theorem at_wrap {frames : List EncodedFrame} {streamDurationNs : ℤ} {k : ℕ} {feed : SinkFeed}
    (hframes : frames ≠ []) (h : At frames streamDurationNs k feed) :
    At frames streamDurationNs k feed.wrap ∧ feed.wrap.nextFrame < frames.length := by
  obtain ⟨rfl, hduration, hrunning, hcount, hle⟩ := h
  have hlength : 0 < feed.frames.length := List.length_pos_of_ne_nil hframes
  rw [SinkFeed.wrap]
  split_ifs with hend
  · obtain hnext : feed.nextFrame = feed.frames.length := le_antisymm hle hend
    refine ⟨⟨rfl, hduration, hrunning, ?_, Nat.zero_le _⟩, hlength⟩
    rw [← hcount, hnext, Nat.mul_succ]
    rfl
  · exact ⟨⟨rfl, hduration, hrunning, hcount, hle⟩, Nat.lt_of_not_le hend⟩

/-- **One push.** -/
theorem at_pushNextFrame {frames : List EncodedFrame} {streamDurationNs : ℤ} {k : ℕ}
    {feed : SinkFeed} (hframes : frames ≠ []) (h : At frames streamDurationNs k feed) :
    At frames streamDurationNs (k + 1) feed.pushNextFrame.1 ∧
      feed.pushNextFrame.2 = pushed frames streamDurationNs k := by
  obtain ⟨hwrap, hlt⟩ := at_wrap hframes h
  have hgo : (feed.eosSignalled || feed.frames.isEmpty) = false := by
    rw [h.running, h.frames_eq, Bool.false_or, List.isEmpty_eq_false_iff]
    exact hframes
  rw [SinkFeed.pushNextFrame, hgo]
  obtain ⟨hframes_eq, hduration, hrunning, hcount, -⟩ := hwrap
  set wrapped := feed.wrap
  obtain ⟨frame, hframe⟩ : ∃ frame, frames[wrapped.nextFrame]? = some frame :=
    ⟨_, List.getElem?_eq_getElem hlt⟩
  have hlength : 0 < frames.length := by omega
  have hmod : k % frames.length = wrapped.nextFrame := by
    rw [← hcount, Nat.mul_add_mod, Nat.mod_eq_of_lt hlt]
  have hdiv : k / frames.length = wrapped.loopCount := by
    rw [← hcount, Nat.mul_add_div hlength, Nat.div_eq_of_lt hlt, Nat.add_zero]
  simp only [Bool.false_eq_true, if_false, hframes_eq, hframe, pushed, hmod, hdiv, hduration,
    Option.map_some]
  refine ⟨⟨rfl, rfl, hrunning, ?_, hlt⟩, trivial⟩
  rw [← hcount]
  rfl

theorem run_replay_of_eos : ∀ {calls : List FeedCall} {feed : SinkFeed},
    feed.eosSignalled = true →
      (replay SinkFeed.pushNextFrame).run feed calls = some (feed, []) := by
  intro calls
  induction calls with
  | nil => intro feed _; rfl
  | cons call calls ih =>
      intro feed heos
      refine Machine.run_cons.2 ⟨feed, [], [], ?_, ih heos, rfl⟩
      cases call with
      | needData => simp only [replay, SinkFeed.pushNextFrame, heos, Bool.true_or, if_true]; rfl
      | signalEos =>
          have hsame : feed.signalEos = feed := by
            rw [SinkFeed.signalEos, ← heos]
          simp only [replay, hsame]

/-- **A run of pushes.** -/
theorem run_replay {frames : List EncodedFrame} {streamDurationNs : ℤ} (hframes : frames ≠ []) :
    ∀ {calls : List FeedCall} {k : ℕ} {feed : SinkFeed}, At frames streamDurationNs k feed →
      ∃ feed' buffers, (replay SinkFeed.pushNextFrame).run feed calls = some (feed', buffers) ∧
        buffers.map some =
          (List.range' k (needsBeforeEos calls)).map (pushed frames streamDurationNs) := by
  intro calls
  induction calls with
  | nil => intro k feed _; exact ⟨feed, [], rfl, rfl⟩
  | cons call calls ih =>
      intro k feed hat
      cases call with
      | needData =>
          obtain ⟨hnext, hpush⟩ := at_pushNextFrame hframes hat
          obtain ⟨feed', buffers, hrun, hbuffers⟩ := ih hnext
          refine ⟨feed', feed.pushNextFrame.2.toList ++ buffers,
            Machine.run_cons.2 ⟨_, _, _, rfl, hrun, rfl⟩, ?_⟩
          have hneeds : needsBeforeEos (.needData :: calls) = needsBeforeEos calls + 1 := by
            simp [needsBeforeEos]
          have hlt : k % frames.length < frames.length :=
            Nat.mod_lt _ (List.length_pos_of_ne_nil hframes)
          rw [hneeds, List.range'_succ, List.map_cons, ← hbuffers, hpush, pushed,
            List.getElem?_eq_getElem hlt]
          rfl
      | signalEos =>
          refine ⟨feed.signalEos, [], Machine.run_cons.2 ⟨_, _, _, rfl, run_replay_of_eos rfl, rfl⟩,
            ?_⟩
          simp [needsBeforeEos]

/-! ### The pushes of the code -/

/-- What the code has in the place of a feed. -/
def SinkFeed.code (feed : SinkFeed) : SinkFeed64 :=
  ⟨feed.frames, feed.nextFrame, feed.loopCount, totalDurationNs64 feed.frames, feed.eosSignalled⟩

/-- The integer feed of a stream knows how long the stream lasts. -/
def SinkFeed.Timed (feed : SinkFeed) : Prop :=
  feed.streamDurationNs = totalDurationNs feed.frames ∧
    totalDurationNs feed.frames ≤ 9223372036854775807

/-- **One push of the code.** -/
theorem code_pushNextFrame {feed : SinkFeed} (htimed : feed.Timed)
    (hrange : ∀ buffer ∈ feed.pushNextFrame.2, InInt64 buffer.pts) :
    feed.pushNextFrame.1.Timed ∧ feed.code.pushNextFrame.1 = feed.pushNextFrame.1.code ∧
      feed.code.pushNextFrame.2.map PushedBuffer64.toInt = feed.pushNextFrame.2 := by
  have hwrap : (if feed.code.nextFrame ≥ feed.code.frames.length then
      { feed.code with nextFrame := 0, loopCount := feed.code.loopCount + 1 } else feed.code) =
        feed.wrap.code ∧ feed.wrap.Timed := by
    rw [SinkFeed.wrap]
    by_cases hend : feed.nextFrame ≥ feed.frames.length
    · rw [if_pos hend]
      exact ⟨if_pos hend, htimed⟩
    · rw [if_neg hend]
      exact ⟨if_neg hend, htimed⟩
  obtain ⟨hcode, hwrapped⟩ := hwrap
  have hstop : (feed.code.eosSignalled || feed.code.frames.isEmpty) =
      (feed.eosSignalled || feed.frames.isEmpty) := rfl
  rw [SinkFeed64.pushNextFrame, hcode, hstop]
  rw [SinkFeed.pushNextFrame] at hrange ⊢
  cases hquiet : feed.eosSignalled || feed.frames.isEmpty with
  | true => exact ⟨htimed, rfl, rfl⟩
  | false =>
      rw [hquiet] at hrange
      set wrapped := feed.wrap
      have hframes : wrapped.code.frames[wrapped.code.nextFrame]? =
          wrapped.frames[wrapped.nextFrame]? := rfl
      simp only [Bool.false_eq_true, if_false, hframes] at hrange ⊢
      cases hframe : wrapped.frames[wrapped.nextFrame]? with
      | none => exact ⟨hwrapped, rfl, rfl⟩
      | some frame =>
          refine ⟨hwrapped, rfl, ?_⟩
          rw [hframe] at hrange
          have hpts := hrange _ rfl
          rw [hwrapped.1] at hpts
          rw [hwrapped.1]
          exact congrArg (fun pts => some (PushedBuffer.mk frame.data pts frame.duration))
            (pts_toInt hwrapped.2 hpts)

/-- **A run of the code**: in range it pushes the same buffers. -/
theorem run_replay64 : ∀ {calls : List FeedCall} {feed feed' : SinkFeed}
    {buffers : List PushedBuffer}, feed.Timed →
      (replay SinkFeed.pushNextFrame).run feed calls = some (feed', buffers) →
        (∀ buffer ∈ buffers, InInt64 buffer.pts) →
          ∃ pushed, replay64.run feed.code calls = some (feed'.code, pushed) ∧
            pushed.map PushedBuffer64.toInt = buffers := by
  intro calls
  induction calls with
  | nil =>
      intro feed feed' buffers _ hrun _
      obtain ⟨rfl, rfl⟩ := Prod.mk.inj (Option.some.inj hrun)
      exact ⟨[], rfl, rfl⟩
  | cons call calls ih =>
      intro feed feed' buffers htimed hrun hrange
      obtain ⟨next, first, rest, hstep, hrest, rfl⟩ := Machine.run_cons.1 hrun
      have hrangeRest := fun buffer hmem => hrange buffer (List.mem_append_right first hmem)
      cases call with
      | needData =>
          obtain ⟨rfl, rfl⟩ := Prod.mk.inj (Option.some.inj hstep)
          have hrangeFirst : ∀ buffer ∈ feed.pushNextFrame.2, InInt64 buffer.pts :=
            fun buffer hmem => hrange buffer
              (List.mem_append_left _ (Option.mem_toList.2 hmem))
          obtain ⟨hnext, hfeed, hbuffer⟩ := code_pushNextFrame htimed hrangeFirst
          obtain ⟨pushed, hcode, hpushed⟩ := ih hnext hrest hrangeRest
          refine ⟨feed.code.pushNextFrame.2.toList ++ pushed,
            Machine.run_cons.2 ⟨_, _, _, rfl, ?_, rfl⟩, ?_⟩
          · rw [hfeed]
            exact hcode
          · rw [List.map_append, hpushed, ← hbuffer, Option.toList_map]
      | signalEos =>
          obtain ⟨rfl, rfl⟩ := Prod.mk.inj (Option.some.inj hstep)
          have htimed' : feed.signalEos.Timed := htimed
          obtain ⟨pushed, hcode, hpushed⟩ := ih htimed' hrest hrangeRest
          exact ⟨pushed, Machine.run_cons.2 ⟨_, _, _, rfl, hcode, rfl⟩, hpushed⟩

/-! ### Increasing timestamps -/

/-- Frame `i` is stamped. -/
def stamp (frames : List EncodedFrame) (i : ℕ) : ℤ :=
  (frames[i]?.map fun frame => frame.timeStamp.toInt).getD 0

/-- The stamps increase along the list, and the first one of the next round is later than the
last. -/
def StampsIncrease (frames : List EncodedFrame) (streamDurationNs : ℤ) : Prop :=
  frames.Pairwise (fun a b => a.timeStamp.toInt < b.timeStamp.toInt) ∧
    ∀ first ∈ frames.head?, ∀ last ∈ frames.getLast?,
      last.timeStamp.toInt - first.timeStamp.toInt < streamDurationNs

/-- **A stream is replayed**: push `k` before the end of the stream sends frame `k % n`, stamped
`k / n` durations later; the stamps increase for ever exactly when the stream allows it; and as long
as the stamps are of 64 bits, this is what the code pushes. -/
def Replays (push : SinkFeed → SinkFeed × Option PushedBuffer) (feed : SinkFeed)
    (frames : List EncodedFrame) (streamDurationNs : ℤ) : Prop :=
  (∀ calls, ∃ feed' buffers, (replay push).run feed calls = some (feed', buffers) ∧
    buffers.map some =
      (List.range (needsBeforeEos calls)).map (pushed frames streamDurationNs)) ∧
    ((∀ calls feed' buffers, (replay push).run feed calls = some (feed', buffers) →
      (buffers.map PushedBuffer.pts).Pairwise (· < ·)) ↔ StampsIncrease frames streamDurationNs) ∧
    (streamDurationNs ≤ 9223372036854775807 → ∀ calls feed' buffers,
      (replay push).run feed calls = some (feed', buffers) →
        (∀ buffer ∈ buffers, InInt64 buffer.pts) →
          ∃ pushed, replay64.run (SinkFeed64.construct frames) calls =
            some (feed'.code, pushed) ∧ pushed.map PushedBuffer64.toInt = buffers)

theorem pushed_pts {frames : List EncodedFrame} {streamDurationNs : ℤ} {k : ℕ}
    {buffer : PushedBuffer} (h : pushed frames streamDurationNs k = some buffer) :
    buffer.pts = cycle frames.length (stamp frames) streamDurationNs k := by
  rw [pushed, Option.map_eq_some_iff] at h
  obtain ⟨frame, hframe, rfl⟩ := h
  rw [cycle, stamp, hframe, nsmul_eq_mul]
  rfl

theorem stampsIncrease_iff {frames : List EncodedFrame} {streamDurationNs : ℤ}
    (hframes : frames ≠ []) : StampsIncrease frames streamDurationNs ↔
      StrictMono (cycle frames.length (stamp frames) streamDurationNs) := by
  have hlength : 0 < frames.length := List.length_pos_of_ne_nil hframes
  have hstamp : ∀ {i frame}, frames[i]? = some frame →
      stamp frames i = frame.timeStamp.toInt := by
    intro i frame hframe
    rw [stamp, hframe]
    rfl
  rw [strictMono_cycle hlength, StampsIncrease]
  refine and_congr ?_ ?_
  · rw [← List.isChain_iff_pairwise, List.isChain_iff_getElem]
    refine forall_congr' fun i => forall_congr' fun hi => ?_
    rw [hstamp (List.getElem?_eq_getElem (by omega)), hstamp (List.getElem?_eq_getElem hi)]
  · rw [List.head?_eq_getElem?, List.getLast?_eq_getElem?, List.getElem?_eq_getElem hlength,
      List.getElem?_eq_getElem (by omega : frames.length - 1 < frames.length)]
    rw [hstamp (List.getElem?_eq_getElem hlength),
      hstamp (List.getElem?_eq_getElem (by omega : frames.length - 1 < frames.length))]
    simp only [Option.mem_def, Option.some.injEq, forall_eq']
    exact sub_lt_iff_lt_add'

theorem stamps_of_pushed {frames : List EncodedFrame} {streamDurationNs : ℤ} {count : ℕ}
    {buffers : List PushedBuffer}
    (hbuffers : buffers.map some = (List.range count).map (pushed frames streamDurationNs)) :
    buffers.map PushedBuffer.pts =
      (List.range count).map (cycle frames.length (stamp frames) streamDurationNs) := by
  have hlen := congrArg List.length hbuffers
  rw [List.length_map, List.length_map] at hlen
  refine List.ext_getElem (by rw [List.length_map, List.length_map, hlen]) ?_
  intro k hk hk'
  rw [List.length_map] at hk
  have hget := congrArg (fun l => l[k]?) hbuffers
  simp only [List.getElem?_map, List.getElem?_eq_getElem hk, Option.map_some] at hget
  rw [List.getElem?_eq_getElem (by omega), Option.map_some, Option.some.injEq,
    List.getElem_range] at hget
  rw [List.getElem_map, List.getElem_map, List.getElem_range]
  exact pushed_pts hget.symm

/-- **The feeds replay their streams.** -/
theorem replays_construct {frames : List EncodedFrame} (hframes : frames ≠ []) :
    Replays SinkFeed.pushNextFrame (SinkFeed.construct frames (totalDurationNs frames)) frames
      (totalDurationNs frames) := by
  set streamDurationNs := totalDurationNs frames with htotal
  have hstart : At frames streamDurationNs 0 (SinkFeed.construct frames streamDurationNs) :=
    ⟨rfl, rfl, rfl, rfl, Nat.zero_le _⟩
  have hruns : ∀ calls, ∃ feed' buffers, (replay SinkFeed.pushNextFrame).run
      (SinkFeed.construct frames streamDurationNs) calls = some (feed', buffers) ∧
        buffers.map some =
          (List.range (needsBeforeEos calls)).map (pushed frames streamDurationNs) := by
    intro calls
    rw [List.range_eq_range']
    exact run_replay hframes hstart
  refine ⟨hruns, ?_, fun hle calls feed' buffers hrun hrange =>
    run_replay64 ⟨htotal, hle⟩ hrun hrange⟩
  rw [stampsIncrease_iff hframes]
  constructor
  · intro hall
    refine strictMono_nat_of_lt_succ fun k => ?_
    obtain ⟨feed', buffers, hrun, hbuffers⟩ := hruns (List.replicate (k + 2) .needData)
    have hpairwise := hall _ _ _ hrun
    rw [stamps_of_pushed hbuffers] at hpairwise
    have hneeds : needsBeforeEos (List.replicate (k + 2) .needData) = k + 2 := by
      simp [needsBeforeEos]
    rw [hneeds, List.pairwise_iff_getElem] at hpairwise
    have h := hpairwise k (k + 1) (by simp) (by simp) (Nat.lt_succ_self k)
    simpa using h
  · intro hmono calls feed' buffers hrun
    obtain ⟨feed'', buffers', hrun', hbuffers⟩ := hruns calls
    obtain ⟨-, rfl⟩ := Prod.mk.inj (Option.some.inj (hrun.symm.trans hrun'))
    rw [stamps_of_pushed hbuffers, List.pairwise_map]
    exact List.pairwise_lt_range.imp fun h => hmono h

/-- **Both feeds replay their streams**, which last the sum of their positive durations. -/
theorem replays (audio : AacElementaryStream) (video : H264AvcElementaryStream)
    (haudio : audio.frames ≠ []) (hvideo : video.frames ≠ []) :
    Replays MseSinkFeed.pushNextFrame (MseSinkFeed.construct audio) audio.frames
      (audio.frames.map fun frame => max frame.duration.toInt 0).sum ∧
      Replays MseVideoSinkFeed.pushNextFrame (MseVideoSinkFeed.construct video) video.frames
        (video.frames.map fun frame => max frame.duration.toInt 0).sum := by
  rw [← totalDurationNs_eq_sum, ← totalDurationNs_eq_sum]
  exact ⟨replays_construct haudio, replays_construct hvideo⟩

/-- Two audio frames, and four video frames that last for a while, no time, less than no time, and
for a while: what the third request for data pushes, and what the fifth. -/
theorem replays_short :
    Replays MseSinkFeed.pushNextFrame
      (MseSinkFeed.construct ⟨[⟨[0], 0, 21333333⟩, ⟨[1], 21333333, 21333333⟩], 48000, 2⟩)
      [⟨[0], 0, 21333333⟩, ⟨[1], 21333333, 21333333⟩] 42666666 ∧
      Replays MseVideoSinkFeed.pushNextFrame (MseVideoSinkFeed.construct
        ⟨[⟨[0], 0, 40⟩, ⟨[1], 40, 0⟩, ⟨[2], 50, -7⟩, ⟨[3], 60, 30⟩]⟩)
        [⟨[0], 0, 40⟩, ⟨[1], 40, 0⟩, ⟨[2], 50, -7⟩, ⟨[3], 60, 30⟩] 70 ∧
      pushed [⟨[0], 0, 40⟩, ⟨[1], 40, 0⟩, ⟨[2], 50, -7⟩, ⟨[3], 60, 30⟩] 70 4 =
        some ⟨[0], 70, 40⟩ := by
  have h := replays ⟨[⟨[0], 0, 21333333⟩, ⟨[1], 21333333, 21333333⟩], 48000, 2⟩
    ⟨[⟨[0], 0, 40⟩, ⟨[1], 40, 0⟩, ⟨[2], 50, -7⟩, ⟨[3], 60, 30⟩]⟩ (by simp) (by simp)
  exact ⟨h.1, h.2, rfl⟩

end Feed
