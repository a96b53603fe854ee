/-
**The feeding client.**

`FeedingMediaPipelineClient` answers the server's need-data requests from the streams registered
with it.  Its state is guarded by one mutex, and a request is answered in several sections that
hold it, with the calls to the pipeline in between.  Each section is a function on the state here;
what the callback keeps in its local variables from one section to the next is an `Activity`.

The sizes that the code multiplies are 64-bit integers and wrap.  The index of the frame a segment
was built from is kept next to the segment.

Main definitions:

* `Feed.Client`, `Feed.AppOp` — the state, and the calls of the application;
* `Feed.Client.buildBatch`, `Feed.Client.openRound` — the first section of a request;
* `Feed.Client.noteAnswer`, `Feed.Client.closeRound` — the section behind a call of `addSegment`,
  and the last one;
* `Feed.Activity` — where a callback stands between two sections.

Main results:

* `Feed.apply_feeds_of_not_resets`, `Feed.nextFrame_eq_zero_of_resets` — what a call of the
  application does to a cursor;
* `Feed.buildSegments_frames` — **a batch holds consecutive frames** from the cursor on, as many as
  are left and the limit allows;
* `Feed.buildSegments_sourceId` — all for the source of the request.
-/
import Mathlib.Tactic

set_option relaxedAutoImplicit false
set_option autoImplicit false

namespace Feed

/-! ### Streams and segments -/

/-- `EncodedFrame`. -/
structure EncodedFrame where
  data : List UInt8
  timeStamp : Int64
  duration : Int64
  deriving DecidableEq

/-- `AacElementaryStream`. -/
structure AacElementaryStream where
  frames : List EncodedFrame
  sampleRate : UInt32
  channels : UInt32
  deriving DecidableEq

/-- `MediaSegmentAudio`: what a segment carries. -/
structure MediaSegment where
  sourceId : Int32
  timeStamp : Int64
  duration : Int64
  sampleRate : Int32
  channels : Int32
  dataLength : UInt32
  data : List UInt8
  deriving DecidableEq

/-- A segment of a batch, with the index of the frame it was built from. -/
structure Offer where
  frame : ℕ
  segment : MediaSegment
  deriving DecidableEq

/-- `AddSegmentStatus`. -/
inductive AddSegmentStatus
  | ok
  | noSpace
  | error
  deriving DecidableEq, Repr

/-- `MediaSourceStatus`, as far as the client reports it. -/
inductive MediaSourceStatus
  | ok
  | eos
  deriving DecidableEq, Repr

/-- A need-data request, as it is recorded in the log. -/
structure NeedData where
  sourceId : Int32
  frameCount : UInt64
  requestId : UInt32
  hadShmInfo : Bool
  deriving DecidableEq

/-- A call the client makes on the pipeline, with the answer it gets. -/
inductive PipelineCall
  | addSegment (requestId : UInt32) (offer : Offer) (status : AddSegmentStatus)
  | haveData (status : MediaSourceStatus) (requestId : UInt32)
  deriving DecidableEq

/-! ### The state -/

/-- `SourceFeed`: a stream and the cursor over it. -/
structure SourceFeed where
  stream : AacElementaryStream
  nextFrame : ℕ
  deriving DecidableEq

/-- **The state of a `FeedingMediaPipelineClient`** that the requests read and write. -/
structure Client where
  /-- `m_pipeline` is set. -/
  pipeline : Bool
  feeds : Int32 → Option SourceFeed
  needDataLog : List NeedData
  /-- Sources with an unanswered request. -/
  pendingNeedData : Finset Int32
  overlappingNeedData : Bool
  allSegmentsAccepted : Bool
  starve : Bool
  oversupply : UInt64
  withhold : Bool
  corruptEvery : UInt64
  segmentsOffered : UInt64
  addOk : UInt64
  addNoSpace : UInt64
  addError : UInt64
  /-- The frame rejected with `NO_SPACE`, per source, awaiting a retry. -/
  noSpaceFrame : Int32 → Option ℕ
  noSpaceSegmentAccepted : Bool
  cancelCount : UInt64
  cancelledSources : Finset Int32

def Client.init : Client where
  pipeline := false
  feeds := fun _ => none
  needDataLog := []
  pendingNeedData := ∅
  overlappingNeedData := false
  allSegmentsAccepted := true
  starve := false
  oversupply := 1
  withhold := false
  corruptEvery := 0
  segmentsOffered := 0
  addOk := 0
  addNoSpace := 0
  addError := 0
  noSpaceFrame := fun _ => none
  noSpaceSegmentAccepted := false
  cancelCount := 0
  cancelledSources := ∅

/-! ### Calls of the application -/

/-- `setPipeline`. -/
def Client.setPipeline (c : Client) (pipeline : Bool) : Client := { c with pipeline := pipeline }

/-- `addAudioSource`: register the stream of a source, or register it anew. -/
def Client.addAudioSource (c : Client) (sourceId : Int32) (stream : AacElementaryStream) : Client :=
  { c with feeds := Function.update c.feeds sourceId (some ⟨stream, 0⟩) }

/-- `rewindSource`: nothing happens to a source that is not registered. -/
def Client.rewindSource (c : Client) (sourceId : Int32) : Client :=
  { c with
    feeds := Function.update c.feeds sourceId
      ((c.feeds sourceId).map fun feed => { feed with nextFrame := 0 }) }

/-- `setOversupply`. -/
def Client.setOversupply (c : Client) (multiple : UInt64) : Client :=
  { c with oversupply := if multiple = 0 then 1 else multiple }

/-- `setWithhold`. -/
def Client.setWithhold (c : Client) (withhold : Bool) : Client := { c with withhold := withhold }

/-- `setStarve`. -/
def Client.setStarve (c : Client) (starve : Bool) : Client := { c with starve := starve }

/-- `setCorruptEvery`. -/
def Client.setCorruptEvery (c : Client) (nth : UInt64) : Client := { c with corruptEvery := nth }

/-- The calls of the application. -/
inductive AppOp
  | setPipeline (pipeline : Bool)
  | addAudioSource (sourceId : Int32) (stream : AacElementaryStream)
  | rewindSource (sourceId : Int32)
  | setOversupply (multiple : UInt64)
  | setWithhold (withhold : Bool)
  | setStarve (starve : Bool)
  | setCorruptEvery (nth : UInt64)
  deriving DecidableEq

def AppOp.apply (c : Client) : AppOp → Client
  | .setPipeline pipeline => c.setPipeline pipeline
  | .addAudioSource sourceId stream => c.addAudioSource sourceId stream
  | .rewindSource sourceId => c.rewindSource sourceId
  | .setOversupply multiple => c.setOversupply multiple
  | .setWithhold withhold => c.setWithhold withhold
  | .setStarve starve => c.setStarve starve
  | .setCorruptEvery nth => c.setCorruptEvery nth

/-- The calls that set the cursor of a source back. -/
def AppOp.Resets (s : Int32) : AppOp → Prop
  | .addAudioSource sourceId _ => sourceId = s
  | .rewindSource sourceId => sourceId = s
  | _ => False

instance (s : Int32) (op : AppOp) : Decidable (op.Resets s) := by
  cases op <;> simp only [AppOp.Resets] <;> infer_instance

/-- A call that does not set a cursor back leaves it where it is. -/
theorem apply_feeds_of_not_resets {c : Client} {op : AppOp} {s : Int32} (h : ¬ op.Resets s) :
    (op.apply c).feeds s = c.feeds s := by
  cases op with
  | addAudioSource sourceId stream => exact Function.update_of_ne (Ne.symm h) _ _
  | rewindSource sourceId => exact Function.update_of_ne (Ne.symm h) _ _
  | _ => rfl

/-- A call that sets a cursor back sets it to the first frame. -/
theorem nextFrame_eq_zero_of_resets {c : Client} {op : AppOp} {s : Int32} (h : op.Resets s)
    {feed : SourceFeed} (hfeed : (op.apply c).feeds s = some feed) : feed.nextFrame = 0 := by
  cases op with
  | addAudioSource sourceId stream =>
      obtain rfl : sourceId = s := h
      simp only [AppOp.apply, Client.addAudioSource, Function.update_self, Option.some.injEq]
        at hfeed
      rw [← hfeed]
  | rewindSource sourceId =>
      obtain rfl : sourceId = s := h
      simp only [AppOp.apply, Client.rewindSource, Function.update_self, Option.map_eq_some_iff]
        at hfeed
      obtain ⟨old, -, rfl⟩ := hfeed
      rfl
  | _ => exact absurd h (by simp [AppOp.Resets])

/-! ### Building a batch -/

/-- The factor by which a request is oversupplied. -/
def Client.multiple (c : Client) : UInt64 := if c.oversupply = 0 then 1 else c.oversupply

/-- How many segments a round may offer: a product of two 64-bit sizes. -/
def Client.offerLimit (c : Client) (frameCount : UInt64) : UInt64 := frameCount * c.multiple

theorem toNat_offerLimit_eq_zero_iff (c : Client) (frameCount : UInt64) :
    (c.offerLimit frameCount).toNat = 0 ↔ 2 ^ 64 ∣ frameCount.toNat * c.multiple.toNat := by
  rw [Client.offerLimit, UInt64.toNat_mul, Nat.dvd_iff_mod_eq_zero]

/-- The segment of a frame, its payload corrupted or not. -/
def segmentOf (sourceId : Int32) (stream : AacElementaryStream) (frame : EncodedFrame)
    (corrupt : Bool) : MediaSegment where
  sourceId := sourceId
  timeStamp := frame.timeStamp
  duration := frame.duration
  sampleRate := stream.sampleRate.toInt32
  channels := stream.channels.toInt32
  dataLength := UInt32.ofNat frame.data.length
  data := if corrupt then List.replicate frame.data.length 0xA5 else frame.data

/-- The loop that builds a batch from the frames left, the first of which is `idx`, with room for
`room` more segments: the segments, and the counter of segments offered.  Every `corruptEvery`-th
segment offered is corrupted. -/
def buildSegments (sourceId : Int32) (stream : AacElementaryStream) (corruptEvery : UInt64) :
    List EncodedFrame → ℕ → ℕ → UInt64 → List Offer × UInt64
  | [], _, _, segmentsOffered => ([], segmentsOffered)
  | _ :: _, _, 0, segmentsOffered => ([], segmentsOffered)
  | frame :: frames, idx, room + 1, segmentsOffered =>
      let segmentsOffered := segmentsOffered + 1
      let corrupt := corruptEvery ≠ 0 && segmentsOffered % corruptEvery = 0
      let rest := buildSegments sourceId stream corruptEvery frames (idx + 1) room segmentsOffered
      (⟨idx, segmentOf sourceId stream frame corrupt⟩ :: rest.1, rest.2)

/-- A batch: where it starts and its segments. -/
structure Batch where
  firstFrame : ℕ
  offers : List Offer
  deriving DecidableEq

/-- The batch of a request, if there is a pipeline and a stream to answer it from, and the counter
of segments offered. -/
def Client.buildBatch (c : Client) (need : NeedData) : Option Batch × UInt64 :=
  if !c.pipeline then (none, c.segmentsOffered)
  else
    match c.feeds need.sourceId with
    | none => (none, c.segmentsOffered)
    | some feed =>
        let segments := buildSegments need.sourceId feed.stream c.corruptEvery
          (feed.stream.frames.drop feed.nextFrame) feed.nextFrame
          (c.offerLimit need.frameCount).toNat c.segmentsOffered
        (some ⟨feed.nextFrame, segments.1⟩, segments.2)

/-- **A batch holds consecutive frames.** -/
theorem buildSegments_frames {sourceId : Int32} {stream : AacElementaryStream}
    {corruptEvery : UInt64} : ∀ (frames : List EncodedFrame) (idx room : ℕ) (offered : UInt64),
      (buildSegments sourceId stream corruptEvery frames idx room offered).1.map Offer.frame =
        List.range' idx (min frames.length room) := by
  intro frames
  induction frames with
  | nil => intro idx room offered; simp [buildSegments]
  | cons frame frames ih =>
      intro idx room offered
      cases room with
      | zero => simp [buildSegments]
      | succ room =>
          rw [buildSegments, List.map_cons, ih, List.length_cons, Nat.add_min_add_right,
            List.range'_succ]

/-- All segments of a batch are for the source of the request. -/
theorem buildSegments_sourceId {sourceId : Int32} {stream : AacElementaryStream}
    {corruptEvery : UInt64} : ∀ (frames : List EncodedFrame) (idx room : ℕ) (offered : UInt64),
      ∀ o ∈ (buildSegments sourceId stream corruptEvery frames idx room offered).1,
        o.segment.sourceId = sourceId := by
  intro frames
  induction frames with
  | nil => intro idx room offered o ho; simp [buildSegments] at ho
  | cons frame frames ih =>
      intro idx room offered o ho
      cases room with
      | zero => simp [buildSegments] at ho
      | succ room =>
          rw [buildSegments, List.mem_cons] at ho
          rcases ho with rfl | ho
          · rfl
          · exact ih _ _ _ o ho

/-! ### The sections of a request -/

/-- What a callback keeps while it offers its batch. -/
structure Round where
  sourceId : Int32
  requestId : UInt32
  firstFrame : ℕ
  accepted : ℕ
  deriving DecidableEq

/-- **Where the callback thread stands** between two sections. -/
inductive Activity
  /-- No request is being answered. -/
  | idle
  /-- About to answer a request with no segments. -/
  | starving (sourceId : Int32) (requestId : UInt32)
  /-- About to offer the rest of the batch. -/
  | offering (round : Round) (rest : List Offer)
  /-- About to take note of the answer to the segment offered last. -/
  | noting (round : Round) (status : AddSegmentStatus) (rest : List Offer)
  /-- About to call `haveData`. -/
  | answering (status : MediaSourceStatus) (requestId : UInt32)
  deriving DecidableEq

/-- A request is recorded, and flagged if it overlaps an unanswered one for the same source. -/
def Client.recordNeed (c : Client) (need : NeedData) : Client :=
  { c with
    needDataLog := c.needDataLog ++ [need]
    overlappingNeedData := c.overlappingNeedData || decide (need.sourceId ∈ c.pendingNeedData)
    pendingNeedData := insert need.sourceId c.pendingNeedData }

/-- **The first section**: record the request and build the batch.  A request that is withheld, or
that there is no pipeline or no stream for, is left unanswered. -/
def Client.openRound (c : Client) (need : NeedData) : Client × Activity :=
  match c.buildBatch need with
  | (none, _) => (c.recordNeed need, .idle)
  | (some batch, segmentsOffered) =>
      let built := { c.recordNeed need with segmentsOffered := segmentsOffered }
      if c.withhold then (built, .idle)
      else if c.starve then (built, .starving need.sourceId need.requestId)
      else (built, .offering ⟨need.sourceId, need.requestId, batch.firstFrame, 0⟩ batch.offers)

/-- The request of a source is no longer outstanding. -/
def Client.settle (c : Client) (sourceId : Int32) : Client :=
  { c with pendingNeedData := c.pendingNeedData.erase sourceId }

/-- **The section behind a call of `addSegment`.** -/
def Client.noteAnswer (c : Client) (round : Round) : AddSegmentStatus → Client × Round
  | .ok =>
      let counted := { c with addOk := c.addOk + 1 }
      -- a frame rejected for want of space has been accepted now
      let resent := c.noSpaceFrame round.sourceId = some (round.firstFrame + round.accepted)
      (if resent then
        { counted with
          noSpaceSegmentAccepted := true
          noSpaceFrame := Function.update c.noSpaceFrame round.sourceId none }
      else counted, { round with accepted := round.accepted + 1 })
  | .noSpace =>
      ({ c with
        allSegmentsAccepted := false
        addNoSpace := c.addNoSpace + 1
        noSpaceFrame := Function.update c.noSpaceFrame round.sourceId
          (some (round.firstFrame + round.accepted)) }, round)
  | .error => ({ c with allSegmentsAccepted := false, addError := c.addError + 1 }, round)

/-- **The last section**: move the cursor past the segments accepted, and see whether the stream
has come to its end. -/
def Client.closeRound (c : Client) (round : Round) : Client × MediaSourceStatus :=
  match c.feeds round.sourceId with
  | none => (c.settle round.sourceId, .ok)
  | some feed =>
      let nextFrame := feed.nextFrame + round.accepted
      ({ c.settle round.sourceId with
          feeds := Function.update c.feeds round.sourceId (some { feed with nextFrame := nextFrame }) },
        if nextFrame ≥ feed.stream.frames.length then .eos else .ok)

/-- `notifyCancelNeedMediaData`. -/
def Client.notifyCancelNeedMediaData (c : Client) (sourceId : Int32) : Client :=
  { c.settle sourceId with
    cancelCount := c.cancelCount + 1
    cancelledSources := insert sourceId c.cancelledSources }

end Feed
