/-
**The timeline of a replayed stream.**

The generators take a stream out of an encoder and stamp what the encoder has not stamped; the feeds
of the sinks replay it for ever.  What the sink is pushed has no gap and no overlap when each buffer
begins where the one before it ends, in a round of the stream and from one round to the next.

As in the replay, timestamps that are pushed are integers; the stamps of a stream are of 64 bits.

Main definitions:

* `Feed.pullSamples` — the loop of the generators;
* `Feed.generateAacAdtsStream`, `Feed.generateH264AvcStream` — the streams they make;
* `Feed.Abuts`, `Feed.Gapless` — a stream and the pushed buffers without gap and overlap;
* `Feed.Steady` — samples that are stamped right where they are stamped at all.

Main results:

* `Feed.sum_duration_of_abuts` — how long a stream without gaps lasts;
* `Feed.gapless_iff` — **both feeds replay without a gap exactly the streams that have none**, in
  which no duration is negative;
* `Feed.pullSamples_spec` — what the generators make of steady samples;
* `Feed.generated_replay` — **from the encoder to the sink**: push `k` carries sample `k % n` and is
  stamped `k` durations.
-/
import Mathlib.Data.List.ReduceOption
import RialtoConformance.Feed.Replay

set_option relaxedAutoImplicit false
set_option autoImplicit false

namespace Feed

open Runs Cycle

/-! ### Streams without gaps -/

/-- Each frame begins where the one before it ends. -/
def Abuts (frames : List EncodedFrame) : Prop :=
  frames.IsChain fun a b => b.timeStamp.toInt = a.timeStamp.toInt + a.duration.toInt

/-- Each buffer begins where the one before it ends. -/
def Gapless (buffers : List PushedBuffer) : Prop :=
  buffers.IsChain fun a b => b.pts = a.pts + a.duration.toInt

/-- How long frame `i` lasts. -/
def lasting (frames : List EncodedFrame) (i : ℕ) : ℤ :=
  (frames[i]?.map fun frame => frame.duration.toInt).getD 0

theorem stamp_of_getElem? {frames : List EncodedFrame} {i : ℕ} {frame : EncodedFrame}
    (h : frames[i]? = some frame) : stamp frames i = frame.timeStamp.toInt := by
  rw [stamp, h]
  rfl

theorem lasting_of_getElem? {frames : List EncodedFrame} {i : ℕ} {frame : EncodedFrame}
    (h : frames[i]? = some frame) : lasting frames i = frame.duration.toInt := by
  rw [lasting, h]
  rfl

/-- **How long a stream without gaps lasts**: from the beginning of its first frame to the end of
its last. -/
theorem sum_duration_of_abuts : ∀ {frames : List EncodedFrame} {first last : EncodedFrame},
    Abuts frames → frames.head? = some first → frames.getLast? = some last →
      (frames.map fun frame => frame.duration.toInt).sum =
        last.timeStamp.toInt + last.duration.toInt - first.timeStamp.toInt := by
  intro frames
  induction frames with
  | nil =>
      intro first last _ hfirst _
      cases hfirst
  | cons frame frames ih =>
      intro first last habuts hfirst hlast
      obtain rfl := Option.some.inj hfirst
      cases frames with
      | nil =>
          rw [List.getLast?_singleton] at hlast
          obtain rfl := Option.some.inj hlast
          rw [List.map_singleton, List.sum_singleton]
          omega
      | cons next frames =>
          rw [Abuts, List.isChain_cons_cons] at habuts
          rw [List.getLast?_cons_cons] at hlast
          have hrest := ih habuts.2 rfl hlast
          rw [List.map_cons, List.sum_cons, hrest, habuts.1]
          omega

/-- The positive durations make up the whole exactly when no duration is negative. -/
theorem totalDurationNs_eq_iff {frames : List EncodedFrame} :
    totalDurationNs frames = (frames.map fun frame => frame.duration.toInt).sum ↔
      ∀ frame ∈ frames, 0 ≤ frame.duration.toInt := by
  rw [totalDurationNs_eq_sum]
  induction frames with
  | nil => simp
  | cons frame frames ih =>
      have hle : (frames.map fun frame => frame.duration.toInt).sum ≤
          (frames.map fun frame => max frame.duration.toInt 0).sum :=
        List.sum_le_sum fun frame _ => le_max_left _ _
      rw [List.map_cons, List.map_cons, List.sum_cons, List.sum_cons, List.forall_mem_cons, ← ih]
      omega

theorem abuts_and_nonneg_iff {frames : List EncodedFrame} (hframes : frames ≠ []) :
    (Abuts frames ∧ ∀ frame ∈ frames, 0 ≤ frame.duration.toInt) ↔
      ∀ k, cycle frames.length (stamp frames) (totalDurationNs frames) (k + 1) =
        cycle frames.length (stamp frames) (totalDurationNs frames) k +
          lasting frames (k % frames.length) := by
  have hlength : 0 < frames.length := List.length_pos_of_ne_nil hframes
  have hround : Abuts frames ↔ ∀ i, i + 1 < frames.length →
      stamp frames (i + 1) = stamp frames i + lasting frames i := by
    rw [Abuts, List.isChain_iff_getElem]
    refine forall_congr' fun i => forall_congr' fun hi => ?_
    have hget : frames[i]? = some frames[i] := List.getElem?_eq_getElem (by omega)
    rw [stamp_of_getElem? hget, lasting_of_getElem? hget,
      stamp_of_getElem? (List.getElem?_eq_getElem hi)]
  have hhead : frames.head? = some frames[0] := by
    rw [List.head?_eq_getElem?, List.getElem?_eq_getElem hlength]
  have hlast : frames.getLast? = some (frames[frames.length - 1]) := by
    rw [List.getLast?_eq_getElem?, List.getElem?_eq_getElem]
  rw [cycle_succ_iff hlength, ← hround]
  refine and_congr_right fun habuts => ?_
  rw [← totalDurationNs_eq_iff, sum_duration_of_abuts habuts hhead hlast,
    stamp_of_getElem? (List.getElem?_eq_getElem hlength),
    stamp_of_getElem? (List.getElem?_eq_getElem (by omega : frames.length - 1 < frames.length)),
    lasting_of_getElem? (List.getElem?_eq_getElem (by omega : frames.length - 1 < frames.length))]
  omega

/-! ### Replays without gaps -/

theorem pushed_getElem {frames : List EncodedFrame} {streamDurationNs : ℤ} {count k : ℕ}
    {buffers : List PushedBuffer}
    (hbuffers : buffers.map some = (List.range count).map (pushed frames streamDurationNs))
    (hk : k < buffers.length) : pushed frames streamDurationNs k = some buffers[k] := by
  have hlen := congrArg List.length hbuffers
  rw [List.length_map, List.length_map, List.length_range] at hlen
  have hget := congrArg (fun l => l[k]?) hbuffers
  simp only [List.getElem?_map, List.getElem?_eq_getElem hk, Option.map_some] at hget
  rw [List.getElem?_range (by omega), Option.map_some, Option.some.injEq] at hget
  exact hget.symm

theorem pushed_duration {frames : List EncodedFrame} {streamDurationNs : ℤ} {k : ℕ}
    {buffer : PushedBuffer} (h : pushed frames streamDurationNs k = some buffer) :
    buffer.duration.toInt = lasting frames (k % frames.length) := by
  rw [pushed, Option.map_eq_some_iff] at h
  obtain ⟨frame, hframe, rfl⟩ := h
  exact (lasting_of_getElem? hframe).symm

theorem gapless_construct_iff {frames : List EncodedFrame} (hframes : frames ≠ []) :
    (∀ calls feed' buffers, (replay SinkFeed.pushNextFrame).run
      (SinkFeed.construct frames (totalDurationNs frames)) calls = some (feed', buffers) →
        Gapless buffers) ↔ Abuts frames ∧ ∀ frame ∈ frames, 0 ≤ frame.duration.toInt := by
  have hreplays : Replays SinkFeed.pushNextFrame
      (SinkFeed.construct frames (totalDurationNs frames)) frames (totalDurationNs frames) :=
    replays_construct hframes
  have hruns := hreplays.1
  -- the buffers of a run, by their place
  have hgapless : ∀ {count : ℕ} {buffers : List PushedBuffer}, buffers.map some =
      (List.range count).map (pushed frames (totalDurationNs frames)) → (Gapless buffers ↔
        ∀ k, k + 1 < buffers.length →
          cycle frames.length (stamp frames) (totalDurationNs frames) (k + 1) =
            cycle frames.length (stamp frames) (totalDurationNs frames) k +
              lasting frames (k % frames.length)) := by
    intro count buffers hbuffers
    rw [Gapless, List.isChain_iff_getElem]
    refine forall_congr' fun k => forall_congr' fun hk => ?_
    have hthis := pushed_getElem hbuffers (by omega : k < buffers.length)
    rw [pushed_pts (pushed_getElem hbuffers hk), pushed_pts hthis, pushed_duration hthis]
  rw [abuts_and_nonneg_iff hframes]
  constructor
  · intro hall k
    obtain ⟨feed', buffers, hrun, hbuffers⟩ := hruns (List.replicate (k + 2) .needData)
    have hcount : buffers.length = k + 2 := by
      have hneeds : needsBeforeEos (List.replicate (k + 2) .needData) = k + 2 := by
        simp [needsBeforeEos]
      have := congrArg List.length hbuffers
      rwa [List.length_map, List.length_map, List.length_range, hneeds] at this
    exact (hgapless hbuffers).1 (hall _ _ _ hrun) k (by omega)
  · intro hall calls feed' buffers hrun
    obtain ⟨feed'', buffers', hrun', hbuffers⟩ := hruns calls
    obtain ⟨-, rfl⟩ := Prod.mk.inj (Option.some.inj (hrun.symm.trans hrun'))
    exact (hgapless hbuffers).2 fun k _ => hall k

/-- **Both feeds replay without a gap exactly the streams that have none**, in which no duration is
negative. -/
theorem gapless_iff (audio : AacElementaryStream) (video : H264AvcElementaryStream)
    (haudio : audio.frames ≠ []) (hvideo : video.frames ≠ []) :
    ((∀ calls feed' buffers, (replay MseSinkFeed.pushNextFrame).run (MseSinkFeed.construct audio)
      calls = some (feed', buffers) → Gapless buffers) ↔
        Abuts audio.frames ∧ ∀ frame ∈ audio.frames, 0 ≤ frame.duration.toInt) ∧
    ((∀ calls feed' buffers, (replay MseVideoSinkFeed.pushNextFrame).run
      (MseVideoSinkFeed.construct video) calls = some (feed', buffers) → Gapless buffers) ↔
        Abuts video.frames ∧ ∀ frame ∈ video.frames, 0 ≤ frame.duration.toInt) :=
  ⟨gapless_construct_iff haudio, gapless_construct_iff hvideo⟩

/-- An audio stream without a gap, and a video stream with one. -/
theorem gapless_short :
    (∀ calls feed' buffers, (replay MseSinkFeed.pushNextFrame).run
      (MseSinkFeed.construct ⟨[⟨[0], 7, 20⟩, ⟨[1], 27, 20⟩], 48000, 2⟩)
        calls = some (feed', buffers) → Gapless buffers) ∧
      ¬ ∀ calls feed' buffers, (replay MseVideoSinkFeed.pushNextFrame).run
        (MseVideoSinkFeed.construct ⟨[⟨[0], 0, 40⟩, ⟨[1], 50, 40⟩]⟩)
          calls = some (feed', buffers) → Gapless buffers := by
  have h := gapless_iff ⟨[⟨[0], 7, 20⟩, ⟨[1], 27, 20⟩], 48000, 2⟩ ⟨[⟨[0], 0, 40⟩, ⟨[1], 50, 40⟩]⟩
    (by simp) (by simp)
  refine ⟨h.1.2 ⟨?_, ?_⟩, fun hall => ?_⟩
  · rw [Abuts, List.isChain_cons_cons]
    exact ⟨by decide, List.isChain_singleton _⟩
  · decide
  · have habuts := (h.2.1 hall).1
    rw [Abuts, List.isChain_cons_cons] at habuts
    exact absurd habuts.1 (by decide)

/-! ### Taking a stream out of an encoder -/

/-- The buffer of a sample, with its stamps where they are valid. -/
structure EncodedBuffer where
  data : List UInt8
  pts : Option UInt64
  duration : Option UInt64

/-- **The loop of the generators** over the samples pulled; `none` is one without a buffer that can
be mapped. -/
def pullSamples (frameDurationNs : Int64) :
    List (Option EncodedBuffer) → Int64 → List EncodedFrame
  | [], _ => []
  | none :: samples, frameIndex => pullSamples frameDurationNs samples frameIndex
  | some buffer :: samples, frameIndex =>
      { data := buffer.data
        timeStamp := buffer.pts.elim (frameIndex * frameDurationNs) UInt64.toInt64
        duration := buffer.duration.elim frameDurationNs UInt64.toInt64 } ::
        pullSamples frameDurationNs samples (frameIndex + 1)

/-- `GST_SECOND`. -/
def gstSecond : Int64 := 1000000000

def kSampleRate : UInt32 := 48000

def kChannels : UInt32 := 2

def kAacSamplesPerFrame : Int64 := 1024

def kVideoFrameRate : Int64 := 25

/-- How long a frame of the audio stream lasts. -/
def aacFrameDurationNs : Int64 := kAacSamplesPerFrame * gstSecond / Int64.ofNat kSampleRate.toNat

/-- How long a frame of the video stream lasts. -/
def h264FrameDurationNs : Int64 := gstSecond / kVideoFrameRate

/-- `generateAacAdtsStream`, with what the encoder delivers; nothing where it does not run. -/
def generateAacAdtsStream (pulled : Option (List (Option EncodedBuffer))) : AacElementaryStream :=
  ⟨pulled.elim [] (pullSamples aacFrameDurationNs · 0), kSampleRate, kChannels⟩

/-- `generateH264AvcStream`. -/
def generateH264AvcStream (pulled : Option (List (Option EncodedBuffer))) :
    H264AvcElementaryStream :=
  ⟨pulled.elim [] (pullSamples h264FrameDurationNs · 0)⟩

/-- **Samples that are stamped right** where they are stamped at all: sample `i` at `i` durations. -/
def Steady (frameDurationNs : ℕ) (buffers : List EncodedBuffer) : Prop :=
  ∀ (i : ℕ) (buffer : EncodedBuffer), buffers[i]? = some buffer →
    (∀ pts ∈ buffer.pts, pts.toNat = i * frameDurationNs) ∧
      ∀ duration ∈ buffer.duration, duration.toNat = frameDurationNs

/-- What the loop makes of buffer `i`. -/
def frameOf (frameDurationNs : Int64) (i : ℕ) (buffer : EncodedBuffer) : EncodedFrame :=
  { data := buffer.data
    timeStamp := buffer.pts.elim (Int64.ofNat i * frameDurationNs) UInt64.toInt64
    duration := buffer.duration.elim frameDurationNs UInt64.toInt64 }

/-- **What the generators make of the samples**: a frame of each buffer that can be mapped, in
order. -/
theorem pullSamples_spec (frameDurationNs : Int64) : ∀ (samples : List (Option EncodedBuffer))
    (i j : ℕ), (pullSamples frameDurationNs samples (Int64.ofNat i))[j]? =
      samples.reduceOption[j]?.map (frameOf frameDurationNs (i + j)) := by
  intro samples
  induction samples with
  | nil => intro i j; rfl
  | cons sample samples ih =>
      intro i j
      cases sample with
      | none =>
          rw [List.reduceOption_cons_of_none]
          exact ih i j
      | some buffer =>
          have hnext : Int64.ofNat i + 1 = Int64.ofNat (i + 1) := (Int64.ofNat_add i 1).symm
          rw [List.reduceOption_cons_of_some, pullSamples, hnext]
          cases j with
          | zero => rfl
          | succ j =>
              rw [List.getElem?_cons_succ, List.getElem?_cons_succ, ih,
                Nat.succ_add_eq_add_succ]

theorem toInt_toInt64 {x : UInt64} (h : x.toNat ≤ 9223372036854775807) :
    x.toInt64.toInt = x.toNat := by
  have hbmod : x.toInt64.toInt = (x.toNat : ℤ).bmod (2 ^ 64) := by
    rw [Int64.toInt, UInt64.toBitVec_toInt64, BitVec.toInt_eq_toNat_bmod]
    rfl
  rw [hbmod]
  exact bmod_of_range ⟨by omega, by omega⟩

theorem frameOf_steady {frameDurationNs : Int64} {d i : ℕ} {buffer : EncodedBuffer}
    (hd : frameDurationNs.toInt = d) (hrange : i * d + d ≤ 9223372036854775807)
    (hpts : ∀ pts ∈ buffer.pts, pts.toNat = i * d)
    (hduration : ∀ duration ∈ buffer.duration, duration.toNat = d) :
    (frameOf frameDurationNs i buffer).timeStamp.toInt = i * d ∧
      (frameOf frameDurationNs i buffer).duration.toInt = d := by
  constructor
  · cases hcase : buffer.pts with
    | none =>
        have hcount : (Int64.ofNat i).toInt = (i : ℤ).bmod (2 ^ 64) := Int64.toInt_ofNat'
        have hprod : (i : ℤ) * d ≤ 9223372036854775807 := by
          have : ((i * d : ℕ) : ℤ) = i * d := Nat.cast_mul i d
          omega
        rw [frameOf, hcase, Option.elim_none, Int64.toInt_mul, hcount, hd, Int.bmod_mul_bmod]
        have hnonneg : (0 : ℤ) ≤ i * d :=
          Int.mul_nonneg (Int.natCast_nonneg i) (Int.natCast_nonneg d)
        exact bmod_of_range ⟨le_trans (by norm_num) hnonneg, hprod⟩
    | some pts =>
        have hstamp := hpts pts hcase
        rw [frameOf, hcase, Option.elim_some, toInt_toInt64 (by omega), hstamp, Nat.cast_mul]
  · cases hcase : buffer.duration with
    | none => rw [frameOf, hcase, Option.elim_none, hd]
    | some duration =>
        have hstamp := hduration duration hcase
        rw [frameOf, hcase, Option.elim_some, toInt_toInt64 (by omega), hstamp]

theorem pullSamples_steady {frameDurationNs : Int64} {d : ℕ} {samples : List (Option EncodedBuffer)}
    (hd : frameDurationNs.toInt = d) (hsteady : Steady d samples.reduceOption)
    (hrange : samples.reduceOption.length * d ≤ 9223372036854775807) :
    (pullSamples frameDurationNs samples 0).length = samples.reduceOption.length ∧
      ∀ (i : ℕ) (buffer : EncodedBuffer), samples.reduceOption[i]? = some buffer →
        ∃ frame : EncodedFrame, (pullSamples frameDurationNs samples 0)[i]? = some frame ∧
          frame.data = buffer.data ∧ frame.timeStamp.toInt = i * d ∧ frame.duration.toInt = d := by
  have hspec : ∀ j, (pullSamples frameDurationNs samples 0)[j]? =
      samples.reduceOption[j]?.map (frameOf frameDurationNs j) := by
    intro j
    have := pullSamples_spec frameDurationNs samples 0 j
    rwa [Nat.zero_add] at this
  constructor
  · -- both have the same places
    have hnone : ∀ j, (pullSamples frameDurationNs samples 0).length ≤ j ↔
        samples.reduceOption.length ≤ j := by
      intro j
      rw [← List.getElem?_eq_none_iff, hspec, Option.map_eq_none_iff, List.getElem?_eq_none_iff]
    exact le_antisymm ((hnone _).2 le_rfl) ((hnone _).1 le_rfl)
  · intro i buffer hbuffer
    have hlt : i < samples.reduceOption.length := (List.getElem?_eq_some_iff.1 hbuffer).1
    have hle : (i + 1) * d ≤ samples.reduceOption.length * d := Nat.mul_le_mul_right d hlt
    rw [Nat.succ_mul] at hle
    obtain ⟨hpts, hduration⟩ := hsteady i buffer hbuffer
    obtain ⟨hstamp, hlasts⟩ := frameOf_steady hd (hle.trans hrange) hpts hduration
    exact ⟨frameOf frameDurationNs i buffer, by rw [hspec, hbuffer]; rfl, rfl, hstamp, hlasts⟩

/-- **A feed plays buffers on and on**: push `k` carries buffer `k % n` and is stamped `k`
durations. -/
def PlaysOn (push : SinkFeed → SinkFeed × Option PushedBuffer) (feed : SinkFeed)
    (encoded : List EncodedBuffer) (d : ℕ) : Prop :=
  ∀ calls, ∃ feed' buffers, (replay push).run feed calls = some (feed', buffers) ∧
    buffers.length = needsBeforeEos calls ∧
      ∀ (k : ℕ) (buffer : PushedBuffer), buffers[k]? = some buffer →
        buffer.pts = k * d ∧ buffer.duration.toInt = d ∧
          encoded[k % encoded.length]?.map EncodedBuffer.data = some buffer.data

theorem playsOn_construct {frameDurationNs : Int64} {d : ℕ} {samples : List (Option EncodedBuffer)}
    (hd : frameDurationNs.toInt = d) (hencoded : samples.reduceOption ≠ [])
    (hsteady : Steady d samples.reduceOption)
    (hrange : samples.reduceOption.length * d ≤ 9223372036854775807) :
    PlaysOn SinkFeed.pushNextFrame (SinkFeed.construct (pullSamples frameDurationNs samples 0)
      (totalDurationNs (pullSamples frameDurationNs samples 0))) samples.reduceOption d := by
  obtain ⟨hlength, hframe⟩ := pullSamples_steady hd hsteady hrange
  set frames := pullSamples frameDurationNs samples 0
  set encoded := samples.reduceOption
  have hpos : 0 < encoded.length := List.length_pos_of_ne_nil hencoded
  have hframes : frames ≠ [] := List.ne_nil_of_length_pos (by omega)
  have hget : ∀ (i : ℕ) (hi : i < encoded.length), ∃ frame : EncodedFrame, frames[i]? = some frame ∧
      frame.data = encoded[i].data ∧ frame.timeStamp.toInt = i * d ∧ frame.duration.toInt = d :=
    fun i hi => hframe i encoded[i] (List.getElem?_eq_getElem hi)
  have hstamp : ∀ i < frames.length, stamp frames i = i • (d : ℤ) := by
    intro i hi
    obtain ⟨frame, hat, -, hts, -⟩ := hget i (by omega)
    rw [stamp_of_getElem? hat, hts, nsmul_eq_mul]
  -- all frames last equally long
  have htotal : totalDurationNs frames = frames.length • (d : ℤ) := by
    have hmax : ∀ frame ∈ frames, max frame.duration.toInt 0 = (d : ℤ) := by
      intro frame hmem
      obtain ⟨i, hi, rfl⟩ := List.getElem_of_mem hmem
      obtain ⟨frame, hat, -, -, hlasts⟩ := hget i (by omega)
      rw [List.getElem?_eq_getElem hi] at hat
      rw [Option.some.inj hat, hlasts]
      exact max_eq_left (Int.natCast_nonneg d)
    rw [totalDurationNs_eq_sum, List.map_congr_left hmax, List.map_const', List.sum_replicate]
  have hreplays : Replays SinkFeed.pushNextFrame (SinkFeed.construct frames (totalDurationNs frames))
      frames (totalDurationNs frames) := replays_construct hframes
  intro calls
  obtain ⟨feed', buffers, hrun, hbuffers⟩ := hreplays.1 calls
  refine ⟨feed', buffers, hrun, ?_, ?_⟩
  · have := congrArg List.length hbuffers
    rwa [List.length_map, List.length_map, List.length_range] at this
  · intro k buffer hk
    obtain ⟨hlt, rfl⟩ := List.getElem?_eq_some_iff.1 hk
    have hpushed := pushed_getElem hbuffers hlt
    have hmod : k % frames.length < frames.length := Nat.mod_lt k (by omega)
    obtain ⟨frame, hat, hdata, -, hlasts⟩ := hget (k % frames.length) (by omega)
    refine ⟨?_, ?_, ?_⟩
    · rw [pushed_pts hpushed, htotal, cycle_nsmul (by omega) hstamp, nsmul_eq_mul]
    · rw [pushed_duration hpushed, lasting_of_getElem? hat, hlasts]
    · rw [pushed, hat, Option.map_some, Option.some.injEq] at hpushed
      rw [← hpushed, ← hlength, List.getElem?_eq_getElem (by omega), Option.map_some, hdata]

/-- **From the encoder to the sink**: a stream that the encoder stamps right where it stamps it at
all is played on and on by both feeds. -/
theorem generated_replay {audio video : List (Option EncodedBuffer)}
    (haudio : audio.reduceOption ≠ []) (hvideo : video.reduceOption ≠ [])
    (hsteadyAudio : Steady 21333333 audio.reduceOption)
    (hsteadyVideo : Steady 40000000 video.reduceOption)
    (hrangeAudio : audio.reduceOption.length * 21333333 ≤ 9223372036854775807)
    (hrangeVideo : video.reduceOption.length * 40000000 ≤ 9223372036854775807) :
    PlaysOn MseSinkFeed.pushNextFrame (MseSinkFeed.construct (generateAacAdtsStream (some audio)))
      audio.reduceOption 21333333 ∧
      PlaysOn MseVideoSinkFeed.pushNextFrame
        (MseVideoSinkFeed.construct (generateH264AvcStream (some video)))
          video.reduceOption 40000000 := by
  have hd : aacFrameDurationNs.toInt = (21333333 : ℕ) := by decide
  have hd' : h264FrameDurationNs.toInt = (40000000 : ℕ) := by decide
  exact ⟨playsOn_construct hd haudio hsteadyAudio hrangeAudio,
    playsOn_construct hd' hvideo hsteadyVideo hrangeVideo⟩

/-- An encoder that stamps some of its buffers; a sample of the audio stream cannot be mapped. -/
theorem generated_replay_short :
    PlaysOn MseSinkFeed.pushNextFrame (MseSinkFeed.construct
      (generateAacAdtsStream (some [some ⟨[0], none, none⟩, none, some ⟨[1], some 21333333, none⟩])))
        [⟨[0], none, none⟩, ⟨[1], some 21333333, none⟩] 21333333 ∧
      PlaysOn MseVideoSinkFeed.pushNextFrame (MseVideoSinkFeed.construct
        (generateH264AvcStream (some [some ⟨[2], none, some 40000000⟩])))
          [⟨[2], none, some 40000000⟩] 40000000 := by
  have hsteady : Steady 21333333 [⟨[0], none, none⟩, ⟨[1], some 21333333, none⟩] := by
    rintro (_ | _ | i) buffer hbuffer
    · obtain rfl := Option.some.inj hbuffer
      simp
    · obtain rfl := Option.some.inj hbuffer
      simp
    · simp at hbuffer
  have hsteady' : Steady 40000000 [⟨[2], none, some 40000000⟩] := by
    rintro (_ | i) buffer hbuffer
    · obtain rfl := Option.some.inj hbuffer
      simp
    · simp at hbuffer
  exact @generated_replay [some ⟨[0], none, none⟩, none, some ⟨[1], some 21333333, none⟩]
    [some ⟨[2], none, some 40000000⟩] (by decide) (by decide) hsteady hsteady' (by decide)
    (by decide)

end Feed
