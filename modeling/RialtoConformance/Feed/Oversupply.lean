/-
**What a round offers.**

A request asks for a number of frames, and an oversupplied client offers a multiple of it.  The
limit of the loop is a product of two 64-bit sizes; where it wraps, a round offers less than what
it was asked for, or nothing.

Main definitions:

* `Feed.offered` — the frames a round offers;
* `Feed.Entitled` — a round offers exactly the frames it is entitled to;
* `Feed.Supplies` — the limit of the loop, wrapped or not, does not cut the round short.

Main results:

* `Feed.offered_notifyNeedMediaData` — what a round offers to a server that accepts everything;
* `Feed.entitled_iff` — **when a round offers exactly the frames it is entitled to**.
-/
import RialtoConformance.Feed.Round

set_option relaxedAutoImplicit false
set_option autoImplicit false

namespace Feed

/-! ### The frames offered -/

/-- The frame a call offers, if it offers one. -/
def PipelineCall.frame? : PipelineCall → Option ℕ
  | .addSegment _ offer _ => some offer.frame
  | .haveData _ _ => none

/-- **The frames a round offers**, in order. -/
def offered (calls : List PipelineCall) : List ℕ := calls.filterMap PipelineCall.frame?

/-- How many frames are left from the cursor on. -/
def SourceFeed.remaining (feed : SourceFeed) : ℕ := feed.stream.frames.length - feed.nextFrame

def acceptsAll : ℕ → AddSegmentStatus := fun _ => .ok

theorem offerAll_acceptsAll : ∀ (offers : List Offer) (c : Client) (round : Round),
    (c.offerAll offers round acceptsAll).2.2 =
      offers.map fun o => .addSegment round.requestId o .ok := by
  intro offers
  induction offers with
  | nil => intro c round; rfl
  | cons offer rest ih =>
      intro c round
      have hround : (c.noteAnswer round .ok).2.requestId = round.requestId := by
        rw [noteAnswer_snd, if_pos rfl]
      have hrest := ih (c.noteAnswer round .ok).1 (c.noteAnswer round .ok).2
      rw [hround] at hrest
      rw [List.map_cons, ← hrest]
      rfl

theorem offered_segmentCalls (requestId : UInt32) (offers : List Offer) :
    offered (offers.map fun o => .addSegment requestId o .ok) = offers.map Offer.frame := by
  rw [offered, List.filterMap_map]
  exact congrFun (List.filterMap_eq_map (f := Offer.frame)) offers

/-- **What a round offers** to a server that accepts everything: frames from the cursor on, as many
as are left and the limit of the loop allows. -/
theorem offered_notifyNeedMediaData {c : Client} {need : NeedData} {feed : SourceFeed}
    (hpipeline : c.pipeline = true) (hfeed : c.feeds need.sourceId = some feed)
    (hwithhold : c.withhold = false) (hstarve : c.starve = false) :
    offered (c.notifyNeedMediaData need acceptsAll).2 = List.range' feed.nextFrame
      (min feed.remaining (c.offerLimit need.frameCount).toNat) := by
  have hopen := openRound_snd_of_feed hpipeline hfeed hwithhold
  rw [if_neg (by simp [hstarve])] at hopen
  rw [SourceFeed.remaining, ← offers_frames c need feed, ← offered_segmentCalls need.requestId]
  simp only [Client.notifyNeedMediaData, hopen, offerAll_acceptsAll]
  rw [offered, List.filterMap_append]
  exact List.append_nil _

/-! ### The frames a round is entitled to -/

/-- The number of frames an oversupplied request asks for: the true product. -/
def wanted (need : NeedData) (multiple : UInt64) : ℕ :=
  need.frameCount.toNat * max multiple.toNat 1

/-- **A round offers exactly the frames it is entitled to.** -/
structure Entitled (need : NeedData) (multiple : UInt64) (feed : SourceFeed)
    (calls : List PipelineCall) : Prop where
  /-- Consecutive frames from the cursor on, as many as are left and asked for. -/
  exactly : offered calls =
    List.range' feed.nextFrame (min feed.remaining (wanted need multiple))
  /-- Without oversupply, no more than the server asked for. -/
  within : multiple ≤ 1 → (offered calls).length ≤ need.frameCount.toNat
  /-- At least one frame when one is asked for and one is left. -/
  feeding : 0 < need.frameCount.toNat → 0 < feed.remaining → offered calls ≠ []

/-- The true product fits in 64 bits, or what is left of it there still covers the frames that
remain. -/
def Supplies (need : NeedData) (multiple : UInt64) (feed : SourceFeed) : Prop :=
  wanted need multiple < 2 ^ 64 ∨ feed.remaining ≤ wanted need multiple % 2 ^ 64

instance (need : NeedData) (multiple : UInt64) (feed : SourceFeed) :
    Decidable (Supplies need multiple feed) := inferInstanceAs (Decidable (_ ∨ _))

theorem toNat_multiple_setOversupply (c : Client) (multiple : UInt64) :
    (c.setOversupply multiple).multiple.toNat = max multiple.toNat 1 := by
  by_cases h : multiple = 0
  · subst h
    rfl
  · have hpos : multiple.toNat ≠ 0 := fun h0 => h (UInt64.toNat_inj.1 h0)
    have hmultiple : (c.setOversupply multiple).multiple = multiple := by
      simp only [Client.multiple, Client.setOversupply, if_neg h]
    rw [hmultiple]
    omega

theorem toNat_offerLimit_setOversupply (c : Client) (need : NeedData) (multiple : UInt64) :
    ((c.setOversupply multiple).offerLimit need.frameCount).toNat =
      wanted need multiple % 2 ^ 64 := by
  rw [Client.offerLimit, UInt64.toNat_mul, toNat_multiple_setOversupply, wanted]

/-- The wrapped product cuts nothing short exactly when it did not wrap, or when it covers what is
left all the same. -/
theorem min_mod_eq_iff (remaining product : ℕ) :
    min remaining (product % 2 ^ 64) = min remaining product ↔
      product < 2 ^ 64 ∨ remaining ≤ product % 2 ^ 64 := by
  have hmod : product % 2 ^ 64 < 2 ^ 64 := Nat.mod_lt _ (by omega)
  have hle : product % 2 ^ 64 ≤ product := Nat.mod_le _ _
  constructor
  · intro h
    by_contra hcut
    rw [not_or] at hcut
    omega
  · rintro (hfits | hcovers)
    · rw [Nat.mod_eq_of_lt hfits]
    · omega

theorem Entitled.of_exactly {need : NeedData} {multiple : UInt64} {feed : SourceFeed}
    {calls : List PipelineCall} (h : offered calls =
      List.range' feed.nextFrame (min feed.remaining (wanted need multiple))) :
    Entitled need multiple feed calls := by
  have hlength : (offered calls).length = min feed.remaining (wanted need multiple) := by
    rw [h, List.length_range']
  refine ⟨h, fun hone => ?_, fun hcount hleft => ?_⟩
  · have hfactor : max multiple.toNat 1 = 1 := max_eq_right (UInt64.le_iff_toNat_le.1 hone)
    rw [hlength, wanted, hfactor, Nat.mul_one]
    exact min_le_right _ _
  · have hwanted : 0 < wanted need multiple := Nat.mul_pos hcount (by omega)
    refine List.ne_nil_of_length_pos ?_
    rw [hlength]
    omega

/-- **When a round offers exactly the frames it is entitled to**: for any cursor, stream, request
and multiple, exactly when the product does not wrap, or wraps to no less than what remains.  Each
segment offered carries its frame (`offers_carry`). -/
theorem entitled_iff {c : Client} {need : NeedData} {multiple : UInt64} {feed : SourceFeed}
    (hpipeline : c.pipeline = true) (hfeed : c.feeds need.sourceId = some feed)
    (hwithhold : c.withhold = false) (hstarve : c.starve = false) :
    Entitled need multiple feed
        ((c.setOversupply multiple).notifyNeedMediaData need acceptsAll).2 ↔
      Supplies need multiple feed := by
  have hoffered : offered ((c.setOversupply multiple).notifyNeedMediaData need acceptsAll).2 = _ :=
    offered_notifyNeedMediaData hpipeline hfeed hwithhold hstarve
  rw [toNat_offerLimit_setOversupply] at hoffered
  rw [Supplies, ← min_mod_eq_iff]
  constructor
  · intro h
    have hlength := congrArg List.length (hoffered.symm.trans h.exactly)
    simpa only [List.length_range'] using hlength
  · intro h
    exact Entitled.of_exactly (hoffered.trans (by rw [h]))

/-- A client that feeds source 1 from two frames. -/
def twoFrameClient : Client :=
  (Client.init.setPipeline true).addAudioSource 1 ⟨[⟨[0], 0, 20⟩, ⟨[1], 20, 20⟩], 48000, 2⟩

/-- The stream of that client and its cursor. -/
def twoFrameFeed : SourceFeed := ⟨⟨[⟨[0], 0, 20⟩, ⟨[1], 20, 20⟩], 48000, 2⟩, 0⟩

/-- Twice one frame is both frames. -/
theorem entitled_twice : Entitled ⟨1, 1, 7, true⟩ 2 twoFrameFeed
    ((twoFrameClient.setOversupply 2).notifyNeedMediaData ⟨1, 1, 7, true⟩ acceptsAll).2 :=
  (entitled_iff rfl rfl rfl rfl).2 (by decide +kernel)

/-- `2 ^ 63` times two frames is nothing. -/
theorem not_entitled_wrapped : ¬ ∀ (c : Client) (need : NeedData) (multiple : UInt64)
    (feed : SourceFeed), c.pipeline = true → c.feeds need.sourceId = some feed →
      c.withhold = false → c.starve = false → Entitled need multiple feed
        ((c.setOversupply multiple).notifyNeedMediaData need acceptsAll).2 := by
  intro h
  have hfeeding := (h twoFrameClient ⟨1, 2, 7, true⟩ 9223372036854775808 twoFrameFeed rfl rfl rfl
    rfl).feeding (by decide) (by decide)
  revert hfeeding
  decide +kernel

end Feed
