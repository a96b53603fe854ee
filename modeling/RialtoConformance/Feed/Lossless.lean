/-
**Lossless feeding under back-pressure.**

What the history of a run says about one source — which of its frames have been accepted since its
cursor was last set back, and whether a rejected frame awaits being sent again — and how the cursor
follows it through every run of whole requests.

Main definitions:

* `Feed.Track`, `Feed.trackOf` — what a history says about a source;
* `Feed.InOrder` — the invariant: the cursors follow the history;
* `Feed.Lossless` — feeding along a run is lossless and in order;
* `Feed.NeverWraps` — no request of a run that has a frame to send again asks for a number of
  segments that wraps to zero.

Main results:

* `Feed.inOrder_step`, `Feed.inOrder_of_run` — **the cursors follow the history** through every
  step and every run;
* `Feed.firstOffered_eq` — a request starts with the frame at the cursor;
* `Feed.lossless_iff` — **when feeding is lossless**.
-/
import RialtoConformance.Feed.Round

set_option relaxedAutoImplicit false
set_option autoImplicit false

namespace Feed

open Runs

/-! ### What a history says about a source -/

/-- What a history says about a source since its cursor was last set back. -/
structure Track where
  /-- The frames accepted, in order. -/
  accepted : List ℕ
  /-- The frame offered last, if it was rejected. -/
  awaiting : Option ℕ
  deriving DecidableEq

def Track.step (s : Int32) (t : Track) : Event → Track
  | .app op => if op.Resets s then ⟨[], none⟩ else t
  | .call (.addSegment _ offer status) =>
      if offer.segment.sourceId = s then
        if status = .ok then ⟨t.accepted ++ [offer.frame], none⟩
        else ⟨t.accepted, some offer.frame⟩
      else t
  | _ => t

/-- **What a history says about a source.** -/
def trackOf (s : Int32) (h : List Event) : Track := h.foldl (Track.step s) ⟨[], none⟩

theorem trackOf_append (s : Int32) (h h' : List Event) :
    trackOf s (h ++ h') = h'.foldl (Track.step s) (trackOf s h) := List.foldl_append ..

theorem foldl_accepted {s : Int32} {requestId : UInt32} : ∀ {offers : List Offer},
    (∀ o ∈ offers, o.segment.sourceId = s) → ∀ t : Track,
      (offers.map fun o => Event.call (.addSegment requestId o .ok)).foldl (Track.step s) t =
        if offers = [] then t else ⟨t.accepted ++ offers.map Offer.frame, none⟩ := by
  intro offers
  induction offers with
  | nil => intro _ t; rfl
  | cons o offers ih =>
      intro h t
      have ho : o.segment.sourceId = s := h o (by simp)
      have ih := ih fun o ho => h o (List.mem_cons_of_mem _ ho)
      have hstep : Track.step s t (.call (.addSegment requestId o .ok)) =
          ⟨t.accepted ++ [o.frame], none⟩ := by simp [Track.step, ho]
      rw [List.map_cons, List.foldl_cons, hstep, ih, if_neg (List.cons_ne_nil o offers)]
      split
      · rename_i hnil
        rw [hnil, List.map_singleton]
      · rw [List.map_cons, List.append_assoc, List.singleton_append]

theorem foldl_other {s : Int32} {requestId : UInt32} {offers : List Offer} {count : ℕ}
    {calls : List PipelineCall} (hs : ∀ o ∈ offers, o.segment.sourceId ≠ s)
    (h : SegmentCalls requestId offers count calls) (t : Track) :
    (calls.map Event.call).foldl (Track.step s) t = t := by
  refine List.foldlRecOn (motive := fun u => u = t) _ _ rfl fun u hu e he => ?_
  obtain ⟨call, hcall, rfl⟩ := List.mem_map.1 he
  obtain ⟨o, ho, status, rfl⟩ := h.exists_offer call hcall
  rw [hu]
  simp only [Track.step, if_neg (hs o ho)]

/-! ### The cursors follow the history -/

/-- A cursor follows a history: the frames accepted are those before it, and a frame that awaits
being sent again is the one at it. -/
structure Tracked (feed : SourceFeed) (t : Track) : Prop where
  /-- The frames accepted, in order, each once. -/
  accepted : t.accepted = List.range feed.nextFrame
  /-- The cursor is in the stream or at its end. -/
  le : feed.nextFrame ≤ feed.stream.frames.length
  /-- The frame awaiting. -/
  awaiting : ∀ f, t.awaiting = some f → f = feed.nextFrame ∧ f < feed.stream.frames.length

/-- **The invariant**: every cursor follows the history. -/
def InOrder (c : Client) (h : List Event) : Prop :=
  ∀ s, match c.feeds s with
    | none => trackOf s h = ⟨[], none⟩
    | some feed => Tracked feed (trackOf s h)

theorem Tracked.of_zero {feed : SourceFeed} (h : feed.nextFrame = 0) : Tracked feed ⟨[], none⟩ :=
  ⟨by rw [h]; rfl, by omega, by simp⟩

theorem foldl_segmentCalls {requestId : UInt32} {need : NeedData} {c : Client} {feed : SourceFeed}
    {count : ℕ} {calls : List PipelineCall} {t : Track} (ht : Tracked feed t)
    (h : SegmentCalls requestId (c.offers need feed) count calls) :
    Tracked { feed with nextFrame := feed.nextFrame + count }
      ((calls.map Event.call).foldl (Track.step need.sourceId) t) := by
  have hs := offers_sourceId c need feed
  have hframes := offers_frames c need feed
  set offers := c.offers need feed
  set room := min (feed.stream.frames.length - feed.nextFrame)
    (c.offerLimit need.frameCount).toNat with hroom
  have hlen : offers.length = room := by
    rw [← List.length_map (f := Offer.frame), hframes, List.length_range']
  have hroom_le : room ≤ feed.stream.frames.length - feed.nextFrame := min_le_left _ _
  have hle := ht.le
  have htake : ∀ n ≤ room, t.accepted ++ (offers.take n).map Offer.frame =
      List.range (feed.nextFrame + n) := by
    intro n hn
    rw [List.map_take, hframes, List.take_range'_of_length_ge hn, ht.accepted,
      List.range_eq_range', List.range_eq_range', ← List.range'_append_1, Nat.zero_add]
  have htaken : ∀ n, ∀ o ∈ offers.take n, o.segment.sourceId = need.sourceId := fun n o ho =>
    hs o (List.mem_of_mem_take ho)
  rcases h with ⟨rfl, hcount⟩ | ⟨offer, status, hoffer, hstatus, rfl⟩
  · -- every segment is accepted
    have hall := htake room le_rfl
    rw [List.take_of_length_le hlen.le] at hall
    rw [List.map_map, Function.comp_def, foldl_accepted hs]
    split
    · rename_i hnil
      have hzero : count = 0 := by rw [hcount, hnil]; rfl
      rw [hzero]
      exact ht
    · refine ⟨?_, ?_, by simp⟩
      · simp only [hall, hcount, hlen]
      · simp only [hcount, hlen]
        omega
  · -- the segment behind the first `count` is rejected
    obtain ⟨hlt, hget⟩ := List.getElem?_eq_some_iff.1 hoffer
    have hframe : offer.frame = feed.nextFrame + count := by
      have hmap : (offers.map Offer.frame)[count]? = some offer.frame := by
        rw [List.getElem?_map, hoffer]
        rfl
      rw [hframes, List.getElem?_range' (by omega)] at hmap
      rw [← Option.some.inj hmap, Nat.one_mul]
    have hsource : offer.segment.sourceId = need.sourceId := hs offer (List.mem_of_getElem? hoffer)
    have haccepted : ((((offers.take count).map fun o => PipelineCall.addSegment requestId o .ok).map
        Event.call).foldl (Track.step need.sourceId) t).accepted =
          List.range (feed.nextFrame + count) := by
      rw [List.map_map, Function.comp_def, foldl_accepted (htaken count)]
      split
      · rename_i hnil
        have := htake count (by omega)
        rwa [hnil, List.map_nil, List.append_nil] at this
      · exact htake count (by omega)
    rw [List.map_append, List.foldl_append, List.map_singleton, List.foldl_cons, List.foldl_nil]
    simp only [Track.step, hsource, if_true, if_neg hstatus]
    refine ⟨haccepted, ?_, ?_⟩
    · simp only
      omega
    · rintro f ⟨⟩
      refine ⟨hframe, ?_⟩
      rw [hframe]
      simp only
      omega

theorem foldl_notify {need : NeedData} {calls : List PipelineCall} {status : MediaSourceStatus}
    (s : Int32) (t : Track) :
    (Event.need need :: (calls ++ [PipelineCall.haveData status need.requestId]).map Event.call).foldl
      (Track.step s) t = (calls.map Event.call).foldl (Track.step s) t := by
  rw [List.foldl_cons, List.map_append, List.foldl_append]
  rfl

theorem inOrder_app {c : Client} {h : List Event} (hin : InOrder c h) (op : AppOp) :
    InOrder (op.apply c) (h ++ [.app op]) := by
  intro s
  have htrack : trackOf s (h ++ [.app op]) = if op.Resets s then ⟨[], none⟩ else trackOf s h := by
    rw [trackOf_append]
    rfl
  rw [htrack]
  by_cases hreset : op.Resets s
  · rw [if_pos hreset]
    cases hfeed : (op.apply c).feeds s with
    | none => rfl
    | some feed => exact Tracked.of_zero (nextFrame_eq_zero_of_resets hreset hfeed)
  · rw [if_neg hreset, apply_feeds_of_not_resets hreset]
    exact hin s

/-- A request that moves no cursor and has no segments accepted or rejected keeps the invariant. -/
theorem InOrder.of_feeds_eq {c c' : Client} {h es : List Event} (hin : InOrder c h)
    (hfeeds : c'.feeds = c.feeds) (hes : ∀ s t, es.foldl (Track.step s) t = t) :
    InOrder c' (h ++ es) := by
  intro s
  rw [trackOf_append, hes, hfeeds]
  exact hin s

/-- **A whole request keeps the invariant.** -/
theorem inOrder_need {c : Client} {h : List Event} (hin : InOrder c h) (need : NeedData)
    (answers : ℕ → AddSegmentStatus) :
    InOrder (c.notifyNeedMediaData need answers).1
      (h ++ .need need :: (c.notifyNeedMediaData need answers).2.map .call) := by
  rcases unanswered_or_feed c need with hopen | ⟨feed, hpipeline, hfeed, hwithhold⟩
  · rw [notifyNeedMediaData_of_unanswered answers hopen]
    exact hin.of_feeds_eq (openRound_feeds c need) fun _ _ => rfl
  · cases hstarve : c.starve with
    | true =>
        rw [notifyNeedMediaData_of_starve answers hpipeline hfeed hwithhold hstarve]
        exact hin.of_feeds_eq (openRound_feeds c need) fun _ _ => rfl
    | false =>
        obtain ⟨count, hanswered⟩ :=
          notifyNeedMediaData_of_feed answers hpipeline hfeed hwithhold hstarve
        obtain ⟨calls, hcalls, heq⟩ := hanswered.calls
        intro s
        rw [heq, trackOf_append, foldl_notify, hanswered.feeds]
        have hs := hin s
        by_cases hsource : s = need.sourceId
        · subst hsource
          rw [hfeed] at hs
          rw [Function.update_self]
          exact foldl_segmentCalls hs hcalls
        · have hother : ∀ o ∈ c.offers need feed, o.segment.sourceId ≠ s := by
            intro o ho hos
            exact hsource (hos.symm.trans (offers_sourceId c need feed o ho))
          rw [Function.update_of_ne hsource, foldl_other hother hcalls]
          exact hs

/-- **Every step keeps the invariant.** -/
theorem inOrder_step (c : Client) (h : List Event) (a : Action) (c' : Client) (es : List Event)
    (hin : InOrder c h) (hstep : rounds.step c a = some (c', es)) : InOrder c' (h ++ es) := by
  cases a with
  | app op =>
      obtain ⟨rfl, rfl⟩ := Prod.mk.inj (Option.some.inj hstep)
      exact inOrder_app hin op
  | need need answers =>
      obtain ⟨rfl, rfl⟩ := Prod.mk.inj (Option.some.inj hstep)
      exact inOrder_need hin need answers
  | cancel sourceId =>
      obtain ⟨rfl, rfl⟩ := Prod.mk.inj (Option.some.inj hstep)
      exact hin.of_feeds_eq rfl fun _ _ => rfl

theorem inOrder_init : InOrder Client.init [] := fun _ => rfl

/-- **The cursors follow the history through every run.** -/
theorem inOrder_of_run {as : List Action} {c : Client} {h : List Event}
    (hrun : rounds.run Client.init as = some (c, h)) : InOrder c h := by
  have := Machine.run_induction inOrder_step inOrder_init hrun
  rwa [List.nil_append] at this

/-! ### Sending rejected frames again -/

/-- The first frame offered by the calls of a request. -/
def firstOffered : List PipelineCall → Option ℕ
  | .addSegment _ offer _ :: _ => some offer.frame
  | _ => none

/-- **A request starts with the frame at the cursor**, if it offers anything. -/
theorem firstOffered_eq {c : Client} {need : NeedData} {feed : SourceFeed} {count : ℕ}
    {calls : List PipelineCall} {status : MediaSourceStatus}
    (hcalls : SegmentCalls need.requestId (c.offers need feed) count calls)
    (hlt : feed.nextFrame < feed.stream.frames.length) :
    firstOffered (calls ++ [.haveData status need.requestId]) = some feed.nextFrame ↔
      (c.offerLimit need.frameCount).toNat ≠ 0 := by
  have hframes := offers_frames c need feed
  cases hoffers : c.offers need feed with
  | nil =>
      -- nothing offered: the stream has frames left, so the limit is zero
      rw [hoffers] at hframes hcalls
      have hzero : min (feed.stream.frames.length - feed.nextFrame)
          (c.offerLimit need.frameCount).toNat = 0 := by
        have := congrArg List.length hframes
        rwa [List.length_range', List.map_nil, List.length_nil, eq_comm] at this
      have hnil : calls = [] := by
        rcases hcalls with ⟨rfl, -⟩ | ⟨offer, status, hoffer, -⟩
        · rfl
        · simp at hoffer
      rw [hnil]
      simp only [List.nil_append, firstOffered]
      constructor
      · intro h
        simp at h
      · intro h
        omega
  | cons o offers =>
      rw [hoffers] at hframes hcalls
      have hlen : offers.length + 1 = min (feed.stream.frames.length - feed.nextFrame)
          (c.offerLimit need.frameCount).toNat := by
        have := congrArg List.length hframes
        rwa [List.length_range', List.map_cons, List.length_cons, List.length_map] at this
      have ho : o.frame = feed.nextFrame := by
        rw [← hlen, List.range'_succ, List.map_cons] at hframes
        exact (List.cons.inj hframes).1
      have hfirst : ∃ status' rest, calls = .addSegment need.requestId o status' :: rest := by
        rcases hcalls with ⟨rfl, -⟩ | ⟨offer, status', hoffer, -, rfl⟩
        · exact ⟨_, _, rfl⟩
        · cases count with
          | zero =>
              obtain rfl := Option.some.inj hoffer
              exact ⟨status', [], rfl⟩
          | succ count => exact ⟨_, _, rfl⟩
      obtain ⟨status', rest, rfl⟩ := hfirst
      simp only [List.cons_append, firstOffered, ho, true_iff]
      omega

/-- A request that is answered with segments: there is a pipeline, and no mode forbids it. -/
structure Client.Answers (c : Client) : Prop where
  pipeline : c.pipeline = true
  withhold : c.withhold = false
  starve : c.starve = false

/-- A frame that awaits being sent again is the first one offered by a request, when the request
is answered with segments and asks for at least one frame. -/
def Resends (c : Client) (h : List Event) (need : NeedData) (answers : ℕ → AddSegmentStatus) :
    Prop :=
  c.Answers → need.frameCount ≠ 0 → ∀ f, (trackOf need.sourceId h).awaiting = some f →
    firstOffered (c.notifyNeedMediaData need answers).2 = some f

/-- A request that is answered with segments is answered `haveData` once, at the end, and with
`EOS` exactly when every frame of the stream has been accepted since the cursor was set back. -/
def EndsRight (c : Client) (h : List Event) (need : NeedData) (answers : ℕ → AddSegmentStatus) :
    Prop :=
  c.Answers → ∀ feed, c.feeds need.sourceId = some feed →
    ∃ calls status, (c.notifyNeedMediaData need answers).2 =
        calls ++ [.haveData status need.requestId] ∧
      (∀ call ∈ calls, ∃ offer answer, call = .addSegment need.requestId offer answer) ∧
      (status = .eos ↔ ∀ f < feed.stream.frames.length, f ∈ (trackOf need.sourceId
        (h ++ .need need :: (c.notifyNeedMediaData need answers).2.map .call)).accepted)

/-- **Every request is ended right.** -/
theorem endsRight {c : Client} {h : List Event} (hin : InOrder c h) (need : NeedData)
    (answers : ℕ → AddSegmentStatus) : EndsRight c h need answers := by
  intro hanswers feed hfeed
  obtain ⟨count, hanswered⟩ := notifyNeedMediaData_of_feed answers hanswers.pipeline hfeed
    hanswers.withhold hanswers.starve
  obtain ⟨calls, hcalls, heq⟩ := hanswered.calls
  refine ⟨calls, _, heq, ?_, ?_⟩
  · intro call hcall
    obtain ⟨o, -, status, rfl⟩ := hcalls.exists_offer call hcall
    exact ⟨o, status, rfl⟩
  · have hafter := inOrder_need hin need answers need.sourceId
    rw [hanswered.feeds, Function.update_self] at hafter
    have htracked : Tracked { feed with nextFrame := feed.nextFrame + count } _ := hafter
    rw [htracked.accepted]
    constructor
    · intro hstatus f hf
      have hge : feed.nextFrame + count ≥ feed.stream.frames.length := by
        by_contra hlt
        rw [if_neg hlt] at hstatus
        simp at hstatus
      exact List.mem_range.2 (by simp only; omega)
    · intro hall
      refine if_pos ?_
      by_contra hlt
      have := List.mem_range.1 (hall (feed.nextFrame + count) (by omega))
      simp at this

/-- **When a request sends a rejected frame again**: exactly when the number of segments it may
offer does not wrap to zero. -/
theorem resends_iff {c : Client} {h : List Event} (hin : InOrder c h) (need : NeedData)
    (answers : ℕ → AddSegmentStatus) :
    Resends c h need answers ↔
      (c.Answers → need.frameCount ≠ 0 → (trackOf need.sourceId h).awaiting.isSome →
        ¬ 2 ^ 64 ∣ need.frameCount.toNat * c.multiple.toNat) := by
  have key : ∀ f, c.Answers → (trackOf need.sourceId h).awaiting = some f →
      (firstOffered (c.notifyNeedMediaData need answers).2 = some f ↔
        ¬ 2 ^ 64 ∣ need.frameCount.toNat * c.multiple.toNat) := by
    intro f hanswers hf
    have hs := hin need.sourceId
    cases hfeed : c.feeds need.sourceId with
    | none =>
        rw [hfeed] at hs
        rw [hs] at hf
        simp at hf
    | some feed =>
        rw [hfeed] at hs
        have htracked : Tracked feed _ := hs
        obtain ⟨rfl, hlt⟩ := htracked.awaiting f hf
        obtain ⟨count, hanswered⟩ := notifyNeedMediaData_of_feed answers hanswers.pipeline hfeed
          hanswers.withhold hanswers.starve
        obtain ⟨calls, hcalls, heq⟩ := hanswered.calls
        rw [heq, firstOffered_eq hcalls hlt, ← toNat_offerLimit_eq_zero_iff]
  constructor
  · intro hresends hanswers hcount hsome
    obtain ⟨f, hf⟩ := Option.isSome_iff_exists.1 hsome
    exact (key f hanswers hf).1 (hresends hanswers hcount f hf)
  · intro hwrap hanswers hcount f hf
    exact (key f hanswers hf).2 (hwrap hanswers hcount (by rw [hf]; rfl))

/-! ### Whole runs -/

/-- **Feeding along a run is lossless and in order**: at every point of it the frames of a source
accepted since its cursor was set back are those before the cursor, in order and each once; a
rejected frame is sent again first; and `EOS` is reported exactly when all frames are accepted. -/
def Lossless (as : List Action) : Prop :=
  ∀ done c h rest, as = done ++ rest → rounds.run Client.init done = some (c, h) →
    (∀ s feed, c.feeds s = some feed → (trackOf s h).accepted = List.range feed.nextFrame) ∧
    ∀ need answers rest', rest = .need need answers :: rest' →
      Resends c h need answers ∧ EndsRight c h need answers

/-- No request of a run that has a frame to send again, is answered with segments and asks for at
least one frame asks, oversupplied, for a multiple of `2 ^ 64` segments. -/
def NeverWraps (as : List Action) : Prop :=
  ∀ done c h need answers rest, as = done ++ .need need answers :: rest →
    rounds.run Client.init done = some (c, h) → c.Answers → need.frameCount ≠ 0 →
      (trackOf need.sourceId h).awaiting.isSome →
        ¬ 2 ^ 64 ∣ need.frameCount.toNat * c.multiple.toNat

/-- **When feeding is lossless**: along a run of whole requests, calls of the application and
cancellations in any order, with any answers of the server.  That each segment offered carries the
frame of its index is `offers_carry_of_run`, of which these runs are a case
(`sections_of_rounds`). -/
theorem lossless_iff (as : List Action) : Lossless as ↔ NeverWraps as := by
  constructor
  · intro h done c hist need answers rest has hrun
    have hin := inOrder_of_run hrun
    exact (resends_iff hin need answers).1
      ((h done c hist _ has hrun).2 need answers rest rfl).1
  · intro h done c hist rest has hrun
    have hin := inOrder_of_run hrun
    refine ⟨fun s feed hfeed => ?_, fun need answers rest' hrest => ⟨?_, endsRight hin need answers⟩⟩
    · have hs := hin s
      rw [hfeed] at hs
      exact hs.accepted
    · subst hrest
      exact (resends_iff hin need answers).2 (h done c hist need answers rest' has hrun)

def oneFrame : AacElementaryStream := ⟨[⟨[0], 0, 0⟩], 48000, 2⟩

/-- A request rejected for want of space, and one whose limit wraps. -/
def wrappingRun : List Action :=
  [.app (.setPipeline true), .app (.addAudioSource 1 oneFrame),
    .need ⟨1, 1, 1, true⟩ fun _ => .noSpace, .app (.setOversupply 9223372036854775808),
    .need ⟨1, 2, 2, true⟩ fun _ => .ok]

/-- The rejected frame is not sent again. -/
theorem not_lossless_wrappingRun : ¬ Lossless wrappingRun := by
  intro h
  have hrun : rounds.run Client.init (wrappingRun.take 4) = some (_, _) := rfl
  obtain ⟨-, hneeds⟩ := h _ _ _ (wrappingRun.drop 4) rfl hrun
  have hfirst := (hneeds _ _ _ rfl).1 ⟨rfl, rfl, rfl⟩ (by decide) 0 (by decide +kernel)
  revert hfirst
  decide +kernel

end Feed
