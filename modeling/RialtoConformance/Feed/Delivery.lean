/-
**What arrives at the server.**

The segments of a source that the server accepts, put together, are the frames of its stream with
their times, format and payload; and how far the stream has come is the sum of what the
requests for it have asked for.  Neither depends on what happens to other sources, nor on how
requests, cancellations, starving and withholding take turns.

Main definitions:

* `Feed.CarryFrames`, `Feed.delivered` — segments that are frames of a source, and the segments
  accepted for it;
* `Feed.Action.supply` — how many segments a request may have;
* `Feed.supplying` — the machine of whole requests with the sum of that.

Main results:

* `Feed.delivered_step` — what one step delivers;
* `Feed.delivered_of_run` — **what is accepted is the stream**, whatever the server rejects;
* `Feed.delivery` — **the flow of a stream** to a server that accepts everything.
-/
import RialtoConformance.Feed.Oversupply
import RialtoConformance.Feed.Corruption

set_option relaxedAutoImplicit false
set_option autoImplicit false

namespace Feed

open Runs

/-! ### The segments of a stream -/

/-- **Segments are the frames of a source**, each with its times, its format and its payload. -/
def CarryFrames (source : Source) (frames : List EncodedFrame) (segments : List MediaSegment) :
    Prop :=
  List.Forall₂ (fun frame segment => CarriesFrame source frame false segment) frames segments

theorem buildSegments_clean {source : Source} :
    ∀ (frames : List EncodedFrame) (idx room : ℕ) (offered : UInt64),
      CarryFrames source (frames.take room)
        ((buildSegments source.sourceId source.stream 0 frames idx room offered).1.map
          Offer.segment) := by
  intro frames
  induction frames with
  | nil =>
      intro idx room offered
      rw [List.take_nil]
      exact .nil
  | cons frame frames ih =>
      intro idx room offered
      cases room with
      | zero => exact .nil
      | succ room =>
          rw [buildSegments, List.map_cons, List.take_succ_cons]
          exact .cons (segmentOf_carries source frame false) (ih _ _ _)

/-- The segment that an event delivers for a source. -/
def Event.delivers (s : Int32) : Event → Option MediaSegment
  | .call (.addSegment _ offer .ok) =>
      if offer.segment.sourceId = s then some offer.segment else none
  | _ => none

/-- **The segments accepted for a source**, in order. -/
def delivered (s : Int32) (h : List Event) : List MediaSegment := h.filterMap (Event.delivers s)

@[simp] theorem delivered_append (s : Int32) (h h' : List Event) :
    delivered s (h ++ h') = delivered s h ++ delivered s h' := List.filterMap_append

theorem delivered_calls {s : Int32} {requestId : UInt32} {offers : List Offer} {count : ℕ}
    {calls : List PipelineCall} (hs : ∀ o ∈ offers, o.segment.sourceId = s)
    (h : SegmentCalls requestId offers count calls) :
    delivered s (calls.map .call) = (offers.map Offer.segment).take count := by
  have hall : ∀ offers : List Offer, (∀ o ∈ offers, o.segment.sourceId = s) →
      delivered s ((offers.map fun o => PipelineCall.addSegment requestId o .ok).map .call) =
        offers.map Offer.segment := by
    intro offers
    induction offers with
    | nil => intro _; rfl
    | cons o offers ih =>
        intro h
        have ho : Event.delivers s (.call (.addSegment requestId o .ok)) = some o.segment :=
          if_pos (h o List.mem_cons_self)
        rw [List.map_cons, List.map_cons, List.map_cons, delivered, List.filterMap_cons_some ho]
        exact congrArg _ (ih fun o' ho' => h o' (List.mem_cons_of_mem _ ho'))
  rcases h with ⟨rfl, rfl⟩ | ⟨offer, status, hoffer, hstatus, rfl⟩
  · rw [hall offers hs, List.take_of_length_le (by simp)]
  · have hlast : delivered s [.call (.addSegment requestId offer status)] = [] := by
      cases status with
      | ok => exact absurd rfl hstatus
      | _ => rfl
    rw [List.map_append, delivered_append, hall _ fun o ho => hs o (List.mem_of_mem_take ho),
      List.map_singleton, hlast, List.append_nil, List.map_take]

theorem delivered_other {s : Int32} {requestId : UInt32} {offers : List Offer} {count : ℕ}
    {calls : List PipelineCall} (hs : ∀ o ∈ offers, o.segment.sourceId ≠ s)
    (h : SegmentCalls requestId offers count calls) : delivered s (calls.map .call) = [] := by
  rw [delivered, List.filterMap_eq_nil_iff]
  intro e he
  obtain ⟨call, hcall, rfl⟩ := List.mem_map.1 he
  obtain ⟨o, ho, status, rfl⟩ := h.exists_offer call hcall
  cases status with
  | ok => exact if_neg (hs o ho)
  | _ => rfl

/-! ### One step -/

theorem notify_corruptEvery (c : Client) (need : NeedData) (answers : ℕ → AddSegmentStatus) :
    (c.notifyNeedMediaData need answers).1.corruptEvery = c.corruptEvery := by
  have hoffer : ∀ (offers : List Offer) (c : Client) (round : Round),
      (c.offerAll offers round answers).1.corruptEvery = c.corruptEvery := by
    intro offers
    induction offers with
    | nil => intro c round; rfl
    | cons offer rest ih =>
        intro c round
        rw [Client.offerAll]
        split
        · exact (ih _ _).trans (noteAnswer_counts c round _).1
        · exact (noteAnswer_counts c round _).1
  rw [Client.notifyNeedMediaData]
  cases (c.openRound need).2 with
  | offering round offers =>
      exact (closeRound_counts _ _).1.trans
        ((hoffer offers _ round).trans (openRound_corruptEvery c need))
  | _ => exact openRound_corruptEvery c need

/-- A step that neither sets the cursor of `s` back nor has segments corrupted. -/
def Action.Keeps (s : Int32) : Action → Prop
  | .app op => ¬ op.Resets s ∧ ∀ n, op = .setCorruptEvery n → n = 0
  | _ => True

/-- Everything that is offered for `s` in a step is accepted. -/
def Action.Accepted (s : Int32) : Action → Prop
  | .need request answers => request.sourceId = s → answers = acceptsAll
  | _ => True

/-- **How many segments a request for `s` may have**; none when it is not answered with any. -/
def Action.supply (s : Int32) (c : Client) : Action → ℕ
  | .need request _ =>
      if request.sourceId = s ∧ c.pipeline = true ∧ c.withhold = false ∧ c.starve = false then
        (c.offerLimit request.frameCount).toNat
      else 0
  | _ => 0

/-- The stream of `s` has come `count` frames further, and these are what has been accepted. -/
structure Advances (s : Int32) (c' : Client) (feed : SourceFeed) (es : List Event) (count : ℕ) :
    Prop where
  feeds : c'.feeds s = some { feed with nextFrame := feed.nextFrame + count }
  le : feed.nextFrame + count ≤ feed.stream.frames.length
  segments : CarryFrames ⟨s, feed.stream, true⟩
    ((feed.stream.frames.drop feed.nextFrame).take count) (delivered s es)
  clean : c'.corruptEvery = 0

theorem Advances.zero {s : Int32} {c' : Client} {feed : SourceFeed} {es : List Event}
    (hfeeds : c'.feeds s = some feed) (hle : feed.nextFrame ≤ feed.stream.frames.length)
    (hes : delivered s es = []) (hclean : c'.corruptEvery = 0) : Advances s c' feed es 0 := by
  refine ⟨hfeeds, hle, ?_, hclean⟩
  rw [hes, List.take_zero]
  exact .nil

/-- **A request for `s` that is answered with segments** delivers those that are accepted. -/
theorem advances_need {c : Client} {need : NeedData} {feed : SourceFeed}
    {answers : ℕ → AddSegmentStatus} (hpipeline : c.pipeline = true)
    (hfeed : c.feeds need.sourceId = some feed) (hwithhold : c.withhold = false)
    (hstarve : c.starve = false) (hclean : c.corruptEvery = 0)
    (hle : feed.nextFrame ≤ feed.stream.frames.length) :
    ∃ count, Advances need.sourceId (c.notifyNeedMediaData need answers).1 feed
        (.need need :: (c.notifyNeedMediaData need answers).2.map .call) count ∧
      (answers = acceptsAll → count = min feed.remaining (c.offerLimit need.frameCount).toNat) := by
  obtain ⟨count, hanswered⟩ :=
    notifyNeedMediaData_of_feed answers hpipeline hfeed hwithhold hstarve
  obtain ⟨calls, hcalls, heq⟩ := hanswered.calls
  have hlength : (c.offers need feed).length =
      min feed.remaining (c.offerLimit need.frameCount).toNat := by
    have := congrArg List.length (offers_frames c need feed)
    rwa [List.length_map, List.length_range'] at this
  have hcount : count ≤ (c.offers need feed).length := by
    rcases hcalls with ⟨-, rfl⟩ | ⟨offer, status, hoffer, -, -⟩
    · exact le_rfl
    · exact (List.getElem?_eq_some_iff.1 hoffer).1.le
  have hsegments : CarryFrames ⟨need.sourceId, feed.stream, true⟩
      ((feed.stream.frames.drop feed.nextFrame).take (c.offerLimit need.frameCount).toNat)
      ((c.offers need feed).map Offer.segment) := by
    rw [Client.offers, hclean]
    exact buildSegments_clean _ _ _ _
  refine ⟨count, ⟨?_, ?_, ?_, ?_⟩, ?_⟩
  · rw [hanswered.feeds, Function.update_self]
  · rw [SourceFeed.remaining] at hlength
    omega
  · rw [heq, List.map_append]
    have hnone : delivered need.sourceId (.need need :: (calls.map .call ++ [.call (.haveData
        (if feed.nextFrame + count ≥ feed.stream.frames.length then .eos else .ok)
          need.requestId)])) = delivered need.sourceId (calls.map .call) := by
      rw [← List.singleton_append, delivered_append, delivered_append]
      exact List.append_nil _
    have htake := List.forall₂_take count hsegments
    rw [List.take_take, min_eq_left (by omega)] at htake
    have hdelivered := hnone.trans (delivered_calls (offers_sourceId c need feed) hcalls)
    exact (congrArg (CarryFrames _ _) hdelivered).mpr htake
  · rw [notify_corruptEvery, hclean]
  · rintro rfl
    rw [← hlength]
    rcases hcalls with ⟨-, rfl⟩ | ⟨offer, status, hoffer, hstatus, rfl⟩
    · rfl
    · -- a server that accepts everything does not cut a batch short
      have hopen := openRound_snd_of_feed hpipeline hfeed hwithhold
      rw [if_neg (by simp [hstarve])] at hopen
      have hlast : PipelineCall.addSegment need.requestId offer status ∈
          (c.notifyNeedMediaData need acceptsAll).2 := by
        rw [heq]
        exact List.mem_append_left _ (List.mem_append_right _ (List.mem_singleton_self _))
      simp only [Client.notifyNeedMediaData, hopen, offerAll_acceptsAll, List.mem_append,
        List.mem_map, List.mem_singleton, PipelineCall.addSegment.injEq, reduceCtorEq,
        or_false] at hlast
      obtain ⟨o, -, -, -, hok⟩ := hlast
      exact absurd hok.symm hstatus

/-- A request that is left unanswered, or answered with no segments, has no supply. -/
theorem supply_eq_zero {s : Int32} {c : Client} {need : NeedData}
    {answers : ℕ → AddSegmentStatus} (h : need.sourceId = s → c.pipeline = false ∨
      c.withhold = true ∨ c.starve = true) : (Action.need need answers).supply s c = 0 := by
  refine if_neg ?_
  rintro ⟨hsource, hpipeline, hwithhold, hstarve⟩
  rcases h hsource with hfalse | htrue | htrue
  · exact absurd (hfalse.symm.trans hpipeline) (by decide)
  · exact absurd (hwithhold.symm.trans htrue) (by decide)
  · exact absurd (hstarve.symm.trans htrue) (by decide)

/-- A step that is not a request answered with segments of `s`. -/
def Idles (s : Int32) (c : Client) (c' : Client) (es : List Event) (a : Action) : Prop :=
  c'.feeds s = c.feeds s ∧ delivered s es = [] ∧ c'.corruptEvery = c.corruptEvery ∧
    a.supply s c = 0

theorem delivered_need {s : Int32} {c : Client} {feed : SourceFeed} (need : NeedData)
    (answers : ℕ → AddSegmentStatus) (hfeed : c.feeds s = some feed) (hclean : c.corruptEvery = 0)
    (hle : feed.nextFrame ≤ feed.stream.frames.length) :
    ∃ count, Advances s (c.notifyNeedMediaData need answers).1 feed
        (.need need :: (c.notifyNeedMediaData need answers).2.map .call) count ∧
      ((Action.need need answers).Accepted s →
        count = min feed.remaining ((Action.need need answers).supply s c)) := by
  have hidle : Idles s c (c.notifyNeedMediaData need answers).1
      (.need need :: (c.notifyNeedMediaData need answers).2.map .call) (.need need answers) →
      ∃ count, Advances s (c.notifyNeedMediaData need answers).1 feed
          (.need need :: (c.notifyNeedMediaData need answers).2.map .call) count ∧
        ((Action.need need answers).Accepted s →
          count = min feed.remaining ((Action.need need answers).supply s c)) := by
    rintro ⟨hfeeds, hes, hcorrupt, hsupply⟩
    refine ⟨0, Advances.zero (hfeeds.trans hfeed) hle hes (hcorrupt.trans hclean), fun _ => ?_⟩
    rw [hsupply, Nat.min_zero]
  rcases unanswered_or_feed c need with hopen | ⟨other, hpipeline, hother, hwithhold⟩
  · refine hidle ⟨?_, ?_, notify_corruptEvery c need answers, supply_eq_zero fun hsource => ?_⟩
    · rw [notifyNeedMediaData_of_unanswered answers hopen, openRound_feeds]
    · rw [notifyNeedMediaData_of_unanswered answers hopen]
      rfl
    · rcases hopen with hpipeline | hnone | hwithhold
      · exact Or.inl hpipeline
      · rw [hsource, hfeed] at hnone
        exact absurd hnone (by simp)
      · exact Or.inr (Or.inl hwithhold)
  · cases hstarve : c.starve with
    | true =>
        have heq := notifyNeedMediaData_of_starve answers hpipeline hother hwithhold hstarve
        refine hidle ⟨?_, ?_, notify_corruptEvery c need answers,
          supply_eq_zero fun _ => Or.inr (Or.inr hstarve)⟩
        · rw [heq]
          exact congrFun (openRound_feeds c need) s
        · rw [heq]
          rfl
    | false =>
        by_cases hsource : need.sourceId = s
        · subst hsource
          obtain rfl : other = feed := Option.some.inj (hother.symm.trans hfeed)
          obtain ⟨count, hadvances, hcount⟩ :=
            @advances_need _ _ _ answers hpipeline hother hwithhold hstarve hclean hle
          refine ⟨count, hadvances, fun haccepted => ?_⟩
          rw [hcount (haccepted rfl), Action.supply, if_pos ⟨rfl, hpipeline, hwithhold, hstarve⟩]
        · -- the request is for another source
          obtain ⟨count, hanswered⟩ :=
            notifyNeedMediaData_of_feed answers hpipeline hother hwithhold hstarve
          obtain ⟨calls, hcalls, heq⟩ := hanswered.calls
          refine hidle ⟨?_, ?_, notify_corruptEvery c need answers,
            supply_eq_zero fun h => absurd h hsource⟩
          · rw [hanswered.feeds, Function.update_of_ne (Ne.symm hsource)]
          · have hnone := delivered_other (s := s)
              (fun o ho hos => hsource ((offers_sourceId c need other o ho).symm.trans hos)) hcalls
            rw [heq, List.map_append, ← List.singleton_append, delivered_append, delivered_append,
              hnone]
            rfl

/-- **What one step delivers.** -/
theorem delivered_step {s : Int32} {c c' : Client} {a : Action} {es : List Event}
    {feed : SourceFeed} (hstep : rounds.step c a = some (c', es)) (hkeeps : a.Keeps s)
    (hfeed : c.feeds s = some feed) (hclean : c.corruptEvery = 0)
    (hle : feed.nextFrame ≤ feed.stream.frames.length) :
    ∃ count, Advances s c' feed es count ∧
      (a.Accepted s → count = min feed.remaining (a.supply s c)) := by
  cases a with
  | app op =>
      obtain ⟨rfl, rfl⟩ := Prod.mk.inj (Option.some.inj hstep)
      refine ⟨0, Advances.zero ((apply_feeds_of_not_resets hkeeps.1).trans hfeed) hle rfl ?_,
        fun _ => (Nat.min_zero _).symm⟩
      cases op with
      | setCorruptEvery n => exact hkeeps.2 n rfl
      | _ => exact hclean
  | need need answers =>
      obtain ⟨rfl, rfl⟩ := Prod.mk.inj (Option.some.inj hstep)
      exact delivered_need need answers hfeed hclean hle
  | cancel sourceId =>
      obtain ⟨rfl, rfl⟩ := Prod.mk.inj (Option.some.inj hstep)
      exact ⟨0, Advances.zero hfeed hle rfl hclean, fun _ => (Nat.min_zero _).symm⟩

/-! ### Runs -/

/-- The machine of whole requests, with the sum of what those for `s` may have. -/
def supplying (s : Int32) : Machine (Client × ℕ) Action Event :=
  rounds.recorded fun c a total => total + a.supply s c

theorem Advances.trans {s : Int32} {c₁ c₂ : Client} {feed : SourceFeed} {es₁ es₂ : List Event}
    {n₁ n₂ : ℕ} (h₁ : Advances s c₁ feed es₁ n₁)
    (h₂ : Advances s c₂ { feed with nextFrame := feed.nextFrame + n₁ } es₂ n₂) :
    Advances s c₂ feed (es₁ ++ es₂) (n₁ + n₂) := by
  refine ⟨?_, ?_, ?_, h₂.clean⟩
  · rw [h₂.feeds, Nat.add_assoc]
  · have hle : feed.nextFrame + n₁ + n₂ ≤ feed.stream.frames.length := h₂.le
    omega
  · rw [delivered_append, List.take_add, List.drop_drop]
    exact List.rel_append h₁.segments h₂.segments

/-- What is delivered over a run, from any sum on. -/
theorem delivered_of_run {s : Int32} : ∀ {as : List Action} {c c' : Client} {total total' : ℕ}
    {h : List Event} {feed : SourceFeed},
      (supplying s).run (c, total) as = some ((c', total'), h) → c.feeds s = some feed →
      feed.nextFrame ≤ feed.stream.frames.length → c.corruptEvery = 0 → (∀ a ∈ as, a.Keeps s) →
      ∃ count, Advances s c' feed h count ∧ ((∀ a ∈ as, a.Accepted s) →
        ∃ supply, total' = total + supply ∧ count = min feed.remaining supply) := by
  intro as
  induction as with
  | nil =>
      intro c c' total total' h feed hrun hfeed hle hclean hkeeps
      simp only [Machine.run_nil, Option.some.injEq, Prod.mk.injEq] at hrun
      obtain ⟨⟨rfl, rfl⟩, rfl⟩ := hrun
      exact ⟨0, Advances.zero hfeed hle rfl hclean, fun _ => ⟨0, rfl, (Nat.min_zero _).symm⟩⟩
  | cons a as ih =>
      intro c c' total total' h feed hrun hfeed hle hclean hkeeps
      obtain ⟨⟨c₁, total₁⟩, es₁, es₂, hstep, hrest, rfl⟩ := Machine.run_cons.1 hrun
      obtain ⟨hstep, rfl⟩ := Machine.step_recorded.1 hstep
      obtain ⟨n₁, hfirst, hcount⟩ :=
        delivered_step hstep (hkeeps a List.mem_cons_self) hfeed hclean hle
      obtain ⟨n₂, hlater, hsupply⟩ := ih hrest hfirst.feeds hfirst.le hfirst.clean
        fun b hb => hkeeps b (List.mem_cons_of_mem _ hb)
      refine ⟨n₁ + n₂, hfirst.trans hlater, fun haccepted => ?_⟩
      obtain ⟨supply, htotal, hn₂⟩ := hsupply fun b hb => haccepted b (List.mem_cons_of_mem _ hb)
      have hn₁ := hcount (haccepted a List.mem_cons_self)
      refine ⟨a.supply s c + supply, by rw [htotal]; exact Nat.add_assoc _ _ _, ?_⟩
      -- what the first step leaves of the stream bounds what the others deliver
      simp only [SourceFeed.remaining] at hn₁ hn₂ ⊢
      omega

/-- **The flow of a stream.**  Over any run that neither sets the cursor of a source back nor has
segments corrupted, what the server accepts for it is, frame by frame, the stretch of its stream
that the cursor passes over; and if all of it is accepted, the cursor has come as far as the
requests for the source have asked for, or to the end of the stream. -/
theorem delivery {s : Int32} {as : List Action} {c c' : Client} {total : ℕ} {h : List Event}
    {feed : SourceFeed} (hrun : (supplying s).run (c, 0) as = some ((c', total), h))
    (hfeed : c.feeds s = some feed) (hle : feed.nextFrame ≤ feed.stream.frames.length)
    (hclean : c.corruptEvery = 0) (hkeeps : ∀ a ∈ as, a.Keeps s) :
    ∃ count, Advances s c' feed h count ∧
      ((∀ a ∈ as, a.Accepted s) → count = min feed.remaining total) := by
  obtain ⟨count, hadvances, hsupply⟩ := delivered_of_run hrun hfeed hle hclean hkeeps
  refine ⟨count, hadvances, fun haccepted => ?_⟩
  obtain ⟨supply, htotal, hcount⟩ := hsupply haccepted
  rw [hcount, htotal, Nat.zero_add]

/-- A client with two frames to feed, asked for one while it starves, for one it may not withhold,
and for one for another source in between. -/
def flowingRun : List Action :=
  [.app (.setStarve true), .need ⟨1, 1, 1, true⟩ acceptsAll, .app (.setStarve false),
    .need ⟨1, 1, 2, true⟩ acceptsAll, .need ⟨2, 9, 3, true⟩ (fun _ => .error), .cancel 1,
    .need ⟨1, 5, 4, true⟩ acceptsAll]

/-- Both frames arrive, as they are in the stream. -/
theorem delivery_flowingRun : ∃ c' h count, (supplying 1).run (twoFrameClient, 0) flowingRun =
      some ((c', 6), h) ∧ Advances 1 c' twoFrameFeed h count ∧ count = 2 ∧
        (delivered 1 h).map (fun segment => (segment.timeStamp, segment.data)) =
          [(0, [0]), (20, [1])] := by
  have hrun : (supplying 1).run (twoFrameClient, 0) flowingRun = some ((_, 6), _) := rfl
  have hkeeps : ∀ a ∈ flowingRun, a.Keeps 1 := by
    simp [flowingRun, Action.Keeps, AppOp.Resets]
  obtain ⟨count, hadvances, hcount⟩ := delivery hrun rfl (by decide) rfl hkeeps
  refine ⟨_, _, count, hrun, hadvances, (hcount ?_).trans rfl, rfl⟩
  simp [flowingRun, Action.Accepted]

end Feed
