/-
**A need-data request answered in one go.**

`notifyNeedMediaData` with nothing happening between its sections: the whole answer as a function
of the state and of the server's answers to `addSegment`, and the client as a machine whose steps
are whole requests, cancellations and calls of the application.

Main definitions:

* `Feed.Client.notifyNeedMediaData` — a whole request;
* `Feed.Event` — what a run of the client leaves in its history;
* `Feed.rounds` — the machine.

Main results:

* `Feed.openRound_fst`, `Feed.openRound_snd_of_feed`, `Feed.openRound_snd_of_unanswered` — what the
  first section does;
* `Feed.offerAll_spec` — **what offering a batch does**: segments are accepted up to the first one
  the server rejects, and the cursors do not move;
* `Feed.notifyNeedMediaData_of_unanswered`, `Feed.notifyNeedMediaData_of_starve`,
  `Feed.notifyNeedMediaData_of_feed` — **the three ways a request can go**.
-/
import RialtoConformance.Lib.Runs
import RialtoConformance.Feed.Client

set_option relaxedAutoImplicit false
set_option autoImplicit false

namespace Feed

open Runs

/-! ### The first section -/

/-- The first section records the request and counts the segments built. -/
theorem openRound_fst (c : Client) (need : NeedData) :
    ∃ n, (c.openRound need).1 = { c.recordNeed need with segmentsOffered := n } := by
  rw [Client.openRound]
  split
  · exact ⟨c.segmentsOffered, rfl⟩
  · split_ifs <;> exact ⟨_, rfl⟩

@[simp] theorem openRound_feeds (c : Client) (need : NeedData) :
    (c.openRound need).1.feeds = c.feeds := by
  obtain ⟨n, h⟩ := openRound_fst c need
  rw [h]
  rfl

@[simp] theorem openRound_pendingNeedData (c : Client) (need : NeedData) :
    (c.openRound need).1.pendingNeedData = insert need.sourceId c.pendingNeedData := by
  obtain ⟨n, h⟩ := openRound_fst c need
  rw [h]
  rfl

@[simp] theorem openRound_overlappingNeedData (c : Client) (need : NeedData) :
    (c.openRound need).1.overlappingNeedData =
      (c.overlappingNeedData || decide (need.sourceId ∈ c.pendingNeedData)) := by
  obtain ⟨n, h⟩ := openRound_fst c need
  rw [h]
  rfl

/-- A request is left unanswered, or there is a stream and a cursor to answer it from. -/
theorem unanswered_or_feed (c : Client) (need : NeedData) :
    (c.pipeline = false ∨ c.feeds need.sourceId = none ∨ c.withhold = true) ∨
      ∃ feed, c.pipeline = true ∧ c.feeds need.sourceId = some feed ∧ c.withhold = false := by
  cases hpipeline : c.pipeline with
  | false => exact Or.inl (Or.inl rfl)
  | true =>
      cases hwithhold : c.withhold with
      | true => exact Or.inl (Or.inr (Or.inr rfl))
      | false =>
          cases hfeed : c.feeds need.sourceId with
          | none => exact Or.inl (Or.inr (Or.inl rfl))
          | some feed => exact Or.inr ⟨feed, rfl, rfl, rfl⟩

/-- A request that nothing can or may answer leaves the callback at once. -/
theorem openRound_snd_of_unanswered {c : Client} {need : NeedData}
    (h : c.pipeline = false ∨ c.feeds need.sourceId = none ∨ c.withhold = true) :
    (c.openRound need).2 = .idle := by
  rw [Client.openRound, Client.buildBatch]
  rcases h with h | h | h
  · simp [h]
  · cases c.pipeline <;> simp [h]
  · split
    · rfl
    · simp [h]

/-- The offers of a request for a source with the stream and cursor `feed`. -/
def Client.offers (c : Client) (need : NeedData) (feed : SourceFeed) : List Offer :=
  (buildSegments need.sourceId feed.stream c.corruptEvery
    (feed.stream.frames.drop feed.nextFrame) feed.nextFrame
    (c.offerLimit need.frameCount).toNat c.segmentsOffered).1

/-- A request that can be answered is answered from the cursor on, or with nothing in starve
mode. -/
theorem openRound_snd_of_feed {c : Client} {need : NeedData} {feed : SourceFeed}
    (hpipeline : c.pipeline = true) (hfeed : c.feeds need.sourceId = some feed)
    (hwithhold : c.withhold = false) :
    (c.openRound need).2 =
      if c.starve then .starving need.sourceId need.requestId
      else .offering ⟨need.sourceId, need.requestId, feed.nextFrame, 0⟩ (c.offers need feed) := by
  simp only [Client.openRound, Client.buildBatch, hpipeline, hfeed, hwithhold, Bool.not_true,
    Bool.false_eq_true, if_false]
  split <;> rfl

theorem offers_frames (c : Client) (need : NeedData) (feed : SourceFeed) :
    (c.offers need feed).map Offer.frame = List.range' feed.nextFrame
      (min (feed.stream.frames.length - feed.nextFrame) (c.offerLimit need.frameCount).toNat) := by
  rw [Client.offers, buildSegments_frames, List.length_drop]

theorem offers_sourceId (c : Client) (need : NeedData) (feed : SourceFeed) :
    ∀ o ∈ c.offers need feed, o.segment.sourceId = need.sourceId :=
  buildSegments_sourceId _ _ _ _

/-! ### The sections behind the calls -/

@[simp] theorem noteAnswer_feeds (c : Client) (round : Round) (status : AddSegmentStatus) :
    (c.noteAnswer round status).1.feeds = c.feeds := by
  cases status with
  | ok => simp only [Client.noteAnswer]; split_ifs <;> rfl
  | noSpace => rfl
  | error => rfl

@[simp] theorem noteAnswer_pendingNeedData (c : Client) (round : Round)
    (status : AddSegmentStatus) :
    (c.noteAnswer round status).1.pendingNeedData = c.pendingNeedData := by
  cases status with
  | ok => simp only [Client.noteAnswer]; split_ifs <;> rfl
  | noSpace => rfl
  | error => rfl

@[simp] theorem noteAnswer_overlappingNeedData (c : Client) (round : Round)
    (status : AddSegmentStatus) :
    (c.noteAnswer round status).1.overlappingNeedData = c.overlappingNeedData := by
  cases status with
  | ok => simp only [Client.noteAnswer]; split_ifs <;> rfl
  | noSpace => rfl
  | error => rfl

theorem noteAnswer_snd (c : Client) (round : Round) (status : AddSegmentStatus) :
    (c.noteAnswer round status).2 =
      if status = .ok then { round with accepted := round.accepted + 1 } else round := by
  cases status <;> rfl

/-- The offers left behind an answer: none when the segment was rejected. -/
def restAfter (status : AddSegmentStatus) (rest : List Offer) : List Offer :=
  if status = .ok then rest else []

/-! ### The whole request -/

/-- The loop that offers a batch.  The answer to the `k`-th segment of the batch is `answers k`;
the loop stops behind the first one that is not accepted. -/
def Client.offerAll : List Offer → Client → Round → (ℕ → AddSegmentStatus) →
    Client × Round × List PipelineCall
  | [], c, round, _ => (c, round, [])
  | offer :: rest, c, round, answers =>
      let status := answers round.accepted
      let noted := c.noteAnswer round status
      let call := .addSegment round.requestId offer status
      if status = .ok then
        let later := offerAll rest noted.1 noted.2 answers
        (later.1, later.2.1, call :: later.2.2)
      else (noted.1, noted.2, [call])

/-- **`notifyNeedMediaData`**: the state after a request, and the calls made for it. -/
def Client.notifyNeedMediaData (c : Client) (need : NeedData) (answers : ℕ → AddSegmentStatus) :
    Client × List PipelineCall :=
  let opened := c.openRound need
  match opened.2 with
  | .starving sourceId requestId => (opened.1.settle sourceId, [.haveData .ok requestId])
  | .offering round offers =>
      let offered := opened.1.offerAll offers round answers
      let closed := offered.1.closeRound offered.2.1
      (closed.1, offered.2.2 ++ [.haveData closed.2 round.requestId])
  | _ => (opened.1, [])

/-- The calls that offer a batch of which `count` segments are accepted: those, and then the one
behind them, if any, which is not. -/
def SegmentCalls (requestId : UInt32) (offers : List Offer) (count : ℕ)
    (calls : List PipelineCall) : Prop :=
  calls = offers.map (fun o => .addSegment requestId o .ok) ∧ count = offers.length ∨
    ∃ offer status, offers[count]? = some offer ∧ status ≠ .ok ∧
      calls = (offers.take count).map (fun o => .addSegment requestId o .ok) ++
        [.addSegment requestId offer status]

theorem SegmentCalls.exists_offer {requestId : UInt32} {offers : List Offer} {count : ℕ}
    {calls : List PipelineCall} (h : SegmentCalls requestId offers count calls) :
    ∀ call ∈ calls, ∃ o ∈ offers, ∃ status, call = .addSegment requestId o status := by
  intro call hcall
  rcases h with ⟨rfl, -⟩ | ⟨offer, status, hoffer, -, rfl⟩
  · obtain ⟨o, ho, rfl⟩ := List.mem_map.1 hcall
    exact ⟨o, ho, .ok, rfl⟩
  · rw [List.mem_append, List.mem_singleton] at hcall
    rcases hcall with hcall | rfl
    · obtain ⟨o, ho, rfl⟩ := List.mem_map.1 hcall
      exact ⟨o, List.mem_of_mem_take ho, .ok, rfl⟩
    · exact ⟨offer, List.mem_of_getElem? hoffer, status, rfl⟩

/-- What offering a batch amounts to. -/
structure Offered (c : Client) (round : Round) (offers : List Offer)
    (result : Client × Round × List PipelineCall) (count : ℕ) : Prop where
  /-- The cursors have not moved. -/
  feeds : result.1.feeds = c.feeds
  /-- No request has been answered. -/
  pending : result.1.pendingNeedData = c.pendingNeedData
  /-- No overlap has been flagged. -/
  overlapping : result.1.overlappingNeedData = c.overlappingNeedData
  /-- The segments accepted are counted. -/
  round_eq : result.2.1 = { round with accepted := round.accepted + count }
  /-- The calls made. -/
  calls : SegmentCalls round.requestId offers count result.2.2

/-- **What offering a batch does.** -/
theorem offerAll_spec : ∀ (offers : List Offer) (c : Client) (round : Round)
    (answers : ℕ → AddSegmentStatus),
      ∃ count, Offered c round offers (c.offerAll offers round answers) count := by
  intro offers
  induction offers with
  | nil =>
      intro c round answers
      exact ⟨0, rfl, rfl, rfl, rfl, Or.inl ⟨rfl, rfl⟩⟩
  | cons offer rest ih =>
      intro c round answers
      -- the loop goes on behind an accepted segment only
      by_cases hok : answers round.accepted = .ok
      · have hround : (c.noteAnswer round (answers round.accepted)).2 =
            { round with accepted := round.accepted + 1 } := by
          rw [noteAnswer_snd, if_pos hok]
        obtain ⟨count, h⟩ := ih (c.noteAnswer round (answers round.accepted)).1
          { round with accepted := round.accepted + 1 } answers
        have heq : c.offerAll (offer :: rest) round answers =
            (((c.noteAnswer round (answers round.accepted)).1.offerAll rest
                { round with accepted := round.accepted + 1 } answers).1,
              ((c.noteAnswer round (answers round.accepted)).1.offerAll rest
                { round with accepted := round.accepted + 1 } answers).2.1,
              .addSegment round.requestId offer .ok ::
                ((c.noteAnswer round (answers round.accepted)).1.offerAll rest
                  { round with accepted := round.accepted + 1 } answers).2.2) := by
          rw [Client.offerAll, if_pos hok, hround, hok]
        rw [heq]
        refine ⟨count + 1, ?_, ?_, ?_, ?_, ?_⟩
        · rw [h.feeds, noteAnswer_feeds]
        · rw [h.pending, noteAnswer_pendingNeedData]
        · rw [h.overlapping, noteAnswer_overlappingNeedData]
        · rw [h.round_eq]
          simp only [Round.mk.injEq, true_and]
          omega
        · rcases h.calls with ⟨hcalls, hall⟩ | ⟨o, status, ho, hstatus, hcalls⟩
          · left
            exact ⟨by rw [hcalls, List.map_cons], by rw [hall]; rfl⟩
          · right
            exact ⟨o, status, by simpa using ho, hstatus, by rw [hcalls]; rfl⟩
      · have heq : c.offerAll (offer :: rest) round answers =
            ((c.noteAnswer round (answers round.accepted)).1, round,
              [.addSegment round.requestId offer (answers round.accepted)]) := by
          rw [Client.offerAll, if_neg hok, noteAnswer_snd, if_neg hok]
        rw [heq]
        refine ⟨0, noteAnswer_feeds .., noteAnswer_pendingNeedData ..,
          noteAnswer_overlappingNeedData .., rfl, ?_⟩
        exact Or.inr ⟨offer, answers round.accepted, rfl, hok, rfl⟩

/-- A request left unanswered. -/
theorem notifyNeedMediaData_of_unanswered {c : Client} {need : NeedData}
    (answers : ℕ → AddSegmentStatus)
    (h : c.pipeline = false ∨ c.feeds need.sourceId = none ∨ c.withhold = true) :
    c.notifyNeedMediaData need answers = ((c.openRound need).1, []) := by
  simp only [Client.notifyNeedMediaData, openRound_snd_of_unanswered h]

/-- A request answered in starve mode. -/
theorem notifyNeedMediaData_of_starve {c : Client} {need : NeedData} {feed : SourceFeed}
    (answers : ℕ → AddSegmentStatus) (hpipeline : c.pipeline = true)
    (hfeed : c.feeds need.sourceId = some feed) (hwithhold : c.withhold = false)
    (hstarve : c.starve = true) :
    c.notifyNeedMediaData need answers =
      ((c.openRound need).1.settle need.sourceId, [.haveData .ok need.requestId]) := by
  have hopen := openRound_snd_of_feed hpipeline hfeed hwithhold
  rw [if_pos hstarve] at hopen
  simp only [Client.notifyNeedMediaData, hopen]

/-- What answering a request from the stream and cursor `feed` amounts to, when `count` of its
segments are accepted. -/
structure Answered (c : Client) (need : NeedData) (feed : SourceFeed)
    (result : Client × List PipelineCall) (count : ℕ) : Prop where
  /-- The cursor of the source has moved past the segments accepted, the others have not moved. -/
  feeds : result.1.feeds = Function.update c.feeds need.sourceId
    (some { feed with nextFrame := feed.nextFrame + count })
  /-- The request is no longer outstanding. -/
  pending : result.1.pendingNeedData = c.pendingNeedData.erase need.sourceId
  /-- An overlap has been flagged. -/
  overlapping : result.1.overlappingNeedData =
    (c.overlappingNeedData || decide (need.sourceId ∈ c.pendingNeedData))
  /-- The calls made: the segments offered, and the status. -/
  calls : ∃ calls, SegmentCalls need.requestId (c.offers need feed) count calls ∧
    result.2 = calls ++ [.haveData
      (if feed.nextFrame + count ≥ feed.stream.frames.length then .eos else .ok) need.requestId]

/-- **A request answered with segments.** -/
theorem notifyNeedMediaData_of_feed {c : Client} {need : NeedData} {feed : SourceFeed}
    (answers : ℕ → AddSegmentStatus) (hpipeline : c.pipeline = true)
    (hfeed : c.feeds need.sourceId = some feed) (hwithhold : c.withhold = false)
    (hstarve : c.starve = false) :
    ∃ count, Answered c need feed (c.notifyNeedMediaData need answers) count := by
  have hopen := openRound_snd_of_feed hpipeline hfeed hwithhold
  rw [if_neg (by simp [hstarve])] at hopen
  obtain ⟨count, h⟩ := offerAll_spec (c.offers need feed) (c.openRound need).1
    ⟨need.sourceId, need.requestId, feed.nextFrame, 0⟩ answers
  refine ⟨count, ?_⟩
  set offered := (c.openRound need).1.offerAll (c.offers need feed)
    ⟨need.sourceId, need.requestId, feed.nextFrame, 0⟩ answers
  have hround := h.round_eq
  have hfeeds : offered.1.feeds offered.2.1.sourceId = some feed := by
    rw [h.feeds, openRound_feeds, hround, hfeed]
  have hnotify : c.notifyNeedMediaData need answers =
      ((offered.1.closeRound offered.2.1).1,
        offered.2.2 ++ [.haveData (offered.1.closeRound offered.2.1).2 need.requestId]) := by
    simp only [Client.notifyNeedMediaData, hopen]
    rfl
  rw [hnotify, Client.closeRound, hfeeds]
  rw [hround, Nat.zero_add]
  constructor
  · simp only [h.feeds, openRound_feeds]
  · simp only [Client.settle, h.pending, openRound_pendingNeedData]
    exact Finset.erase_insert_eq_erase _ _
  · simp only [Client.settle, h.overlapping, openRound_overlappingNeedData]
  · exact ⟨offered.2.2, h.calls, rfl⟩

/-! ### Runs of whole requests -/

/-- What a run of the client leaves in its history. -/
inductive Event
  | app (op : AppOp)
  | need (need : NeedData)
  | cancel (sourceId : Int32)
  | call (call : PipelineCall)
  deriving DecidableEq

/-- A step of the client: a call of the application, a whole request with the server's answers to
its segments, or a cancellation. -/
inductive Action
  | app (op : AppOp)
  | need (need : NeedData) (answers : ℕ → AddSegmentStatus)
  | cancel (sourceId : Int32)

/-- **The client as a machine** whose requests are answered in one go. -/
def rounds : Machine Client Action Event where
  step c
    | .app op => some (op.apply c, [.app op])
    | .need need answers =>
        let result := c.notifyNeedMediaData need answers
        some (result.1, .need need :: result.2.map .call)
    | .cancel sourceId => some (c.notifyCancelNeedMediaData sourceId, [.cancel sourceId])

end Feed
