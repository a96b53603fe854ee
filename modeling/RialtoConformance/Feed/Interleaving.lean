/-
**A need-data request and the application, section by section.**

The callback thread answers one request at a time, and between any two sections of it the
application may call.  The client as a machine whose steps are single sections: an uninterrupted
run of them is the whole request, and an interrupted one may move a cursor that has been set back
meanwhile.

Main definitions:

* `Feed.Threads`, `Feed.sections` — the state of both threads, and the machine;
* `Feed.Activity.Spoils` — the request in flight is going to move the cursor of a source;
* `Feed.CursorAtZero` — the cursor of a source is at the first frame;
* `Feed.FirstRequest`, `Feed.ResetsKept` — the first request behind a reset, and what it builds.

Main results:

* `Feed.run_whole_request`, `Feed.sections_of_rounds` — **an uninterrupted request is the whole
  request**;
* `Feed.stepped_of_step`, `Feed.advanced_of_advance` — **what a section does**;
* `Feed.cursorAtZero_run` — what the sections after a call do to a cursor;
* `Feed.resetsKept_iff` — **when setting a cursor back is not lost**.
-/
import RialtoConformance.Lib.Deferral
import RialtoConformance.Feed.Round

set_option relaxedAutoImplicit false
set_option autoImplicit false

namespace Feed

open Runs

/-! ### The machine -/

/-- The client, and where its callback thread stands. -/
structure Threads where
  client : Client
  activity : Activity

/-- A step of one of the threads. -/
inductive Section
  /-- A call of the application. -/
  | app (op : AppOp)
  /-- The first section of a request. -/
  | need (need : NeedData)
  /-- A cancellation. -/
  | cancel (sourceId : Int32)
  /-- The next section of the request in flight; where it offers a segment, the server answers
  `status`. -/
  | advance (status : AddSegmentStatus)
  deriving DecidableEq

/-- The next section of the request in flight. -/
def Threads.advance (t : Threads) (status : AddSegmentStatus) : Option (Threads × List Event) :=
  match t.activity with
  | .idle => none
  | .starving sourceId requestId => some (⟨t.client.settle sourceId, .answering .ok requestId⟩, [])
  | .offering round [] =>
      let closed := t.client.closeRound round
      some (⟨closed.1, .answering closed.2 round.requestId⟩, [])
  | .offering round (offer :: rest) =>
      some (⟨t.client, .noting round status rest⟩,
        [.call (.addSegment round.requestId offer status)])
  | .noting round status rest =>
      let noted := t.client.noteAnswer round status
      some (⟨noted.1, .offering noted.2 (restAfter status rest)⟩, [])
  | .answering status requestId => some (⟨t.client, .idle⟩, [.call (.haveData status requestId)])

/-- **The client as a machine of sections.**  Callbacks are delivered one at a time. -/
def sections : Machine Threads Section Event where
  step t
    | .app op => some (⟨op.apply t.client, t.activity⟩, [.app op])
    | .need need =>
        if t.activity = .idle then
          let opened := t.client.openRound need
          some (⟨opened.1, opened.2⟩, [.need need])
        else none
    | .cancel sourceId =>
        if t.activity = .idle then
          some (⟨t.client.notifyCancelNeedMediaData sourceId, .idle⟩, [.cancel sourceId])
        else none
    | .advance status => t.advance status

/-- **What a section of the request in flight does.** -/
inductive Advanced : Threads → AddSegmentStatus → Threads → List Event → Prop
  | settle (c : Client) (sourceId : Int32) (requestId : UInt32) (status : AddSegmentStatus) :
      Advanced ⟨c, .starving sourceId requestId⟩ status
        ⟨c.settle sourceId, .answering .ok requestId⟩ []
  | close (c : Client) (round : Round) (status : AddSegmentStatus) :
      Advanced ⟨c, .offering round []⟩ status
        ⟨(c.closeRound round).1, .answering (c.closeRound round).2 round.requestId⟩ []
  | offer (c : Client) (round : Round) (offer : Offer) (rest : List Offer)
      (status : AddSegmentStatus) :
      Advanced ⟨c, .offering round (offer :: rest)⟩ status ⟨c, .noting round status rest⟩
        [.call (.addSegment round.requestId offer status)]
  | note (c : Client) (round : Round) (answer : AddSegmentStatus) (rest : List Offer)
      (status : AddSegmentStatus) :
      Advanced ⟨c, .noting round answer rest⟩ status
        ⟨(c.noteAnswer round answer).1,
          .offering (c.noteAnswer round answer).2 (restAfter answer rest)⟩ []
  | answer (c : Client) (answer : MediaSourceStatus) (requestId : UInt32)
      (status : AddSegmentStatus) :
      Advanced ⟨c, .answering answer requestId⟩ status ⟨c, .idle⟩
        [.call (.haveData answer requestId)]

/-- The sections of a request are these. -/
theorem advanced_of_advance {t t' : Threads} {status : AddSegmentStatus} {es : List Event}
    (h : t.advance status = some (t', es)) : Advanced t status t' es := by
  obtain ⟨c, act⟩ := t
  cases act with
  | idle => simp [Threads.advance] at h
  | starving sourceId requestId =>
      obtain ⟨rfl, rfl⟩ := Prod.mk.inj (Option.some.inj h)
      exact .settle c sourceId requestId status
  | offering round rest =>
      cases rest with
      | nil =>
          obtain ⟨rfl, rfl⟩ := Prod.mk.inj (Option.some.inj h)
          exact .close c round status
      | cons offer rest =>
          obtain ⟨rfl, rfl⟩ := Prod.mk.inj (Option.some.inj h)
          exact .offer c round offer rest status
  | noting round answer rest =>
      obtain ⟨rfl, rfl⟩ := Prod.mk.inj (Option.some.inj h)
      exact .note c round answer rest status
  | answering answer requestId =>
      obtain ⟨rfl, rfl⟩ := Prod.mk.inj (Option.some.inj h)
      exact .answer c answer requestId status

/-- **What a section does.** -/
inductive Stepped : Threads → Section → Threads → List Event → Prop
  | app (c : Client) (act : Activity) (op : AppOp) :
      Stepped ⟨c, act⟩ (.app op) ⟨op.apply c, act⟩ [.app op]
  | need (c : Client) (need : NeedData) :
      Stepped ⟨c, .idle⟩ (.need need) ⟨(c.openRound need).1, (c.openRound need).2⟩ [.need need]
  | cancel (c : Client) (sourceId : Int32) :
      Stepped ⟨c, .idle⟩ (.cancel sourceId) ⟨c.notifyCancelNeedMediaData sourceId, .idle⟩
        [.cancel sourceId]
  | advance {t t' : Threads} {status : AddSegmentStatus} {es : List Event}
      (h : t.advance status = some (t', es)) : Stepped t (.advance status) t' es

/-- The steps of the machine are these. -/
theorem stepped_of_step {t t' : Threads} {a : Section} {es : List Event}
    (h : sections.step t a = some (t', es)) : Stepped t a t' es := by
  obtain ⟨c, act⟩ := t
  cases a with
  | app op =>
      obtain ⟨rfl, rfl⟩ := Prod.mk.inj (Option.some.inj h)
      exact .app c act op
  | need need =>
      simp only [sections] at h
      split_ifs at h with hidle
      obtain ⟨rfl, rfl⟩ := Prod.mk.inj (Option.some.inj h)
      rw [hidle]
      exact .need c need
  | cancel sourceId =>
      simp only [sections] at h
      split_ifs at h with hidle
      obtain ⟨rfl, rfl⟩ := Prod.mk.inj (Option.some.inj h)
      rw [hidle]
      exact .cancel c sourceId
  | advance status => exact .advance h

/-! ### An uninterrupted request -/

theorem run_offerAll (answers : ℕ → AddSegmentStatus) : ∀ (offers : List Offer) (c : Client)
    (round : Round), ∃ as : List Section, (∀ a ∈ as, ∃ status, a = .advance status) ∧
      sections.run ⟨c, .offering round offers⟩ as =
        some (⟨(c.offerAll offers round answers).1,
          .offering (c.offerAll offers round answers).2.1 []⟩,
          (c.offerAll offers round answers).2.2.map .call) := by
  intro offers
  induction offers with
  | nil =>
      intro c round
      exact ⟨[], by simp, rfl⟩
  | cons offer rest ih =>
      intro c round
      set status := answers round.accepted with hstatus
      set noted := c.noteAnswer round status with hnoted
      have hfirst : sections.run ⟨c, .offering round (offer :: rest)⟩
          [.advance status, .advance status] =
            some (⟨noted.1, .offering noted.2 (restAfter status rest)⟩,
              [.call (.addSegment round.requestId offer status)]) := rfl
      by_cases hok : status = .ok
      · obtain ⟨as, has, hrun⟩ := ih noted.1 noted.2
        have hoffer : c.offerAll (offer :: rest) round answers =
            ((noted.1.offerAll rest noted.2 answers).1,
              (noted.1.offerAll rest noted.2 answers).2.1,
              .addSegment round.requestId offer status ::
                (noted.1.offerAll rest noted.2 answers).2.2) := by
          rw [Client.offerAll, ← hstatus, if_pos hok]
        refine ⟨[.advance status, .advance status] ++ as, ?_, ?_⟩
        · intro a ha
          rcases List.mem_append.1 ha with ha | ha
          · exact ⟨status, by simpa using ha⟩
          · exact has a ha
        · rw [restAfter, if_pos hok] at hfirst
          rw [hoffer]
          exact Machine.run_append.2 ⟨_, _, _, hfirst, hrun, rfl⟩
      · have hoffer : c.offerAll (offer :: rest) round answers =
            (noted.1, noted.2, [.addSegment round.requestId offer status]) := by
          rw [Client.offerAll, ← hstatus, if_neg hok]
        refine ⟨[.advance status, .advance status], ?_, ?_⟩
        · intro a ha
          exact ⟨status, by simpa using ha⟩
        · rw [restAfter, if_neg hok] at hfirst
          rw [hoffer]
          exact hfirst

/-- **An uninterrupted request is the whole request.** -/
theorem run_whole_request (c : Client) (need : NeedData) (answers : ℕ → AddSegmentStatus) :
    ∃ as : List Section, (∀ a ∈ as, ∃ status, a = .advance status) ∧
      sections.run ⟨c, .idle⟩ (.need need :: as) =
        some (⟨(c.notifyNeedMediaData need answers).1, .idle⟩,
          .need need :: (c.notifyNeedMediaData need answers).2.map .call) := by
  have hopen : sections.step ⟨c, .idle⟩ (.need need) =
      some (⟨(c.openRound need).1, (c.openRound need).2⟩, [.need need]) := rfl
  rcases unanswered_or_feed c need with hunanswered | ⟨feed, hpipeline, hfeed, hwithhold⟩
  · rw [openRound_snd_of_unanswered hunanswered] at hopen
    rw [notifyNeedMediaData_of_unanswered answers hunanswered]
    exact ⟨[], by simp, Machine.run_singleton.2 hopen⟩
  · have hact := openRound_snd_of_feed hpipeline hfeed hwithhold
    cases hstarve : c.starve with
    | true =>
        rw [hstarve, if_pos rfl] at hact
        rw [hact] at hopen
        rw [notifyNeedMediaData_of_starve answers hpipeline hfeed hwithhold hstarve]
        refine ⟨[.advance .ok, .advance .ok], by simp, ?_⟩
        exact Machine.run_cons.2 ⟨_, _, _, hopen, rfl, rfl⟩
    | false =>
        rw [hstarve, if_neg (by simp)] at hact
        rw [hact] at hopen
        obtain ⟨as, has, hrun⟩ := run_offerAll answers (c.offers need feed) (c.openRound need).1
          ⟨need.sourceId, need.requestId, feed.nextFrame, 0⟩
        refine ⟨as ++ [.advance .ok, .advance .ok], ?_, ?_⟩
        · intro a ha
          rcases List.mem_append.1 ha with ha | ha
          · exact has a ha
          · exact ⟨.ok, by simpa using ha⟩
        · set offered := (c.openRound need).1.offerAll (c.offers need feed)
            ⟨need.sourceId, need.requestId, feed.nextFrame, 0⟩ answers with hoffered
          have hclose : sections.run ⟨offered.1, .offering offered.2.1 []⟩
              [.advance .ok, .advance .ok] =
                some (⟨(offered.1.closeRound offered.2.1).1, .idle⟩, [.call (.haveData
                  (offered.1.closeRound offered.2.1).2 offered.2.1.requestId)]) := rfl
          have hid : offered.2.1.requestId = need.requestId := by
            obtain ⟨count, h⟩ := offerAll_spec (c.offers need feed) (c.openRound need).1
              ⟨need.sourceId, need.requestId, feed.nextFrame, 0⟩ answers
            rw [hoffered, h.round_eq]
          have hnotify : c.notifyNeedMediaData need answers =
              ((offered.1.closeRound offered.2.1).1, offered.2.2 ++
                [.haveData (offered.1.closeRound offered.2.1).2 need.requestId]) := by
            simp only [Client.notifyNeedMediaData, hact]
            rfl
          rw [hid] at hclose
          rw [hnotify, List.map_append]
          exact Machine.run_cons.2 ⟨_, _, _, hopen,
            Machine.run_append.2 ⟨_, _, _, hrun, hclose, rfl⟩, rfl⟩

def Section.isApp : Section → Bool
  | .app _ => true
  | _ => false

/-- **Whole requests are interleaved with nothing**: a run of them is a run of sections in which the
application calls while no request is in flight. -/
theorem sections_of_rounds : ∀ {bs : List Action} {c c' : Client} {h : List Event},
    rounds.run c bs = some (c', h) →
      ∃ as, sections.Deferrable Section.isApp (fun t _ => t.activity = .idle) ⟨c, .idle⟩ as ∧
        sections.run ⟨c, .idle⟩ as = some (⟨c', .idle⟩, h) := by
  intro bs
  induction bs with
  | nil =>
      intro c c' h hrun
      obtain ⟨rfl, rfl⟩ := Prod.mk.inj (Option.some.inj hrun)
      exact ⟨[], Machine.deferrable_of_forall (by simp), rfl⟩
  | cons b bs ih =>
      intro c c' h hrun
      obtain ⟨d, es₁, es₂, hstep, hrest, rfl⟩ := Machine.run_cons.1 hrun
      obtain ⟨as, hidle, has⟩ := ih hrest
      cases b with
      | app op =>
          obtain ⟨rfl, rfl⟩ := Prod.mk.inj (Option.some.inj hstep)
          exact ⟨.app op :: as, .cons (fun _ => rfl) rfl hidle,
            Machine.run_cons.2 ⟨_, _, _, rfl, has, rfl⟩⟩
      | cancel s =>
          obtain ⟨rfl, rfl⟩ := Prod.mk.inj (Option.some.inj hstep)
          exact ⟨.cancel s :: as, .cons (fun _ => rfl) rfl hidle,
            Machine.run_cons.2 ⟨_, _, _, rfl, has, rfl⟩⟩
      | need need answers =>
          obtain ⟨rfl, rfl⟩ := Prod.mk.inj (Option.some.inj hstep)
          obtain ⟨ws, hws, hrun⟩ := run_whole_request c need answers
          have hnone : ∀ a ∈ Section.need need :: ws, a.isApp = false := by
            intro a ha
            rcases List.mem_cons.1 ha with rfl | ha
            · rfl
            · obtain ⟨status, rfl⟩ := hws a ha
              rfl
          exact ⟨.need need :: ws ++ as,
            (Machine.deferrable_of_forall hnone).append hrun hidle,
            Machine.run_append.2 ⟨_, _, _, hrun, has, rfl⟩⟩

/-! ### A cursor that is set back -/

/-- The answer of the server to the next segment offered in these steps. -/
def firstAnswer : List Section → AddSegmentStatus
  | [] => .error
  | .advance status :: _ => status
  | _ :: as => firstAnswer as

/-- The request in flight is going to move the cursor of the source `s`: it is a request for `s`
that has had a segment accepted, or is about to, `next` being the answer to its next segment. -/
def Activity.Spoils (s : Int32) (next : AddSegmentStatus) : Activity → Prop
  | .offering round rest =>
      round.sourceId = s ∧ (round.accepted ≠ 0 ∨ rest ≠ [] ∧ next = .ok)
  | .noting round status _ => round.sourceId = s ∧ (round.accepted ≠ 0 ∨ status = .ok)
  | _ => False

/-- The cursor of a source is at the first frame. -/
def CursorAtZero (s : Int32) (c : Client) : Prop :=
  ∃ feed, c.feeds s = some feed ∧ feed.nextFrame = 0

/-- A step that sets the cursor of `s` back. -/
def Section.Resets (s : Int32) : Section → Prop
  | .app op => op.Resets s
  | _ => False

/-- A step that starts a request for `s`. -/
def Section.Starts (s : Int32) : Section → Prop
  | .need request => request.sourceId = s
  | _ => False

/-- The section that closes a request moves the cursor of its source only, and by the number of
segments accepted. -/
theorem closeRound_cursor (s : Int32) (c : Client) (round : Round) :
    CursorAtZero s (c.closeRound round).1 ↔
      CursorAtZero s c ∧ ¬ (round.sourceId = s ∧ round.accepted ≠ 0) := by
  simp only [CursorAtZero, Client.closeRound]
  cases hround : c.feeds round.sourceId with
  | none =>
      simp only [Client.settle]
      constructor
      · rintro ⟨feed, hfeed, hzero⟩
        refine ⟨⟨feed, hfeed, hzero⟩, ?_⟩
        rintro ⟨rfl, -⟩
        rw [hround] at hfeed
        simp at hfeed
      · exact fun h => h.1
  | some old =>
      simp only
      by_cases hs : round.sourceId = s
      · subst hs
        rw [Function.update_self, hround]
        simp
      · rw [Function.update_of_ne (Ne.symm hs)]
        simp [hs]

theorem closeRound_isSome (s : Int32) (c : Client) (round : Round) :
    ((c.closeRound round).1.feeds s).isSome = (c.feeds s).isSome := by
  simp only [Client.closeRound]
  cases hround : c.feeds round.sourceId with
  | none => rfl
  | some old =>
      simp only
      by_cases hs : round.sourceId = s
      · subst hs
        rw [Function.update_self, hround]
        rfl
      · rw [Function.update_of_ne (Ne.symm hs)]

theorem not_spoils_openRound {s : Int32} {c : Client} {need : NeedData} (h : need.sourceId ≠ s)
    (next : AddSegmentStatus) : ¬ (c.openRound need).2.Spoils s next := by
  rw [Client.openRound]
  split
  · exact id
  · split_ifs
    · exact id
    · exact id
    · exact fun hspoils => h hspoils.1

/-- **What one step does to a cursor**, when it neither sets it back nor starts a request for its
source: the cursor is at the first frame and stays there exactly when it was there and the request
in flight was not going to move it. -/
theorem cursorAtZero_step {s : Int32} {t t' : Threads} {a : Section} {as : List Section}
    {es : List Event} (hreset : ¬ a.Resets s) (hstart : ¬ a.Starts s)
    (hstep : sections.step t a = some (t', es)) :
    (CursorAtZero s t'.client ∧ ¬ t'.activity.Spoils s (firstAnswer as) ↔
      CursorAtZero s t.client ∧ ¬ t.activity.Spoils s (firstAnswer (a :: as))) ∧
      (t'.client.feeds s).isSome = (t.client.feeds s).isSome := by
  have hfeeds : ∀ {c c' : Client}, c'.feeds = c.feeds →
      (CursorAtZero s c' ↔ CursorAtZero s c) ∧ (c'.feeds s).isSome = (c.feeds s).isSome := by
    intro c c' h
    simp only [CursorAtZero, h, and_self]
  cases stepped_of_step hstep with
  | app c act op =>
      -- the application cannot touch what the callback keeps between its sections
      have hsame : (op.apply c).feeds s = c.feeds s := apply_feeds_of_not_resets hreset
      simp only [CursorAtZero, hsame, firstAnswer, and_self]
  | need c need =>
      obtain ⟨hcursor, hsome⟩ := hfeeds (openRound_feeds c need)
      refine ⟨?_, hsome⟩
      have hopen : ¬ (c.openRound need).2.Spoils s (firstAnswer as) := not_spoils_openRound hstart _
      have hbefore : ¬ Activity.idle.Spoils s (firstAnswer (.need need :: as)) := id
      simp only [hcursor, hopen, hbefore]
  | cancel c sourceId =>
      obtain ⟨hcursor, hsome⟩ := @hfeeds c (c.notifyCancelNeedMediaData sourceId) rfl
      refine ⟨?_, hsome⟩
      simp only [hcursor, Activity.Spoils]
  | advance hadvance =>
      cases advanced_of_advance hadvance with
      | settle c sourceId requestId =>
          obtain ⟨hcursor, hsome⟩ := @hfeeds c (c.settle sourceId) rfl
          refine ⟨?_, hsome⟩
          simp only [hcursor, Activity.Spoils]
      | close c round =>
          refine ⟨?_, closeRound_isSome s c round⟩
          simp only [closeRound_cursor, Activity.Spoils, ne_eq, not_true_eq_false, false_and,
            or_false, not_false_eq_true, and_true]
      | offer c round offer rest =>
          -- the answer that was to come has come
          simp [firstAnswer, Activity.Spoils]
      | note c round answer rest =>
          obtain ⟨hcursor, hsome⟩ := hfeeds (noteAnswer_feeds c round answer)
          refine ⟨?_, hsome⟩
          simp only [hcursor, noteAnswer_snd, Activity.Spoils, restAfter]
          by_cases hok : answer = .ok
          · simp [hok]
          · simp [hok]
      | answer c answer requestId => simp only [Activity.Spoils, and_self]

/-- **What the sections after a call do to a cursor.** -/
theorem cursorAtZero_run {s : Int32} : ∀ {as : List Section} {t t' : Threads} {es : List Event},
    (∀ a ∈ as, ¬ a.Resets s) → (∀ a ∈ as, ¬ a.Starts s) → sections.run t as = some (t', es) →
      t'.activity = .idle →
        (CursorAtZero s t'.client ↔
          CursorAtZero s t.client ∧ ¬ t.activity.Spoils s (firstAnswer as)) ∧
          (t'.client.feeds s).isSome = (t.client.feeds s).isSome := by
  intro as
  induction as with
  | nil =>
      intro t t' es _ _ hrun hidle
      obtain ⟨rfl, -⟩ := Prod.mk.inj (Option.some.inj hrun)
      simp [hidle, Activity.Spoils]
  | cons a as ih =>
      intro t t' es hreset hstart hrun hidle
      obtain ⟨u, es₁, es₂, hstep, hrest, -⟩ := Machine.run_cons.1 hrun
      obtain ⟨hcursor, hsome⟩ := @cursorAtZero_step s t u a as es₁ (hreset a (by simp))
        (hstart a (by simp)) hstep
      obtain ⟨hcursor', hsome'⟩ := ih (fun b hb => hreset b (List.mem_cons_of_mem _ hb))
        (fun b hb => hstart b (List.mem_cons_of_mem _ hb)) hrest hidle
      exact ⟨hcursor'.trans hcursor, hsome'.trans hsome⟩

/-! ### The first request behind a reset -/

/-- In the run `as`, which begins with the threads at `t`, a call `op` sets the cursor of `s` back
with the threads at `v`; behind it come the steps `mid`, and then `need`, the first request for `s`
to be started, with the threads at `u`. -/
structure FirstRequest (s : Int32) (t : Threads) (as : List Section) (v : Threads) (op : AppOp)
    (mid : List Section) (u : Threads) (need : NeedData) : Prop where
  before : ∃ done rest es, as = done ++ (.app op :: (mid ++ .need need :: rest)) ∧
    sections.run t done = some (v, es)
  between : ∃ es, sections.run v (.app op :: mid) = some (u, es)
  resets : op.Resets s
  source : need.sourceId = s
  first : ∀ a ∈ mid, ¬ a.Starts s
  idle : u.activity = .idle

/-- A batch begins with the first frame of the stream and skips none. -/
def Batch.FromZero (b : Batch) : Prop :=
  b.firstFrame = 0 ∧ b.offers.map Offer.frame = List.range b.offers.length

/-- Whenever a request builds a batch behind a reset of its source, and is the first one to, the
batch begins with the first frame. -/
def ResetsKept (s : Int32) (t : Threads) (as : List Section) : Prop :=
  ∀ v op mid u need, FirstRequest s t as v op mid u need →
    ∀ b, (u.client.buildBatch need).1 = some b → b.FromZero

/-- No request for `s` that is in flight at its last reset before such a request is going to move
the cursor of `s`. -/
def NeverSpoilt (s : Int32) (t : Threads) (as : List Section) : Prop :=
  ∀ v op mid u need, FirstRequest s t as v op mid u need → (∀ a ∈ mid, ¬ a.Resets s) →
    u.client.pipeline = true → u.client.feeds s ≠ none → ¬ v.activity.Spoils s (firstAnswer mid)

theorem offers_frames_of_zero {c : Client} {need : NeedData} {feed : SourceFeed}
    (hzero : feed.nextFrame = 0) :
    (c.offers need feed).map Offer.frame = List.range (c.offers need feed).length := by
  have hframes := offers_frames c need feed
  rw [hzero, ← List.range_eq_range'] at hframes
  have hlength := congrArg List.length hframes
  rw [List.length_map, List.length_range] at hlength
  rw [hframes, hlength]

/-- A request builds a batch exactly when there is a pipeline and a stream, and the batch begins
with the first frame exactly when the cursor is there. -/
theorem fromZero_iff (c : Client) (need : NeedData) :
    (∀ b, (c.buildBatch need).1 = some b → b.FromZero) ↔
      (c.pipeline = true → c.feeds need.sourceId ≠ none → CursorAtZero need.sourceId c) := by
  simp only [Client.buildBatch]
  cases hpipeline : c.pipeline with
  | false => simp
  | true =>
      cases hfeed : c.feeds need.sourceId with
      | none => simp
      | some feed =>
          simp only [Bool.not_true, Bool.false_eq_true, if_false, Option.some.injEq, forall_eq',
            forall_const, ne_eq, reduceCtorEq, not_false_eq_true, Batch.FromZero, CursorAtZero,
            hfeed, exists_eq_left']
          constructor
          · exact fun h => h.1
          · exact fun hzero => ⟨hzero, offers_frames_of_zero hzero⟩

theorem exists_last {α : Type} {p : α → Prop} : ∀ {l : List α}, (∃ a ∈ l, p a) →
    ∃ xs a ys, l = xs ++ a :: ys ∧ p a ∧ ∀ b ∈ ys, ¬ p b := by
  intro l
  induction l with
  | nil => simp
  | cons x l ih =>
      intro hex
      by_cases hlater : ∃ a ∈ l, p a
      · obtain ⟨xs, a, ys, rfl, ha, hys⟩ := ih hlater
        exact ⟨x :: xs, a, ys, rfl, ha, hys⟩
      · refine ⟨[], x, l, rfl, ?_, fun b hb hpb => hlater ⟨b, hb, hpb⟩⟩
        obtain ⟨a, ha, hpa⟩ := hex
        rcases List.mem_cons.1 ha with rfl | ha
        · exact hpa
        · exact absurd ⟨a, ha, hpa⟩ hlater

/-- Behind the last of the resets before a request, the request is still the first one. -/
theorem FirstRequest.last {s : Int32} {t v u : Threads} {as mid : List Section} {op : AppOp}
    {need : NeedData} (h : FirstRequest s t as v op mid u need) :
    ∃ v' op' mid', FirstRequest s t as v' op' mid' u need ∧ ∀ a ∈ mid', ¬ a.Resets s := by
  have hex : ∃ a ∈ Section.app op :: mid, a.Resets s :=
    ⟨.app op, List.mem_cons_self, h.resets⟩
  obtain ⟨xs, b, ys, hsplit, hb, hys⟩ := exists_last hex
  cases b with
  | app op' =>
      obtain ⟨done, rest, es, has, hdone⟩ := h.before
      obtain ⟨es', hbetween⟩ := h.between
      rw [hsplit] at hbetween
      obtain ⟨v', es₁, es₂, hxs, hlast, -⟩ := Machine.run_append.1 hbetween
      refine ⟨v', op', ys, ⟨⟨done ++ xs, rest, es ++ es₁, ?_, ?_⟩, ⟨es₂, hlast⟩, hb, h.source, ?_,
        h.idle⟩, hys⟩
      · rw [has, ← List.cons_append, hsplit, List.append_assoc, List.append_assoc, List.cons_append]
      · exact Machine.run_append.2 ⟨v, es, es₁, hdone, hxs, rfl⟩
      · intro a ha
        have hmem : a ∈ Section.app op :: mid := by
          rw [hsplit]
          exact List.mem_append_right _ (List.mem_cons_of_mem _ ha)
        rcases List.mem_cons.1 hmem with rfl | hmid
        · exact id
        · exact h.first a hmid
  | need request => exact absurd hb id
  | cancel sourceId => exact absurd hb id
  | advance status => exact absurd hb id

/-- **A request behind a last reset finds the cursor at the first frame exactly when the request
in flight at that reset was not going to move it.** -/
theorem cursorAtZero_of_firstRequest {s : Int32} {t v u : Threads} {as mid : List Section}
    {op : AppOp} {need : NeedData} (h : FirstRequest s t as v op mid u need)
    (hlast : ∀ a ∈ mid, ¬ a.Resets s) (hfeed : u.client.feeds s ≠ none) :
    CursorAtZero s u.client ↔ ¬ v.activity.Spoils s (firstAnswer mid) := by
  obtain ⟨es, hbetween⟩ := h.between
  obtain ⟨w, es₁, es₂, hstep, hmid, -⟩ := Machine.run_cons.1 hbetween
  obtain ⟨rfl, -⟩ := Prod.mk.inj (Option.some.inj hstep)
  obtain ⟨hcursor, hsome⟩ := cursorAtZero_run hlast h.first hmid h.idle
  rw [hcursor]
  refine and_iff_right ?_
  rw [← Option.isSome_iff_ne_none, hsome] at hfeed
  obtain ⟨feed, hfeed⟩ := Option.isSome_iff_exists.1 hfeed
  exact ⟨feed, hfeed, nextFrame_eq_zero_of_resets h.resets hfeed⟩

/-- **When a reset is not lost**: along a run of sections in any order, with any answers of the
server, exactly when no request is in flight, at the last reset before a first request, that is
going to move the cursor.  The segments built carry the frames of their indices
(`buildSegments_carries`). -/
theorem resetsKept_iff (s : Int32) (t : Threads) (as : List Section) :
    ResetsKept s t as ↔ NeverSpoilt s t as := by
  constructor
  · intro hkept v op mid u need h hlast hpipeline hfeed
    rw [← cursorAtZero_of_firstRequest h hlast hfeed]
    obtain rfl := h.source
    exact (fromZero_iff u.client need).1 (hkept v op mid u need h) hpipeline hfeed
  · intro hspoilt v op mid u need h
    rw [fromZero_iff]
    intro hpipeline hfeed
    obtain ⟨v', op', mid', h', hlast⟩ := h.last
    obtain rfl := h.source
    exact (cursorAtZero_of_firstRequest h' hlast hfeed).2
      (hspoilt v' op' mid' u need h' hlast hpipeline hfeed)

def twoFrames : AacElementaryStream := ⟨[⟨[0], 0, 0⟩, ⟨[1], 0, 0⟩], 48000, 2⟩

/-- Two frames are asked for and accepted; the source is rewound between the two answers. -/
def rewoundRun : List Section :=
  [.app (.setPipeline true), .app (.addAudioSource 1 twoFrames), .need ⟨1, 2, 1, true⟩,
    .advance .ok, .advance .ok, .app (.rewindSource 1), .advance .ok, .advance .ok, .advance .ok,
    .advance .ok, .need ⟨1, 2, 2, true⟩]

/-- The next request finds the cursor at the end of the stream. -/
theorem not_resetsKept_rewoundRun : ¬ ResetsKept 1 ⟨Client.init, .idle⟩ rewoundRun := by
  intro h
  have hkept := h _ (.rewindSource 1) ((rewoundRun.drop 6).take 4) _ ⟨1, 2, 2, true⟩
    ⟨⟨rewoundRun.take 5, [], _, rfl, rfl⟩, ⟨_, rfl⟩, rfl, rfl,
      by simp [rewoundRun, Section.Starts], rfl⟩ _ rfl
  -- the cursor has been set back to 0 and then moved by the two frames accepted
  exact absurd hkept.1 (by decide)

end Feed
