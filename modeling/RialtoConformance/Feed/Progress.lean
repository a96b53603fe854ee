/-
**Every message is served.**

The callback thread cannot get stuck: in every state in which a message waits or a request is in
flight it has a section to go on with, whatever the server answers, and it takes a bounded number
of them for each message, depending on the length of the streams only.  Where it has come to rest,
all messages have been begun in the order in which they were sent, and the requests taken up have
been answered, each once and in that order.

The bound is a potential argument: a message sent adds the sections it may need to the potential,
and every section takes one off.

Main definitions:

* `Feed.Message.sections`, `Feed.Activity.left`, `Feed.Channel.work` — the sections that may still
  have to be run;
* `Feed.Channel.GoesOn`, `Feed.Channel.Rests` — the callback thread can go on, whatever the server
  answers, and it cannot;
* `Feed.serving` — the machine, with the requests that are taken up.

Main results:

* `Feed.work_step` — what one step does to the potential;
* `Feed.goesOn_of_work`, `Feed.work_eq_zero_iff` — **the callback thread goes on as long as there is
  something to do**, and rests when there is nothing;
* `Feed.answered_of_run` — **each request taken up is answered once**, or is in flight;
* `Feed.served` — **every message is served**.
-/
import RialtoConformance.Feed.Channel

set_option relaxedAutoImplicit false
set_option autoImplicit false

namespace Feed

open Runs

/-! ### The sections of a message -/

/-- The sections a message may need when no stream has more than `bound` frames: a request is
begun, has two for each segment, is closed and answered. -/
def Message.sections (bound : ℕ) : Message → ℕ
  | .need _ => 2 * bound + 3
  | .cancel _ => 1

/-- The sections that the request in flight may still need. -/
def Activity.left : Activity → ℕ
  | .idle => 0
  | .starving _ _ => 2
  | .offering _ rest => 2 * rest.length + 2
  | .noting _ status rest => 2 * (restAfter status rest).length + 3
  | .answering _ _ => 1

/-- **The sections that may still have to be run.** -/
def Channel.work (bound : ℕ) (c : Channel) : ℕ :=
  c.threads.activity.left + (c.queue.map (Message.sections bound)).sum

def Move.cost : Move → ℕ
  | .deliver => 1
  | .advance _ => 1
  | _ => 0

/-- What a message that is sent adds to the work. -/
def Move.credit (bound : ℕ) : Move → ℕ
  | .send message => message.sections bound
  | _ => 0

/-- No stream of more than `bound` frames is registered in the step. -/
def Move.Short (bound : ℕ) : Move → Prop
  | .app (.addAudioSource _ stream) => stream.frames.length ≤ bound
  | _ => True

/-- **The callback thread can go on**: it can take a message up, or run the next section of the
request in flight, whatever the server answers in it. -/
def Channel.GoesOn (c : Channel) : Prop :=
  (channel.step c .deliver).isSome = true ∨
    ∀ status, (channel.step c (.advance status)).isSome = true

/-- The callback thread cannot go on. -/
def Channel.Rests (c : Channel) : Prop :=
  channel.step c .deliver = none ∧ ∀ status, channel.step c (.advance status) = none

/-- No stream has more than `bound` frames. -/
def Client.Short (bound : ℕ) (c : Client) : Prop :=
  ∀ s feed, c.feeds s = some feed → feed.stream.frames.length ≤ bound

/-! ### The potential -/

theorem openRound_left {bound : ℕ} {c : Client} (hshort : c.Short bound) (need : NeedData) :
    (c.openRound need).2.left ≤ 2 * bound + 2 := by
  rcases unanswered_or_feed c need with hunanswered | ⟨feed, hpipeline, hfeed, hwithhold⟩
  · rw [openRound_snd_of_unanswered hunanswered]
    exact Nat.zero_le _
  · rw [openRound_snd_of_feed hpipeline hfeed hwithhold]
    split
    · simp only [Activity.left]
      omega
    · have hlength := congrArg List.length (offers_frames c need feed)
      rw [List.length_map, List.length_range'] at hlength
      have := hshort need.sourceId feed hfeed
      simp only [Activity.left]
      omega

theorem closeRound_short {bound : ℕ} {c : Client} (hshort : c.Short bound) (round : Round) :
    (c.closeRound round).1.Short bound := by
  intro s feed hfeed
  cases hold : c.feeds round.sourceId with
  | none =>
      simp only [Client.closeRound, hold] at hfeed
      exact hshort s feed hfeed
  | some old =>
      simp only [Client.closeRound, hold] at hfeed
      by_cases hs : s = round.sourceId
      · subst hs
        rw [Function.update_self, Option.some.injEq] at hfeed
        rw [← hfeed]
        exact hshort _ old hold
      · rw [Function.update_of_ne hs] at hfeed
        exact hshort s feed hfeed

/-- A section of the request in flight takes one off the sections left, and no stream grows. -/
theorem left_advance {bound : ℕ} {t t' : Threads} {status : AddSegmentStatus} {es : List Event}
    (h : Advanced t status t' es) (hshort : t.client.Short bound) :
    t'.client.Short bound ∧ 1 + t'.activity.left ≤ t.activity.left := by
  cases h with
  | settle c sourceId requestId status => exact ⟨hshort, by simp [Activity.left]⟩
  | close c round status => exact ⟨closeRound_short hshort round, by simp [Activity.left]⟩
  | offer c round offer rest status =>
      refine ⟨hshort, ?_⟩
      have : (restAfter status rest).length ≤ rest.length := by
        rw [restAfter]
        split <;> simp
      simp only [Activity.left, List.length_cons]
      omega
  | note c round answer rest status =>
      refine ⟨?_, by simp only [Activity.left]; omega⟩
      rw [Client.Short, noteAnswer_feeds]
      exact hshort
  | answer c answer requestId status => exact ⟨hshort, by simp [Activity.left]⟩

theorem apply_short {bound : ℕ} {c : Client} {op : AppOp} (hop : (Move.app op).Short bound)
    (hshort : c.Short bound) : (op.apply c).Short bound := by
  intro s feed hfeed
  cases op with
  | addAudioSource sourceId stream =>
      by_cases hs : s = sourceId
      · subst hs
        simp only [AppOp.apply, Client.addAudioSource, Function.update_self, Option.some.injEq]
          at hfeed
        rw [← hfeed]
        exact hop
      · simp only [AppOp.apply, Client.addAudioSource, Function.update_of_ne hs] at hfeed
        exact hshort s feed hfeed
  | rewindSource sourceId =>
      by_cases hs : s = sourceId
      · subst hs
        simp only [AppOp.apply, Client.rewindSource, Function.update_self, Option.map_eq_some_iff]
          at hfeed
        obtain ⟨old, hold, rfl⟩ := hfeed
        exact hshort s old hold
      · simp only [AppOp.apply, Client.rewindSource, Function.update_of_ne hs] at hfeed
        exact hshort s feed hfeed
  | _ => exact hshort s feed hfeed

/-- **What one step does to the potential.** -/
theorem work_step {bound : ℕ} {c c' : Channel} {a : Move} {es : List Entry} (ha : a.Short bound)
    (hshort : c.threads.client.Short bound) (hstep : channel.step c a = some (c', es)) :
    c'.threads.client.Short bound ∧ a.cost + c'.work bound ≤ c.work bound + a.credit bound := by
  cases a with
  | send message =>
      obtain ⟨rfl, rfl⟩ := Prod.mk.inj (Option.some.inj hstep)
      refine ⟨hshort, ?_⟩
      simp only [Channel.work, Move.cost, Move.credit, List.map_append, List.sum_append,
        List.map_singleton, List.sum_singleton]
      omega
  | deliver =>
      obtain ⟨⟨client, act⟩, queue⟩ := c
      cases queue with
      | nil => simp [channel] at hstep
      | cons message queue =>
          obtain ⟨⟨t, es'⟩, hopening, heq⟩ := Option.map_eq_some_iff.1 hstep
          obtain ⟨rfl, rfl⟩ := Prod.mk.inj heq
          obtain rfl : act = .idle := idle_of_opening hopening
          simp only [Channel.work, Move.cost, Move.credit, List.map_cons, List.sum_cons]
          cases message with
          | need request =>
              obtain ⟨rfl, rfl⟩ := Prod.mk.inj (Option.some.inj hopening)
              refine ⟨by rw [Client.Short, openRound_feeds]; exact hshort, ?_⟩
              have hleft : (client.openRound request).2.left ≤ 2 * bound + 2 :=
                openRound_left hshort request
              have hidle : Activity.idle.left = 0 := rfl
              simp only [Message.sections, hidle]
              omega
          | cancel sourceId =>
              obtain ⟨rfl, rfl⟩ := Prod.mk.inj (Option.some.inj hopening)
              refine ⟨hshort, ?_⟩
              simp only [Message.sections, Activity.left]
              omega
  | advance status =>
      obtain ⟨r, hadvance, heq⟩ := Option.map_eq_some_iff.1 hstep
      obtain ⟨rfl, rfl⟩ := Prod.mk.inj heq
      obtain ⟨hshort', hleft⟩ := left_advance (advanced_of_advance hadvance) hshort
      refine ⟨hshort', ?_⟩
      simp only [Channel.work, Move.cost, Move.credit]
      omega
  | app op =>
      obtain ⟨rfl, rfl⟩ := Prod.mk.inj (Option.some.inj hstep)
      refine ⟨apply_short ha hshort, ?_⟩
      simp only [Channel.work, Move.cost, Move.credit]
      omega

theorem rests_iff {c : Channel} : c.Rests ↔ c.queue = [] ∧ c.threads.activity = .idle := by
  obtain ⟨⟨client, act⟩, queue⟩ := c
  constructor
  · rintro ⟨hdeliver, hadvance⟩
    have hidle : act = .idle := by
      have := hadvance .ok
      cases act with
      | idle => rfl
      | offering round rest => cases rest <;> simp [channel, sections, Threads.advance] at this
      | _ => simp [channel, sections, Threads.advance] at this
    subst hidle
    cases queue with
    | nil => exact ⟨rfl, rfl⟩
    | cons message queue =>
        cases message <;> simp [channel, sections, Message.opening] at hdeliver
  · rintro ⟨hqueue, hidle⟩
    simp only at hqueue hidle
    subst hqueue hidle
    exact ⟨rfl, fun _ => rfl⟩

/-- **The callback thread goes on as long as there is something to do.** -/
theorem goesOn_of_work {bound : ℕ} {c : Channel} (h : c.work bound ≠ 0) : c.GoesOn := by
  obtain ⟨⟨client, act⟩, queue⟩ := c
  cases act with
  | idle =>
      -- nothing is in flight, so a message waits
      cases queue with
      | nil => exact absurd rfl h
      | cons message queue => cases message <;> exact Or.inl rfl
  | offering round rest => cases rest <;> exact Or.inr fun _ => rfl
  | _ => exact Or.inr fun _ => rfl

/-- The callback thread rests only when there is nothing to do. -/
theorem work_eq_zero_iff {bound : ℕ} {c : Channel} : c.work bound = 0 ↔ c.Rests := by
  rw [rests_iff, Channel.work, Nat.add_eq_zero_iff, and_comm]
  refine and_congr ?_ ?_
  · cases c.queue with
    | nil => simp
    | cons message queue => cases message <;> simp [Message.sections]
  · cases c.threads.activity <;> simp [Activity.left]

/-! ### Requests taken up, requests answered -/

/-- The client is going to answer a request. -/
def Client.willAnswer (c : Client) (need : NeedData) : Bool :=
  c.pipeline && (c.feeds need.sourceId).isSome && !c.withhold

/-- The requests taken up so far, by their ids. -/
def noteTaken (c : Channel) (a : Move) (taken : List UInt32) : List UInt32 :=
  match a, c.queue with
  | .deliver, .need request :: _ =>
      if c.threads.client.willAnswer request then taken ++ [request.requestId] else taken
  | _, _ => taken

/-- **The machine, with the requests that are taken up.** -/
def serving : Machine (Channel × List UInt32) Move Entry := channel.recorded noteTaken

/-- The request that an entry of the history answers. -/
def Entry.answer : Entry → Option UInt32
  | .client (.call (.haveData _ requestId)) => some requestId
  | _ => none

def answered (h : List Entry) : List UInt32 := h.filterMap Entry.answer

@[simp] theorem answered_append (h h' : List Entry) :
    answered (h ++ h') = answered h ++ answered h' := List.filterMap_append

def Activity.owed : Activity → List UInt32
  | .idle => []
  | .starving _ requestId => [requestId]
  | .offering round _ => [round.requestId]
  | .noting round _ _ => [round.requestId]
  | .answering _ requestId => [requestId]

theorem openRound_owed (c : Client) (need : NeedData) :
    (c.openRound need).2.owed = if c.willAnswer need then [need.requestId] else [] := by
  rw [Client.willAnswer]
  rcases unanswered_or_feed c need with hunanswered | ⟨feed, hpipeline, hfeed, hwithhold⟩
  · rw [openRound_snd_of_unanswered hunanswered]
    rcases hunanswered with h | h | h <;> simp [h, Activity.owed]
  · rw [openRound_snd_of_feed hpipeline hfeed hwithhold, hpipeline, hfeed, hwithhold]
    split <;> rfl

theorem owed_advance {t t' : Threads} {status : AddSegmentStatus} {es : List Event}
    (h : Advanced t status t' es) :
    answered (es.map .client) ++ t'.activity.owed = t.activity.owed := by
  cases h with
  | note c round answer rest status =>
      have hid : (c.noteAnswer round answer).2.requestId = round.requestId := by
        rw [noteAnswer_snd]
        split <;> rfl
      simp [answered, Activity.owed, hid]
  | _ => rfl

theorem owed_step {c c' : Channel} {taken : List UInt32} {a : Move} {h es : List Entry}
    (howed : answered h ++ c.threads.activity.owed = taken)
    (hstep : channel.step c a = some (c', es)) :
    answered (h ++ es) ++ c'.threads.activity.owed = noteTaken c a taken := by
  rw [answered_append, List.append_assoc]
  cases a with
  | send message =>
      obtain ⟨rfl, rfl⟩ := Prod.mk.inj (Option.some.inj hstep)
      exact howed
  | deliver =>
      obtain ⟨⟨client, act⟩, queue⟩ := c
      cases queue with
      | nil => simp [channel] at hstep
      | cons message queue =>
          obtain ⟨⟨t, es'⟩, hopening, heq⟩ := Option.map_eq_some_iff.1 hstep
          obtain ⟨rfl, rfl⟩ := Prod.mk.inj heq
          obtain rfl : act = .idle := idle_of_opening hopening
          have hanswered : answered h = taken := (List.append_nil _).symm.trans howed
          cases message with
          | need request =>
              obtain ⟨rfl, rfl⟩ := Prod.mk.inj (Option.some.inj hopening)
              have hnone : answered ([Event.need request].map .client) = [] := rfl
              have htaken : noteTaken ⟨⟨client, .idle⟩, .need request :: queue⟩ .deliver taken =
                  if client.willAnswer request then taken ++ [request.requestId] else taken := rfl
              rw [hnone, List.nil_append, openRound_owed, hanswered, htaken]
              cases client.willAnswer request <;> simp
          | cancel sourceId =>
              obtain ⟨rfl, rfl⟩ := Prod.mk.inj (Option.some.inj hopening)
              exact (List.append_nil _).trans hanswered
  | advance status =>
      obtain ⟨r, hadvance, heq⟩ := Option.map_eq_some_iff.1 hstep
      obtain ⟨rfl, rfl⟩ := Prod.mk.inj heq
      rw [owed_advance (advanced_of_advance hadvance)]
      exact howed
  | app op =>
      obtain ⟨rfl, rfl⟩ := Prod.mk.inj (Option.some.inj hstep)
      exact howed

/-- **Each request taken up is answered once**, in the order in which they were taken up; the one
in flight comes last. -/
theorem answered_of_run {as : List Move} {c : Channel} {taken : List UInt32} {h : List Entry}
    (hrun : serving.run (Channel.init, []) as = some ((c, taken), h)) :
    answered h ++ c.threads.activity.owed = taken := by
  have hstep : ∀ (s : Channel × List UInt32) (h : List Entry) (a : Move)
      (s' : Channel × List UInt32) (es : List Entry),
        answered h ++ s.1.threads.activity.owed = s.2 → serving.step s a = some (s', es) →
          answered (h ++ es) ++ s'.1.threads.activity.owed = s'.2 := by
    rintro ⟨c, taken⟩ h a ⟨c', taken'⟩ es howed hstep
    obtain ⟨hstep, rfl⟩ := Machine.step_recorded.1 hstep
    exact owed_step howed hstep
  have := Machine.run_induction (P := fun s h => answered h ++ s.1.threads.activity.owed = s.2)
    hstep (s := (Channel.init, [])) (o := []) rfl hrun
  rwa [List.nil_append] at this

/-! ### Runs -/

/-- **Every message is served.**  In every run of the server, the application and the callback
thread, the sections run and those that may still be needed are no more than the messages sent are
good for; while any may be needed the callback thread can go on, whatever the server answers; and
once none is, which is when it cannot, the messages have been begun in the order in which they were
sent, and those taken up have been answered, each once and in that order. -/
theorem served {bound : ℕ} {as : List Move} {c : Channel} {taken : List UInt32} {h : List Entry}
    (hrun : serving.run (Channel.init, []) as = some ((c, taken), h))
    (hshort : ∀ a ∈ as, a.Short bound) :
    (as.map Move.cost).sum + c.work bound ≤ (as.map (Move.credit bound)).sum ∧
      (c.work bound ≠ 0 → c.GoesOn) ∧ (c.work bound = 0 ↔ c.Rests) ∧
      (c.Rests → (ledger h).begun.map Prod.fst = (ledger h).sent ∧ answered h = taken) := by
  have hplain : channel.run Channel.init as = some (c, h) :=
    (Machine.run_recorded ([] : List UInt32)).2 ⟨taken, hrun⟩
  refine ⟨?_, goesOn_of_work, work_eq_zero_iff, fun hrests => ?_⟩
  · have hinit : Channel.init.threads.client.Short bound := by
      intro s feed hfeed
      simp [Channel.init, Client.init] at hfeed
    have hpaid : ∀ (c : Channel) (a : Move) (c' : Channel) (es : List Entry), a.Short bound →
        c.threads.client.Short bound → channel.step c a = some (c', es) →
          c'.threads.client.Short bound ∧ a.cost + c'.work bound ≤ c.work bound + a.credit bound :=
      fun _ _ _ _ ha hc hstep => work_step ha hc hstep
    have := Machine.run_potential hpaid hshort hinit hplain
    simpa [Channel.work, Channel.init, Activity.left] using this
  · obtain ⟨hqueue, hidle⟩ := rests_iff.1 hrests
    have hfifo := (good_of_run hplain).fifo
    have howed := answered_of_run hrun
    rw [hqueue, List.reverse_nil, List.nil_append] at hfifo
    rw [hidle, Activity.owed, List.append_nil] at howed
    exact ⟨hfifo.symm, howed⟩

/-- A request for both frames of a stream, one for a source that has no stream, and a cancellation,
served to the end. -/
def servedRun : List Move :=
  [.app (.setPipeline true), .app (.addAudioSource 1 twoFrames), .send (.need ⟨1, 2, 7, true⟩),
    .send (.need ⟨2, 1, 8, true⟩), .deliver, .advance .ok, .advance .ok, .advance .ok,
    .send (.cancel 1), .advance .ok, .advance .ok, .advance .ok, .deliver, .deliver]

/-- Nine sections serve them, and the one request taken up is answered; in the middle of its batch
the callback thread can go on. -/
theorem served_servedRun :
    (∃ c h, serving.run (Channel.init, []) (servedRun.take 6) = some ((c, [7]), h) ∧ c.GoesOn) ∧
      ∃ c h, serving.run (Channel.init, []) servedRun = some ((c, [7]), h) ∧
        (servedRun.map Move.cost).sum = 9 ∧ 9 + c.work 2 ≤ 15 ∧ c.Rests ∧
          (ledger h).begun.map Prod.fst = (ledger h).sent ∧ answered h = [7] := by
  have hshort : ∀ a ∈ servedRun, a.Short 2 := by
    simp [servedRun, Move.Short, twoFrames]
  constructor
  · have hrun : serving.run (Channel.init, []) (servedRun.take 6) = some ((_, [7]), _) := rfl
    obtain ⟨-, hgoes, -⟩ := served hrun fun a ha => hshort a (List.mem_of_mem_take ha)
    exact ⟨_, _, hrun, hgoes (by decide)⟩
  · have hrun : serving.run (Channel.init, []) servedRun = some ((_, [7]), _) := rfl
    obtain ⟨hbound, -, hrests, hserved⟩ := served hrun hshort
    have hrest := hrests.1 rfl
    exact ⟨_, _, hrun, rfl, hbound, hrest, hserved hrest⟩

end Feed
