/-
**The server's messages on their way to the client.**

The server sends need-data requests and cancellations into a queue, and the callback thread takes
them from it one at a time, in order, each to its end.  The server may send at any moment, also
while a request is being answered, and so may the application call.

The client can see a request when it arrives and not when it is sent, and that is where it looks
for an overlap.

Main definitions:

* `Feed.Channel`, `Feed.channel` — the queue with the two threads, and the machine;
* `Feed.Ledger`, `Feed.ledger` — what a history says has been sent, begun and answered;
* `Feed.OpenFor`, `Feed.Overlaps` — a request left open, and one begun behind such a request.

Main results:

* `Feed.good_of_run` — what holds in every run;
* `Feed.overlappingNeedData_iff` — **the overlaps that are flagged**;
* `Feed.overlappingNeedData_of_unanswered` — **an overlap of the server is flagged, unless the
  earlier request is answered before the later one is begun**.
-/
import RialtoConformance.Feed.Interleaving

set_option relaxedAutoImplicit false
set_option autoImplicit false

namespace Feed

open Runs

/-! ### The machine -/

/-- A message of the server. -/
inductive Message
  | need (need : NeedData)
  | cancel (sourceId : Int32)
  deriving DecidableEq

/-- The message is about the source `s`. -/
def Message.About (s : Int32) : Message → Prop
  | .need request => request.sourceId = s
  | .cancel sourceId => sourceId = s

/-- The first section of the callback for a message. -/
def Message.opening : Message → Section
  | .need request => .need request
  | .cancel sourceId => .cancel sourceId

/-- The threads of the client, and the messages on their way to it. -/
structure Channel where
  threads : Threads
  queue : List Message

/-- A client as it is constructed, with nothing sent to it. -/
def Channel.init : Channel := ⟨⟨Client.init, .idle⟩, []⟩

/-- A step of the server or of one of the threads of the client. -/
inductive Move
  /-- The server sends a message. -/
  | send (message : Message)
  /-- The callback thread takes the next message up. -/
  | deliver
  /-- The next section of the request in flight. -/
  | advance (status : AddSegmentStatus)
  /-- A call of the application. -/
  | app (op : AppOp)

/-- What a run leaves in its history. -/
inductive Entry
  | sent (message : Message)
  | client (event : Event)

/-- **The client behind its queue.** -/
def channel : Machine Channel Move Entry where
  step c
    | .send message => some (⟨c.threads, c.queue ++ [message]⟩, [.sent message])
    | .deliver =>
        match c.queue with
        | [] => none
        | message :: queue =>
            (sections.step c.threads message.opening).map fun r => (⟨r.1, queue⟩, r.2.map .client)
    | .advance status =>
        (sections.step c.threads (.advance status)).map fun r => (⟨r.1, c.queue⟩, r.2.map .client)
    | .app op =>
        (sections.step c.threads (.app op)).map fun r => (⟨r.1, c.queue⟩, r.2.map .client)

/-! ### Sent, begun, answered -/

/-- What a history says of the messages: those sent, and those begun with whether `haveData` has
been called for them, the latest first. -/
structure Ledger where
  sent : List Message
  begun : List (Message × Bool)

def markAnswered : List (Message × Bool) → List (Message × Bool)
  | [] => []
  | (message, _) :: begun => (message, true) :: begun

/-- An entry of the history is taken into account. -/
def Ledger.note (l : Ledger) : Entry → Ledger
  | .sent message => { l with sent := message :: l.sent }
  | .client (.need request) => { l with begun := (.need request, false) :: l.begun }
  | .client (.cancel sourceId) => { l with begun := (.cancel sourceId, false) :: l.begun }
  | .client (.call (.haveData _ _)) => { l with begun := markAnswered l.begun }
  | .client (.call (.addSegment _ _ _)) => l
  | .client (.app _) => l

/-- What a history says of the messages. -/
def ledger (h : List Entry) : Ledger := h.foldl Ledger.note ⟨[], []⟩

/-- The message sent behind `n` others has been answered. -/
def Ledger.Answered (l : Ledger) (n : ℕ) : Prop :=
  (l.begun.reverse[n]?.map Prod.snd) = some true

instance (l : Ledger) (n : ℕ) : Decidable (l.Answered n) := by
  unfold Ledger.Answered
  infer_instance

/-- **The previous request for `s` is outstanding**: the last message sent about `s` is a request,
sent behind `n` other messages, and has not been answered. -/
def Ledger.Outstanding (l : Ledger) (s : Int32) (n : ℕ) : Prop :=
  ∃ later request earlier, l.sent = later ++ .need request :: earlier ∧ request.sourceId = s ∧
    (∀ message ∈ later, ¬ message.About s) ∧ earlier.length = n ∧ ¬ l.Answered n

/-- Among messages begun, the last one about `s` is a request that has not been answered. -/
def OpenFor (s : Int32) : List (Message × Bool) → Prop
  | [] => False
  | (.need request, answered) :: begun =>
      if request.sourceId = s then answered = false else OpenFor s begun
  | (.cancel sourceId, _) :: begun => sourceId ≠ s ∧ OpenFor s begun

/-- Among messages begun there is a request that was begun behind an open one for its source. -/
def Overlaps : List (Message × Bool) → Prop
  | [] => False
  | (.need request, _) :: begun => OpenFor request.sourceId begun ∨ Overlaps begun
  | (.cancel _, _) :: begun => Overlaps begun

theorem ledger_append (h h' : List Entry) : ledger (h ++ h') = h'.foldl Ledger.note (ledger h) := by
  rw [ledger, ledger, List.foldl_append]

theorem ledger_concat (h : List Entry) (e : Entry) : ledger (h ++ [e]) = (ledger h).note e :=
  ledger_append h [e]

theorem sent_foldl : ∀ (h : List Entry) (l : Ledger),
    ∃ later, (h.foldl Ledger.note l).sent = later ++ l.sent := by
  intro h
  induction h with
  | nil => intro l; exact ⟨[], rfl⟩
  | cons e h ih =>
      intro l
      obtain ⟨later, hlater⟩ := ih (l.note e)
      rw [List.foldl_cons, hlater]
      cases e with
      | sent message => exact ⟨later ++ [message], by simp [Ledger.note]⟩
      | client event =>
          cases event with
          | call c => cases c <;> exact ⟨later, rfl⟩
          | app op => exact ⟨later, rfl⟩
          | need request => exact ⟨later, rfl⟩
          | cancel sourceId => exact ⟨later, rfl⟩

theorem openFor_append {s : Int32} {begun : List (Message × Bool)} : ∀ {later : List (Message × Bool)},
    (∀ m ∈ later, ¬ m.1.About s) → (OpenFor s (later ++ begun) ↔ OpenFor s begun) := by
  intro later
  induction later with
  | nil => simp
  | cons m later ih =>
      intro hlater
      have hm := hlater m (by simp)
      have hrest := ih fun m' hm' => hlater m' (List.mem_cons_of_mem _ hm')
      obtain ⟨message, answered⟩ := m
      cases message with
      | need request =>
          have hother : request.sourceId ≠ s := hm
          simp only [List.cons_append, OpenFor, if_neg hother, hrest]
      | cancel sourceId =>
          have hother : sourceId ≠ s := hm
          simp only [List.cons_append, OpenFor, ne_eq, hother, not_false_eq_true, true_and, hrest]

theorem overlaps_append {begun : List (Message × Bool)} (h : Overlaps begun) :
    ∀ later : List (Message × Bool), Overlaps (later ++ begun) := by
  intro later
  induction later with
  | nil => exact h
  | cons m later ih =>
      obtain ⟨message, answered⟩ := m
      cases message with
      | need request => exact Or.inr ih
      | cancel sourceId => exact ih

theorem overlaps_markAnswered (begun : List (Message × Bool)) :
    Overlaps (markAnswered begun) ↔ Overlaps begun := by
  cases begun with
  | nil => rfl
  | cons m begun =>
      obtain ⟨message, answered⟩ := m
      cases message <;> rfl

/-! ### What holds in every run -/

/-- The activity is that of a callback for `request`. -/
def Activity.For (request : NeedData) : Activity → Prop
  | .idle => False
  | .starving sourceId requestId => sourceId = request.sourceId ∧ requestId = request.requestId
  | .offering round _ =>
      round.sourceId = request.sourceId ∧ round.requestId = request.requestId
  | .noting round _ _ =>
      round.sourceId = request.sourceId ∧ round.requestId = request.requestId
  | .answering _ requestId => requestId = request.requestId

/-- The messages begun as the client sees them: when a callback is about to call `haveData`, it has
already struck its request off. -/
def Activity.view (begun : List (Message × Bool)) : Activity → List (Message × Bool)
  | .answering _ _ => markAnswered begun
  | _ => begun

/-- **What holds in every run.** -/
structure Good (c : Channel) (h : List Entry) : Prop where
  /-- What has been sent has been begun or is on its way, in order. -/
  fifo : (ledger h).sent = c.queue.reverse ++ (ledger h).begun.map Prod.fst
  /-- A callback in flight is for the message begun last, which has not been answered. -/
  inFlight : c.threads.activity ≠ .idle → ∃ request begun,
    (ledger h).begun = (.need request, false) :: begun ∧ c.threads.activity.For request
  /-- The outstanding requests are the open ones. -/
  pending : ∀ s, s ∈ c.threads.client.pendingNeedData ↔
    OpenFor s (c.threads.activity.view (ledger h).begun)
  /-- An overlap is flagged exactly when there has been one. -/
  overlapping : c.threads.client.overlappingNeedData = true ↔ Overlaps (ledger h).begun

theorem idle_of_opening {t t' : Threads} {message : Message} {es : List Event}
    (h : sections.step t message.opening = some (t', es)) : t.activity = .idle := by
  cases message with
  | need request =>
      cases stepped_of_step h with
      | need c => rfl
  | cancel sourceId =>
      cases stepped_of_step h with
      | cancel c => rfl

/-- A callback that goes on behind its first section is for its request, and is not about to answer
it yet. -/
theorem openRound_snd_for (c : Client) (need : NeedData) :
    ((c.openRound need).2 = .idle ∨ (c.openRound need).2.For need) ∧
      ∀ begun, (c.openRound need).2.view begun = begun := by
  rw [Client.openRound]
  split
  · exact ⟨Or.inl rfl, fun _ => rfl⟩
  · split_ifs
    · exact ⟨Or.inl rfl, fun _ => rfl⟩
    · exact ⟨Or.inr ⟨rfl, rfl⟩, fun _ => rfl⟩
    · exact ⟨Or.inr ⟨rfl, rfl⟩, fun _ => rfl⟩

@[simp] theorem closeRound_pendingNeedData (c : Client) (round : Round) :
    (c.closeRound round).1.pendingNeedData = c.pendingNeedData.erase round.sourceId := by
  rw [Client.closeRound]
  split <;> rfl

@[simp] theorem closeRound_overlappingNeedData (c : Client) (round : Round) :
    (c.closeRound round).1.overlappingNeedData = c.overlappingNeedData := by
  rw [Client.closeRound]
  split <;> rfl

theorem apply_pendingNeedData (c : Client) (op : AppOp) :
    (op.apply c).pendingNeedData = c.pendingNeedData ∧
      (op.apply c).overlappingNeedData = c.overlappingNeedData := by
  cases op <;> exact ⟨rfl, rfl⟩

/-- Striking the request of the message begun last off closes its source and no other. -/
theorem mem_erase_iff {request : NeedData} {begun : List (Message × Bool)} {pending : Finset Int32}
    (h : ∀ s, s ∈ pending ↔ OpenFor s ((.need request, false) :: begun)) (s : Int32) :
    s ∈ pending.erase request.sourceId ↔
      OpenFor s (markAnswered ((.need request, false) :: begun)) := by
  rw [Finset.mem_erase, h s, markAnswered, OpenFor, OpenFor]
  by_cases hs : request.sourceId = s
  · simp [hs]
  · simp [hs, Ne.symm hs]

theorem good_advance {c : Channel} {h : List Entry} (hgood : Good c h) {status : AddSegmentStatus}
    {t : Threads} {es : List Event} (hstep : c.threads.advance status = some (t, es)) :
    Good ⟨t, c.queue⟩ (h ++ es.map .client) := by
  obtain ⟨⟨client, act⟩, queue⟩ := c
  obtain ⟨hfifo, hinFlight, hpending, hover⟩ := hgood
  simp only at hfifo hinFlight hpending hover hstep
  cases advanced_of_advance hstep with
  | settle c sourceId requestId =>
      obtain ⟨request, begun, hbegun, rfl, rfl⟩ := hinFlight (by simp)
      rw [List.map_nil, List.append_nil]
      refine ⟨hfifo, fun _ => ⟨request, begun, hbegun, rfl⟩, ?_, hover⟩
      rw [hbegun] at hpending ⊢
      exact mem_erase_iff hpending
  | close c round =>
      obtain ⟨request, begun, hbegun, hsource, hrequest⟩ := hinFlight (by simp)
      -- the request is struck off one step before `haveData` is called
      rw [List.map_nil, List.append_nil]
      refine ⟨hfifo, fun _ => ⟨request, begun, hbegun, hrequest⟩, ?_, ?_⟩
      · rw [hbegun] at hpending ⊢
        rw [closeRound_pendingNeedData, hsource]
        exact mem_erase_iff hpending
      · rwa [closeRound_overlappingNeedData]
  | offer c round offer rest =>
      obtain ⟨request, begun, hbegun, hsource, hrequest⟩ := hinFlight (by simp)
      have hsame : ledger (h ++ [Event.call (.addSegment round.requestId offer status)].map
          .client) = ledger h :=
        ledger_concat h _
      refine ⟨?_, fun _ => ?_, ?_, ?_⟩ <;> rw [hsame]
      · exact hfifo
      · exact ⟨request, begun, hbegun, hsource, hrequest⟩
      · exact hpending
      · exact hover
  | note c round answer rest =>
      obtain ⟨request, begun, hbegun, hsource, hrequest⟩ := hinFlight (by simp)
      rw [List.map_nil, List.append_nil]
      refine ⟨hfifo, fun _ => ⟨request, begun, hbegun, ?_⟩, ?_, ?_⟩
      · rw [noteAnswer_snd]
        split_ifs <;> exact ⟨hsource, hrequest⟩
      · rw [noteAnswer_pendingNeedData]
        exact hpending
      · rwa [noteAnswer_overlappingNeedData]
  | answer c answer requestId =>
      obtain ⟨request, begun, hbegun, -⟩ := hinFlight (by simp)
      have hnext : ledger (h ++ [Event.call (.haveData answer requestId)].map .client) =
          ⟨(ledger h).sent, markAnswered (ledger h).begun⟩ :=
        ledger_concat h _
      refine ⟨?_, fun hidle => absurd rfl hidle, ?_, ?_⟩ <;> rw [hnext]
      · rw [hfifo, hbegun]
        rfl
      · exact hpending
      · rw [overlaps_markAnswered]
        exact hover

theorem good_deliver {client : Client} {message : Message} {queue : List Message} {t : Threads}
    {h : List Entry} {es : List Event} (hgood : Good ⟨⟨client, .idle⟩, message :: queue⟩ h)
    (hstep : sections.step ⟨client, .idle⟩ message.opening = some (t, es)) :
    Good ⟨t, queue⟩ (h ++ es.map .client) := by
  obtain ⟨hfifo, -, hpending, hover⟩ := hgood
  have hopen : ∀ s, s ∈ client.pendingNeedData ↔ OpenFor s (ledger h).begun := hpending
  cases message with
  | need request =>
      obtain ⟨rfl, rfl⟩ := Prod.mk.inj (Option.some.inj hstep)
      have hnext : ledger (h ++ [Event.need request].map .client) =
          ⟨(ledger h).sent, (.need request, false) :: (ledger h).begun⟩ :=
        ledger_concat h _
      obtain ⟨hfor, hview⟩ := openRound_snd_for client request
      refine ⟨?_, ?_, ?_, ?_⟩ <;> rw [hnext]
      · simp [hfifo]
      · intro hactive
        exact ⟨request, _, rfl, hfor.resolve_left hactive⟩
      · intro s
        simp only [hview, openRound_pendingNeedData, Finset.mem_insert, OpenFor, hopen s]
        by_cases hs : request.sourceId = s
        · simp [hs]
        · simp [hs, Ne.symm hs]
      · simp only [openRound_overlappingNeedData, Bool.or_eq_true, decide_eq_true_eq, hopen,
          Overlaps]
        rw [or_comm]
        exact or_congr_right hover
  | cancel sourceId =>
      obtain ⟨rfl, rfl⟩ := Prod.mk.inj (Option.some.inj hstep)
      have hnext : ledger (h ++ [Event.cancel sourceId].map .client) =
          ⟨(ledger h).sent, (.cancel sourceId, false) :: (ledger h).begun⟩ :=
        ledger_concat h _
      refine ⟨?_, fun hactive => absurd rfl hactive, ?_, ?_⟩ <;> rw [hnext]
      · simp [hfifo]
      · intro s
        simp only [Client.notifyCancelNeedMediaData, Client.settle, Finset.mem_erase, hopen s,
          OpenFor, Activity.view, ne_comm]
      · exact hover

/-- **One step.** -/
theorem good_step {c c' : Channel} {h es : List Entry} {a : Move} (hgood : Good c h)
    (hstep : channel.step c a = some (c', es)) : Good c' (h ++ es) := by
  cases a with
  | send message =>
      obtain ⟨rfl, rfl⟩ := Prod.mk.inj (Option.some.inj hstep)
      have hnext : ledger (h ++ [.sent message]) =
          ⟨message :: (ledger h).sent, (ledger h).begun⟩ :=
        ledger_concat h _
      obtain ⟨hfifo, hinFlight, hpending, hover⟩ := hgood
      refine ⟨?_, ?_, ?_, ?_⟩ <;> rw [hnext]
      · simp [hfifo]
      · exact hinFlight
      · exact hpending
      · exact hover
  | deliver =>
      obtain ⟨⟨client, act⟩, queue⟩ := c
      cases queue with
      | nil => simp [channel] at hstep
      | cons message queue =>
          obtain ⟨r, hopening, heq⟩ := Option.map_eq_some_iff.1 hstep
          obtain ⟨rfl, rfl⟩ := Prod.mk.inj heq
          -- a callback starts only when none is in flight
          obtain rfl : act = .idle := idle_of_opening hopening
          exact good_deliver hgood hopening
  | advance status =>
      obtain ⟨r, hadvance, heq⟩ := Option.map_eq_some_iff.1 hstep
      obtain ⟨rfl, rfl⟩ := Prod.mk.inj heq
      exact good_advance hgood hadvance
  | app op =>
      obtain ⟨rfl, rfl⟩ := Prod.mk.inj (Option.some.inj hstep)
      have hsame : ledger (h ++ [Event.app op].map .client) = ledger h :=
        ledger_concat h _
      obtain ⟨hfifo, hinFlight, hpending, hover⟩ := hgood
      obtain ⟨hpend, hflag⟩ := apply_pendingNeedData c.threads.client op
      refine ⟨?_, ?_, ?_, ?_⟩ <;> rw [hsame]
      · exact hfifo
      · exact hinFlight
      · simp only [hpend]
        exact hpending
      · simp only [hflag]
        exact hover

/-- **What holds in every run.** -/
theorem good_of_run {as : List Move} {c : Channel} {h : List Entry}
    (hrun : channel.run Channel.init as = some (c, h)) : Good c h := by
  have hinit : Good Channel.init [] := by
    refine ⟨rfl, fun hactive => absurd rfl hactive, ?_, ?_⟩
    · intro s
      simp [Channel.init, Client.init, ledger, Activity.view, OpenFor]
    · simp [Channel.init, Client.init, ledger, Overlaps]
  have := Machine.run_induction (P := Good) (fun c h a c' h' hgood hstep => good_step hgood hstep)
    hinit hrun
  rwa [List.nil_append] at this

/-- **The overlaps that are flagged**: those of the order in which messages are begun. -/
theorem overlappingNeedData_iff {as : List Move} {c : Channel} {h : List Entry}
    (hrun : channel.run Channel.init as = some (c, h)) :
    c.threads.client.overlappingNeedData = true ↔ Overlaps (ledger h).begun :=
  (good_of_run hrun).overlapping

/-! ### Overlaps of the server -/

/-- The message sent behind `n` others has been handled to its end. -/
def Channel.Handled (c : Channel) (l : Ledger) (n : ℕ) : Prop :=
  n + 1 < l.begun.length ∨ n + 1 = l.begun.length ∧ c.threads.activity = .idle

/-- **Every overlap of the server is seen**: once a request has been handled that was sent while the
previous one for its source was outstanding, the flag is up. -/
def SeesOverlaps (c : Channel) (h : List Entry) : Prop :=
  ∀ h₀ request h₁ n, h = h₀ ++ .sent (.need request) :: h₁ →
    (ledger h₀).Outstanding request.sourceId n → c.Handled (ledger h) (ledger h₀).sent.length →
      c.threads.client.overlappingNeedData = true

/-- What was sent before a message that has been begun has been begun before it. -/
theorem begun_split {c : Channel} {h₀ h₁ : List Entry} {message : Message}
    (hgood : Good c (h₀ ++ .sent message :: h₁))
    (hlength : (ledger h₀).sent.length < (ledger (h₀ ++ .sent message :: h₁)).begun.length) :
    ∃ later answered earlier, (ledger (h₀ ++ .sent message :: h₁)).begun =
        later ++ (message, answered) :: earlier ∧ earlier.map Prod.fst = (ledger h₀).sent := by
  set l := ledger (h₀ ++ .sent message :: h₁) with hl
  have hsent : ∃ zs, l.sent = zs ++ message :: (ledger h₀).sent := by
    rw [hl, ledger_append, List.foldl_cons]
    exact sent_foldl h₁ _
  obtain ⟨zs, hzs⟩ := hsent
  have heq : c.queue.reverse ++ l.begun.map Prod.fst = zs ++ message :: (ledger h₀).sent :=
    hgood.fifo.symm.trans hzs
  have hbegun : ∃ ws, l.begun.map Prod.fst = ws ++ message :: (ledger h₀).sent := by
    rcases List.append_eq_append_iff.1 heq with ⟨ws, -, hws⟩ | ⟨ws, -, hws⟩
    · exact ⟨ws, hws⟩
    · -- the queue cannot reach into what was sent before: too much has been begun
      have hlen := congrArg List.length hws
      rw [List.length_append, List.length_cons, List.length_map] at hlen
      obtain rfl : ws = [] := List.length_eq_zero_iff.1 (by omega)
      exact ⟨[], hws.symm⟩
  obtain ⟨ws, hws⟩ := hbegun
  obtain ⟨later, rest, hsplit, -, hrest⟩ := List.map_eq_append_iff.1 hws
  obtain ⟨m, earlier, rfl, hm, hearlier⟩ := List.map_eq_cons_iff.1 hrest
  exact ⟨later, m.2, earlier, by rw [hsplit, ← hm], hearlier⟩

theorem getElem?_reverse_of_split {later earlier : List (Message × Bool)} {m : Message × Bool} :
    (later ++ m :: earlier).reverse[earlier.length]? = some m := by
  rw [List.reverse_append, List.reverse_cons, List.append_assoc,
    List.getElem?_append_right (by simp)]
  simp

/-- **An overlap of the server is flagged, unless the earlier request is answered before the later
one is begun.** -/
theorem overlappingNeedData_of_unanswered {as : List Move} {c : Channel} {h h₀ h₁ : List Entry}
    {request : NeedData} {n : ℕ} (hrun : channel.run Channel.init as = some (c, h))
    (hsend : h = h₀ ++ .sent (.need request) :: h₁)
    (hprevious : (ledger h₀).Outstanding request.sourceId n)
    (hhandled : c.Handled (ledger h) (ledger h₀).sent.length)
    (hunanswered : ¬ (ledger h).Answered n) : c.threads.client.overlappingNeedData = true := by
  subst hsend
  have hgood := good_of_run hrun
  obtain ⟨after, answered, before, hbegun, hbefore⟩ := begun_split hgood (by
    rcases hhandled with h | ⟨h, -⟩ <;> omega)
  obtain ⟨later, previous, earlier, hsent, hsource, hlater, rfl, -⟩ := hprevious
  -- the previous request among the messages begun
  rw [hsent] at hbefore
  obtain ⟨later', rest, rfl, rfl, hrest⟩ := List.map_eq_append_iff.1 hbefore
  obtain ⟨⟨_, answered'⟩, earlier', rfl, rfl, rfl⟩ := List.map_eq_cons_iff.1 hrest
  have hfalse : answered' = false := by
    rw [Bool.eq_false_iff]
    rintro rfl
    refine hunanswered ?_
    rw [Ledger.Answered, hbegun, ← List.cons_append, ← List.append_assoc, List.length_map,
      getElem?_reverse_of_split]
    rfl
  have hopen : OpenFor request.sourceId (later' ++ (.need previous, answered') :: earlier') := by
    rw [openFor_append fun m hm => hlater m.1 (List.mem_map_of_mem hm), OpenFor, if_pos hsource]
    exact hfalse
  have hover : Overlaps ((.need request, answered) ::
      (later' ++ (.need previous, answered') :: earlier')) := Or.inl hopen
  rw [overlappingNeedData_iff hrun, hbegun]
  exact overlaps_append hover after

/-- A request is left unanswered, and the next one is sent. -/
def withheldRun : List Move :=
  [.app (.setWithhold true), .send (.need ⟨1, 1, 1, true⟩), .deliver,
    .send (.need ⟨1, 1, 2, true⟩), .deliver]

/-- The overlap is flagged. -/
theorem overlappingNeedData_withheldRun :
    ∃ c h, channel.run Channel.init withheldRun = some (c, h) ∧
      c.threads.client.overlappingNeedData = true := by
  refine ⟨_, _, rfl, ?_⟩
  exact @overlappingNeedData_of_unanswered withheldRun _ _
    [.client (.app (.setWithhold true)), .sent (.need ⟨1, 1, 1, true⟩),
      .client (.need ⟨1, 1, 1, true⟩)]
    _ ⟨1, 1, 2, true⟩ 0 rfl rfl
    ⟨[], ⟨1, 1, 1, true⟩, [], rfl, rfl, by simp, rfl, by decide⟩ (Or.inr ⟨rfl, rfl⟩) (by decide)

/-- Two requests for a source are sent before the first one is taken up. -/
def queuedRun : List Move :=
  [.app (.setPipeline true), .app (.addAudioSource 1 twoFrames),
    .send (.need ⟨1, 1, 1, true⟩), .send (.need ⟨1, 1, 2, true⟩),
    .deliver, .advance .ok, .advance .ok, .advance .ok, .advance .ok,
    .deliver, .advance .ok, .advance .ok, .advance .ok, .advance .ok]

/-- The first one is answered before the second one is taken up, and nothing is flagged. -/
theorem not_seesOverlaps : ¬ ∀ as c h, channel.run Channel.init as = some (c, h) →
    SeesOverlaps c h := by
  intro hall
  have hflag := hall queuedRun _ _ rfl
    [.client (.app (.setPipeline true)), .client (.app (.addAudioSource 1 twoFrames)),
      .sent (.need ⟨1, 1, 1, true⟩)] ⟨1, 1, 2, true⟩ _ 0 rfl
    ⟨[], ⟨1, 1, 1, true⟩, [], rfl, rfl, by simp, rfl, by decide⟩ (Or.inr ⟨rfl, rfl⟩)
  exact absurd hflag (by decide)

end Feed
