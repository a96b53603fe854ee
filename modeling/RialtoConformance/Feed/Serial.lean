/-
**Interleaved requests are whole requests.**

The application may call between any two sections of a request.  A call that does not set back the
cursor of the source that is being fed can be put off until the request has been answered: it
changes nothing that the sections behind it read.  So an interleaving in which no cursor is set back
under a request for its source is a run of whole requests, with the same calls on the pipeline in
the same order, and what holds of whole requests holds of it.

The callback reads the pipeline pointer again for each of its calls.  A call that sets another
pipeline under a request would send the rest of them there, or nowhere, and is ruled out.

Main definitions:

* `Feed.Activity.feeding` — the source whose cursor the request in flight is going to move;
* `Feed.NoResetInFlight` — no call sets that cursor back;
* `Feed.Undisturbed` — nor does a call set another pipeline under a request;
* `Feed.Independent` — a call of the application and one on the pipeline that do not concern the
  same source.

Main results:

* `Feed.app_commutes` — **a call of the application can be put off** behind a section;
* `Feed.whole_of_advances` — the sections of a request, one after the other, are a whole request;
* `Feed.serializable` — **interleaved requests are whole requests**;
* `Feed.offers_registered` — what is offered is of streams that are registered;
* `Feed.lossless_interleaved` — interleaved feeding is in order and without loss.
-/
import RialtoConformance.Lib.Deferral
import RialtoConformance.Feed.Interleaving
import RialtoConformance.Feed.Lossless
import RialtoConformance.Feed.Payload

set_option relaxedAutoImplicit false
set_option autoImplicit false

namespace Feed

open Runs

/-! ### Putting a call off -/

/-- The source whose cursor the request in flight is going to move. -/
def Activity.feeding : Activity → Option Int32
  | .offering round _ => some round.sourceId
  | .noting round _ _ => some round.sourceId
  | _ => none

/-- A call that does not set back the cursor that is going to be moved. -/
def MayWait (t : Threads) : Section → Prop
  | .app op => ∀ s, t.activity.feeding = some s → ¬ op.Resets s
  | _ => True

/-- **No call sets back a cursor that the request in flight is going to move.** -/
def NoResetInFlight (t : Threads) (as : List Section) : Prop :=
  sections.Deferrable Section.isApp MayWait t as

/-- A call that does not disturb the request in flight: it does not set back the cursor that is
going to be moved, and sets no pipeline. -/
def Undisturbing (t : Threads) (a : Section) : Prop :=
  MayWait t a ∧ (t.activity ≠ .idle → ∀ pipeline, a ≠ .app (.setPipeline pipeline))

/-- **No call disturbs a request in flight.** -/
def Undisturbed (t : Threads) (as : List Section) : Prop :=
  sections.Deferrable Section.isApp Undisturbing t as

theorem Undisturbed.noResetInFlight {t : Threads} {as : List Section} (h : Undisturbed t as) :
    NoResetInFlight t as := h.mono fun _ _ _ hmay => hmay.1

/-- **A call of the application and one on the pipeline that do not concern the same source.** -/
def Independent : Event → Event → Prop
  | .app op, .call (.addSegment _ offer _) => ¬ op.Resets offer.segment.sourceId
  | .app _, .call (.haveData _ _) => True
  | _, _ => False

/-- The segments still to be offered are for the source of the request. -/
def Activity.ForSource : Activity → Prop
  | .offering round rest => ∀ o ∈ rest, o.segment.sourceId = round.sourceId
  | .noting round _ rest => ∀ o ∈ rest, o.segment.sourceId = round.sourceId
  | _ => True

theorem apply_settle (c : Client) (op : AppOp) (s : Int32) :
    (op.apply c).settle s = op.apply (c.settle s) := by
  cases op <;> rfl

theorem apply_noteAnswer (c : Client) (op : AppOp) (round : Round) (status : AddSegmentStatus) :
    (op.apply c).noteAnswer round status =
      (op.apply (c.noteAnswer round status).1, (c.noteAnswer round status).2) := by
  have hframe : (op.apply c).noSpaceFrame = c.noSpaceFrame := by cases op <;> rfl
  cases status with
  | ok =>
      simp only [Client.noteAnswer, hframe]
      by_cases h : c.noSpaceFrame round.sourceId = some (round.firstFrame + round.accepted)
      · simp only [if_pos h]
        cases op <;> rfl
      · simp only [if_neg h]
        cases op <;> rfl
  | noSpace => cases op <;> rfl
  | error => cases op <;> rfl

/-- **A call that sets back another cursor does not disturb the last section.** -/
theorem apply_closeRound {c : Client} {op : AppOp} {round : Round} (h : ¬ op.Resets round.sourceId) :
    (op.apply c).closeRound round =
      (op.apply (c.closeRound round).1, (c.closeRound round).2) := by
  simp only [Client.closeRound, apply_feeds_of_not_resets h]
  cases hfeed : c.feeds round.sourceId with
  | none => simp only [apply_settle]
  | some feed =>
      simp only [apply_settle, Prod.mk.injEq, and_true]
      cases op with
      | addAudioSource s stream =>
          simp only [AppOp.apply, Client.addAudioSource, Client.settle]
          rw [Function.update_comm (Ne.symm h)]
      | rewindSource s =>
          simp only [AppOp.apply, Client.rewindSource, Client.settle]
          rw [Function.update_comm (Ne.symm h), Function.update_of_ne h]
      | _ => rfl

theorem advance_apply {t : Threads} {op : AppOp} {status : AddSegmentStatus}
    (h : ∀ s, t.activity.feeding = some s → ¬ op.Resets s) :
    (⟨op.apply t.client, t.activity⟩ : Threads).advance status =
      (t.advance status).map fun r => (⟨op.apply r.1.client, r.1.activity⟩, r.2) := by
  obtain ⟨c, act⟩ := t
  cases act with
  | idle => rfl
  | starving s requestId => simp only [Threads.advance, apply_settle, Option.map_some]
  | offering round rest =>
      cases rest with
      | nil => simp only [Threads.advance, apply_closeRound (h round.sourceId rfl), Option.map_some]
      | cons offer rest => rfl
  | noting round answer rest => simp only [Threads.advance, apply_noteAnswer, Option.map_some]
  | answering answer requestId => rfl

/-- The request in flight is for the source it has been for, as long as it feeds it. -/
theorem feeding_of_advanced {t t' : Threads} {status : AddSegmentStatus} {es : List Event}
    (h : Advanced t status t' es) {s : Int32} (hs : t'.activity.feeding = some s) :
    t.activity.feeding = some s := by
  cases h with
  | settle c sourceId requestId => simp [Activity.feeding] at hs
  | close c round => simp [Activity.feeding] at hs
  | offer c round offer rest => exact hs
  | note c round answer rest =>
      simp only [Activity.feeding, noteAnswer_snd, Option.some.injEq] at hs ⊢
      rw [← hs]
      split <;> rfl
  | answer c answer requestId => simp [Activity.feeding] at hs

/-- A step is a section of the request in flight. -/
def Section.isAdvance : Section → Prop
  | .advance _ => True
  | _ => False

theorem independent_of_advanced {t t' : Threads} {status : AddSegmentStatus} {es : List Event}
    (h : Advanced t status t' es) (hfor : t.activity.ForSource) {op : AppOp}
    (hop : ∀ s, t.activity.feeding = some s → ¬ op.Resets s) :
    ∀ e ∈ es, Independent (.app op) e := by
  cases h with
  | offer c round offer rest =>
      intro e he
      obtain rfl := List.mem_singleton.1 he
      have hsource : offer.segment.sourceId = round.sourceId := hfor offer List.mem_cons_self
      show ¬ op.Resets offer.segment.sourceId
      rw [hsource]
      exact hop round.sourceId rfl
  | answer c answer requestId =>
      intro e he
      obtain rfl := List.mem_singleton.1 he
      trivial
  | _ => simp

/-- **A call of the application can be put off** behind a section of the request in flight. -/
theorem app_commutes {t : Threads} {op : AppOp} {status : AddSegmentStatus}
    (hfor : t.activity.ForSource) (hop : ∀ s, t.activity.feeding = some s → ¬ op.Resets s) :
    sections.Commutes Independent t (.app op) (.advance status) := by
  intro t₁ o₁ t₂ o₂ happ hadvance
  obtain ⟨rfl, rfl⟩ := Prod.mk.inj (Option.some.inj happ)
  have heq : (⟨op.apply t.client, t.activity⟩ : Threads).advance status = some (t₂, o₂) := hadvance
  rw [advance_apply hop, Option.map_eq_some_iff] at heq
  obtain ⟨⟨u, es⟩, hu, heq⟩ := heq
  obtain ⟨rfl, rfl⟩ := Prod.mk.inj heq
  refine ⟨?_, u, hu, rfl⟩
  intro x hx
  obtain rfl := List.mem_singleton.1 hx
  exact independent_of_advanced (advanced_of_advance hu) hfor hop

/-- The segments still to be offered stay segments for the source of the request. -/
theorem forSource_step {t t' : Threads} {a : Section} {es : List Event}
    (hfor : t.activity.ForSource) (h : sections.step t a = some (t', es)) :
    t'.activity.ForSource := by
  cases stepped_of_step h with
  | app c act op => exact hfor
  | cancel c s => trivial
  | need c need =>
      rcases unanswered_or_feed c need with hnone | ⟨feed, hpipeline, hfeed, hwithhold⟩
      · rw [openRound_snd_of_unanswered hnone]
        trivial
      · rw [openRound_snd_of_feed hpipeline hfeed hwithhold]
        split
        · trivial
        · exact offers_sourceId c need feed
  | advance h =>
      cases advanced_of_advance h with
      | offer c round offer rest =>
          intro o ho
          exact hfor o (List.mem_cons_of_mem _ ho)
      | note c round answer rest =>
          have hsource : (c.noteAnswer round answer).2.sourceId = round.sourceId := by
            rw [noteAnswer_snd]
            split <;> rfl
          intro o ho
          rw [hsource]
          refine hfor o ?_
          rw [restAfter] at ho
          split at ho
          · exact ho
          · simp at ho
      | _ => trivial

/-! ### One request after the other -/

/-- Offering a batch and closing the request. -/
def Client.answerWith (c : Client) (round : Round) (offers : List Offer)
    (answers : ℕ → AddSegmentStatus) : Client × List PipelineCall :=
  let offered := c.offerAll offers round answers
  let closed := offered.1.closeRound offered.2.1
  (closed.1, offered.2.2 ++ [.haveData closed.2 round.requestId])

theorem offerAll_congr {answers answers' : ℕ → AddSegmentStatus} : ∀ {offers : List Offer}
    {c : Client} {round : Round}, (∀ k, round.accepted ≤ k → answers k = answers' k) →
      c.offerAll offers round answers = c.offerAll offers round answers' := by
  intro offers
  induction offers with
  | nil => intro c round _; rfl
  | cons offer rest ih =>
      intro c round h
      simp only [Client.offerAll, h round.accepted le_rfl]
      by_cases hok : answers' round.accepted = .ok
      · have hlater : ∀ k, (c.noteAnswer round (answers' round.accepted)).2.accepted ≤ k →
            answers k = answers' k := by
          intro k hk
          rw [noteAnswer_snd, if_pos hok] at hk
          exact h k (by simp only at hk; omega)
        rw [if_pos hok, if_pos hok, ih hlater]
      · rw [if_neg hok, if_neg hok]

theorem answerWith_cons {c : Client} {round : Round} {offer : Offer} {rest : List Offer}
    {status : AddSegmentStatus} {answers : ℕ → AddSegmentStatus}
    (h : answers round.accepted = status) :
    c.answerWith round (offer :: rest) answers =
      (((c.noteAnswer round status).1.answerWith (c.noteAnswer round status).2
          (restAfter status rest) answers).1,
        .addSegment round.requestId offer status ::
          ((c.noteAnswer round status).1.answerWith (c.noteAnswer round status).2
            (restAfter status rest) answers).2) := by
  have hid : (c.noteAnswer round status).2.requestId = round.requestId := by
    rw [noteAnswer_snd]
    split <;> rfl
  simp only [Client.answerWith, Client.offerAll, h, restAfter, hid]
  by_cases hok : status = .ok
  · simp only [if_pos hok, List.cons_append]
  · simp only [if_neg hok, Client.offerAll, List.nil_append, List.cons_append]

theorem advance_of_run {as : List Section} {c : Client} {act : Activity} {t : Threads}
    {es : List Event} (hact : act ≠ .idle) (has : ∀ a ∈ as, a.isAdvance)
    (hrun : sections.run ⟨c, act⟩ as = some (t, es)) (ht : t.activity = .idle) :
    ∃ status rest u es₁ es₂, as = .advance status :: rest ∧ (∀ a ∈ rest, a.isAdvance) ∧
      (⟨c, act⟩ : Threads).advance status = some (u, es₁) ∧ sections.run u rest = some (t, es₂) ∧
        es = es₁ ++ es₂ := by
  cases as with
  | nil =>
      obtain ⟨rfl, -⟩ := Prod.mk.inj (Option.some.inj hrun)
      exact absurd ht hact
  | cons a rest =>
      obtain ⟨u, es₁, es₂, hstep, hrest, rfl⟩ := Machine.run_cons.1 hrun
      have ha := has a List.mem_cons_self
      cases a with
      | advance status =>
          exact ⟨status, rest, u, es₁, es₂, rfl, fun b hb => has b (List.mem_cons_of_mem _ hb),
            hstep, hrest, rfl⟩
      | _ => exact absurd ha id

theorem advances_of_idle {as : List Section} {c : Client} {t : Threads} {es : List Event}
    (has : ∀ a ∈ as, a.isAdvance) (hrun : sections.run ⟨c, .idle⟩ as = some (t, es)) :
    t = ⟨c, .idle⟩ ∧ es = [] := by
  cases as with
  | nil =>
      obtain ⟨rfl, rfl⟩ := Prod.mk.inj (Option.some.inj hrun)
      exact ⟨rfl, rfl⟩
  | cons a rest =>
      obtain ⟨u, es₁, es₂, hstep, -, -⟩ := Machine.run_cons.1 hrun
      have ha := has a List.mem_cons_self
      cases a with
      | advance status => simp [sections, Threads.advance] at hstep
      | _ => exact absurd ha id

theorem advances_of_answering {as : List Section} {c c' : Client} {status : MediaSourceStatus}
    {requestId : UInt32} {es : List Event} (has : ∀ a ∈ as, a.isAdvance)
    (hrun : sections.run ⟨c, .answering status requestId⟩ as = some (⟨c', .idle⟩, es)) :
    c' = c ∧ es = [.call (.haveData status requestId)] := by
  obtain ⟨answer, rest, u, es₁, es₂, -, hrest, hstep, hlast, rfl⟩ :=
    advance_of_run (by simp) has hrun rfl
  obtain ⟨rfl, rfl⟩ := Prod.mk.inj (Option.some.inj hstep)
  obtain ⟨hend, rfl⟩ := advances_of_idle hrest hlast
  exact ⟨congrArg Threads.client hend, rfl⟩

/-- **The sections that offer a batch** are the loop that offers it, with the answers of the server
to its segments. -/
theorem answerWith_of_advances : ∀ {offers : List Offer} {as : List Section} {c c' : Client}
    {round : Round} {es : List Event}, (∀ a ∈ as, a.isAdvance) →
      sections.run ⟨c, .offering round offers⟩ as = some (⟨c', .idle⟩, es) →
        ∃ answers, c' = (c.answerWith round offers answers).1 ∧
          es = (c.answerWith round offers answers).2.map .call := by
  -- the last section and the call behind it
  have hclose : ∀ {as : List Section} {c c' : Client} {round : Round} {es : List Event},
      (∀ a ∈ as, a.isAdvance) →
        sections.run ⟨c, .offering round []⟩ as = some (⟨c', .idle⟩, es) →
          ∀ answers, c' = (c.answerWith round [] answers).1 ∧
            es = (c.answerWith round [] answers).2.map .call := by
    intro as c c' round es has hrun answers
    obtain ⟨status, rest, u, es₁, es₂, -, hrest, hstep, hlast, rfl⟩ :=
      advance_of_run (by simp) has hrun rfl
    obtain ⟨rfl, rfl⟩ := Prod.mk.inj (Option.some.inj hstep)
    obtain ⟨rfl, rfl⟩ := advances_of_answering hrest hlast
    exact ⟨rfl, rfl⟩
  intro offers
  induction offers with
  | nil =>
      intro as c c' round es has hrun
      exact ⟨fun _ => .ok, hclose has hrun _⟩
  | cons offer rest ih =>
      intro as c c' round es has hrun
      -- the segment is offered, and its answer taken note of
      obtain ⟨status, as₁, u, es₁, es₂, -, has₁, hoffer, hrun₁, rfl⟩ :=
        advance_of_run (by simp) has hrun rfl
      obtain ⟨rfl, rfl⟩ := Prod.mk.inj (Option.some.inj hoffer)
      obtain ⟨next, as₂, u, es₃, es₄, -, has₂, hnote, hrun₂, rfl⟩ :=
        advance_of_run (by simp) has₁ hrun₁ rfl
      obtain ⟨rfl, rfl⟩ := Prod.mk.inj (Option.some.inj hnote)
      by_cases hok : status = .ok
      · rw [restAfter, if_pos hok] at hrun₂
        obtain ⟨answers, hclient, hcalls⟩ := ih has₂ hrun₂
        have hsame : (c.noteAnswer round status).1.offerAll rest (c.noteAnswer round status).2
            (Function.update answers round.accepted status) =
              (c.noteAnswer round status).1.offerAll rest (c.noteAnswer round status).2 answers := by
          refine offerAll_congr fun k hk => Function.update_of_ne ?_ _ _
          rw [noteAnswer_snd, if_pos hok] at hk
          simp only at hk
          omega
        refine ⟨Function.update answers round.accepted status, ?_⟩
        rw [answerWith_cons (Function.update_self ..), restAfter, if_pos hok, Client.answerWith, hsame]
        exact ⟨hclient, by rw [hcalls]; rfl⟩
      · rw [restAfter, if_neg hok] at hrun₂
        refine ⟨fun _ => status, ?_⟩
        obtain ⟨hclient, hcalls⟩ := hclose has₂ hrun₂ fun _ => status
        rw [answerWith_cons rfl, restAfter, if_neg hok]
        exact ⟨hclient, by rw [hcalls]; rfl⟩

/-- **The sections of a request, one after the other, are a whole request.** -/
theorem whole_of_advances {as : List Section} {c c' : Client} {need : NeedData} {es : List Event}
    (has : ∀ a ∈ as, a.isAdvance)
    (hrun : sections.run ⟨(c.openRound need).1, (c.openRound need).2⟩ as =
      some (⟨c', .idle⟩, es)) :
    ∃ answers, c' = (c.notifyNeedMediaData need answers).1 ∧
      es = (c.notifyNeedMediaData need answers).2.map .call := by
  rcases unanswered_or_feed c need with hnone | ⟨feed, hpipeline, hfeed, hwithhold⟩
  · rw [openRound_snd_of_unanswered hnone] at hrun
    obtain ⟨hend, rfl⟩ := advances_of_idle has hrun
    refine ⟨fun _ => .ok, ?_⟩
    rw [notifyNeedMediaData_of_unanswered _ hnone]
    exact ⟨congrArg Threads.client hend, rfl⟩
  · have hopen := openRound_snd_of_feed hpipeline hfeed hwithhold
    cases hstarve : c.starve with
    | true =>
        rw [hstarve, if_pos rfl] at hopen
        rw [hopen] at hrun
        obtain ⟨status, rest, u, es₁, es₂, -, hrest, hstep, hlast, rfl⟩ :=
          advance_of_run (by simp) has hrun rfl
        obtain ⟨rfl, rfl⟩ := Prod.mk.inj (Option.some.inj hstep)
        obtain ⟨rfl, rfl⟩ := advances_of_answering hrest hlast
        refine ⟨fun _ => .ok, ?_⟩
        rw [notifyNeedMediaData_of_starve _ hpipeline hfeed hwithhold hstarve]
        exact ⟨rfl, rfl⟩
    | false =>
        rw [hstarve, if_neg (by simp)] at hopen
        rw [hopen] at hrun
        obtain ⟨answers, hclient, hcalls⟩ := answerWith_of_advances has hrun
        have hnotify : c.notifyNeedMediaData need answers = (c.openRound need).1.answerWith
            ⟨need.sourceId, need.requestId, feed.nextFrame, 0⟩ (c.offers need feed) answers := by
          simp only [Client.notifyNeedMediaData, hopen]
          rfl
        exact ⟨answers, by rw [hnotify, hclient], by rw [hnotify, hcalls]⟩

/-! ### Runs -/

theorem apps_run : ∀ {as : List Section} {c : Client} {act : Activity} {t : Threads}
    {es : List Event}, (∀ a ∈ as, a.isApp = true) → sections.run ⟨c, act⟩ as = some (t, es) →
      t.activity = act ∧ ∃ bs, rounds.run c bs = some (t.client, es) := by
  intro as
  induction as with
  | nil =>
      intro c act t es _ hrun
      obtain ⟨rfl, rfl⟩ := Prod.mk.inj (Option.some.inj hrun)
      exact ⟨rfl, [], rfl⟩
  | cons a as ih =>
      intro c act t es has hrun
      obtain ⟨u, es₁, es₂, hstep, hrest, rfl⟩ := Machine.run_cons.1 hrun
      have ha := has a List.mem_cons_self
      cases a with
      | app op =>
          obtain ⟨rfl, rfl⟩ := Prod.mk.inj (Option.some.inj hstep)
          obtain ⟨hact, bs, hbs⟩ := ih (fun b hb => has b (List.mem_cons_of_mem _ hb)) hrest
          exact ⟨hact, .app op :: bs, Machine.run_cons.2 ⟨_, _, _, rfl, hbs, rfl⟩⟩
      | _ => exact absurd ha (by simp [Section.isApp])

/-- **A run up to where the request in flight ends**: until then there are its sections and calls
of the application. -/
theorem first_idle : ∀ {as : List Section} {t : Threads} {c' : Client} {es : List Event},
    sections.run t as = some (⟨c', .idle⟩, es) →
      ∃ window rest u es₁ es₂, as = window ++ rest ∧
        (∀ a ∈ window, a.isApp = false → a.isAdvance) ∧
        sections.run t window = some (⟨u, .idle⟩, es₁) ∧
        sections.run ⟨u, .idle⟩ rest = some (⟨c', .idle⟩, es₂) ∧ es = es₁ ++ es₂ := by
  intro as
  induction as with
  | nil =>
      intro t c' es hrun
      obtain ⟨rfl, rfl⟩ := Prod.mk.inj (Option.some.inj hrun)
      exact ⟨[], [], c', [], [], rfl, by simp, rfl, rfl, rfl⟩
  | cons a as ih =>
      intro t c' es hrun
      obtain ⟨c, act⟩ := t
      by_cases hidle : act = .idle
      · subst hidle
        exact ⟨[], a :: as, c, [], es, rfl, by simp, rfl, hrun, rfl⟩
      · obtain ⟨v, es₁, es₂, hstep, hrest, rfl⟩ := Machine.run_cons.1 hrun
        obtain ⟨window, rest, u, p, q, rfl, hwindow, hfirst, hlast, rfl⟩ := ih hrest
        have hgo : a.isApp = false → a.isAdvance := by
          intro hnot
          cases a with
          | app op => simp [Section.isApp] at hnot
          | advance status => trivial
          | need need => simp [sections, hidle] at hstep
          | cancel s => simp [sections, hidle] at hstep
        refine ⟨a :: window, rest, u, es₁ ++ p, q, rfl, ?_,
          Machine.run_cons.2 ⟨v, es₁, p, hstep, hfirst, rfl⟩, hlast, (List.append_assoc ..).symm⟩
        intro b hb
        rcases List.mem_cons.1 hb with rfl | hb
        · exact hgo
        · exact hwindow b hb

/-- A call may wait, and the segments still to be offered are for the source of the request. -/
def Waits (t : Threads) (a : Section) : Prop := t.activity.ForSource ∧ MayWait t a

theorem waits_step (t : Threads) (a b : Section) (t' : Threads) (es : List Event) (h : Waits t a)
    (hb : b.isAdvance) (hstep : sections.step t b = some (t', es)) : Waits t' a := by
  refine ⟨forSource_step h.1 hstep, ?_⟩
  cases a with
  | app op =>
      cases b with
      | advance status =>
          intro s hs
          exact h.2 s (feeding_of_advanced (advanced_of_advance hstep) hs)
      | _ => exact absurd hb id
  | _ => trivial

theorem waits_commutes (t : Threads) (a b : Section) (h : Waits t a) (ha : a.isApp = true)
    (hb : b.isAdvance) : sections.Commutes Independent t a b := by
  cases a with
  | app op =>
      cases b with
      | advance status => exact app_commutes h.1 h.2
      | _ => exact absurd hb id
  | _ => exact absurd ha (by simp [Section.isApp])

/-- **A request with calls of the application under way is the whole request, and the calls behind
it.** -/
theorem window_serial {c u : Client} {need : NeedData} {window : List Section} {es : List Event}
    (hkind : ∀ a ∈ window, a.isApp = false → a.isAdvance)
    (hkeep : NoResetInFlight ⟨(c.openRound need).1, (c.openRound need).2⟩ window)
    (hrun : sections.run ⟨(c.openRound need).1, (c.openRound need).2⟩ window =
      some (⟨u, .idle⟩, es)) :
    ∃ bs es', rounds.run c bs = some (u, .need need :: es') ∧ Swapped Independent es es' := by
  have hopen : sections.step ⟨c, .idle⟩ (.need need) =
      some (⟨(c.openRound need).1, (c.openRound need).2⟩, [.need need]) := rfl
  have hfor := forSource_step (t := ⟨c, .idle⟩) trivial hopen
  have hdefer : sections.Deferrable Section.isApp Waits
      ⟨(c.openRound need).1, (c.openRound need).2⟩ window := by
    intro before a rest hsplit ha t o ht
    refine ⟨?_, hkeep before a rest hsplit ha t o ht⟩
    exact Machine.run_invariant (P := fun t => t.activity.ForSource)
      (fun s a s' o hs hstep => forSource_step hs hstep) hfor ht
  obtain ⟨t, o₁, o₂, hearly, hlater, hswap⟩ :=
    Machine.run_deferred waits_step waits_commutes hkind hdefer hrun
  -- the sections of the request, and the calls behind them
  obtain ⟨hidle, bs, hbs⟩ := apps_run (fun a ha => (List.mem_filter.1 ha).2) hlater
  obtain ⟨client, act⟩ := t
  obtain rfl : act = .idle := hidle.symm
  have hadvances : ∀ a ∈ window.filter fun a => !a.isApp, a.isAdvance := by
    intro a ha
    obtain ⟨hmem, hnot⟩ := List.mem_filter.1 ha
    exact hkind a hmem (by simpa using hnot)
  obtain ⟨answers, rfl, rfl⟩ := whole_of_advances hadvances hearly
  exact ⟨.need need answers :: bs, _, Machine.run_cons.2 ⟨_, _, _, rfl, hbs, rfl⟩, hswap⟩

theorem mayWait_of_feeding {t : Threads} {a : Section} (h : t.activity.feeding = none) :
    MayWait t a := by
  cases a with
  | app op =>
      intro s hs
      rw [h] at hs
      simp at hs
  | _ => trivial

theorem rounds_of_sections : ∀ (n : ℕ) {as : List Section} {c c' : Client} {h : List Event},
    as.length = n → NoResetInFlight ⟨c, .idle⟩ as →
      sections.run ⟨c, .idle⟩ as = some (⟨c', .idle⟩, h) →
        ∃ bs h', rounds.run c bs = some (c', h') ∧ Swapped Independent h h' := by
  intro n
  induction n using Nat.strong_induction_on with
  | _ n ih =>
      intro as c c' h hn hkeep hrun
      cases as with
      | nil =>
          obtain ⟨heq, rfl⟩ := Prod.mk.inj (Option.some.inj hrun)
          obtain rfl : c = c' := congrArg Threads.client heq
          exact ⟨[], [], rfl, .refl _⟩
      | cons a rest =>
          rw [List.length_cons] at hn
          obtain ⟨t, es₁, es₂, hstep, hrest, rfl⟩ := Machine.run_cons.1 hrun
          have hkeep' : NoResetInFlight t rest := hkeep.tail hstep
          cases a with
          | app op =>
              obtain ⟨rfl, rfl⟩ := Prod.mk.inj (Option.some.inj hstep)
              obtain ⟨bs, h', hbs, hswap⟩ := ih rest.length (by omega) rfl hkeep' hrest
              exact ⟨.app op :: bs, _, Machine.run_cons.2 ⟨_, _, _, rfl, hbs, rfl⟩,
                (Swapped.refl [.app op]).append hswap⟩
          | cancel s =>
              obtain ⟨rfl, rfl⟩ := Prod.mk.inj (Option.some.inj hstep)
              obtain ⟨bs, h', hbs, hswap⟩ := ih rest.length (by omega) rfl hkeep' hrest
              exact ⟨.cancel s :: bs, _, Machine.run_cons.2 ⟨_, _, _, rfl, hbs, rfl⟩,
                (Swapped.refl [.cancel s]).append hswap⟩
          | advance status => simp [sections, Threads.advance] at hstep
          | need need =>
              obtain ⟨rfl, rfl⟩ := Prod.mk.inj (Option.some.inj hstep)
              -- up to where this request ends, and from there on
              obtain ⟨window, later, u, p, q, rfl, hkind, hwindow, hlater, rfl⟩ := first_idle hrest
              obtain ⟨bs, p', hbs, hp⟩ := window_serial hkind hkeep'.earlier hwindow
              rw [List.length_append] at hn
              obtain ⟨bs', q', hbs', hq⟩ := ih later.length (by omega) rfl
                (hkeep'.later hwindow) hlater
              exact ⟨bs ++ bs', .need need :: p' ++ q',
                Machine.run_append.2 ⟨_, _, _, hbs, hbs', rfl⟩,
                (Swapped.refl [.need need]).append (hp.append hq)⟩

def Event.isApp : Event → Bool
  | .app _ => true
  | _ => false

/-- Independent events are one of the application and one on the pipeline, so that each of the two
sees the same order. -/
theorem filter_eq_of_swapped {h h' : List Event} (hswap : Swapped Independent h h') :
    h.filter Event.isApp = h'.filter Event.isApp ∧
      h.filter (fun e => !e.isApp) = h'.filter fun e => !e.isApp := by
  have hapart : ∀ x y, Independent x y → x.isApp = true ∧ y.isApp = false := by
    intro x y hxy
    cases x with
    | app op =>
        cases y with
        | call made => exact ⟨rfl, rfl⟩
        | _ => exact absurd hxy id
    | _ => exact absurd hxy id
  constructor
  · refine hswap.filter_eq fun x y hxy hboth => ?_
    rw [(hapart x y hxy).2] at hboth
    exact Bool.false_ne_true hboth.2
  · refine hswap.filter_eq fun x y hxy hboth => ?_
    rw [(hapart x y hxy).1] at hboth
    exact Bool.false_ne_true hboth.1

/-- **Interleaved requests are whole requests**: an interleaving in which no call disturbs a request
in flight ends as a run of whole requests does, with the same history but for the order of calls
that do not concern the same source, so that the application and the server each see the same; and
every run of whole requests is one of these. -/
theorem serializable (c c' : Client) :
    (∀ as h, Undisturbed ⟨c, .idle⟩ as →
      sections.run ⟨c, .idle⟩ as = some (⟨c', .idle⟩, h) →
        ∃ bs h', rounds.run c bs = some (c', h') ∧ Swapped Independent h h' ∧
          h.filter Event.isApp = h'.filter Event.isApp ∧
            h.filter (fun e => !e.isApp) = h'.filter fun e => !e.isApp) ∧
      ∀ bs h, rounds.run c bs = some (c', h) →
        ∃ as, Undisturbed ⟨c, .idle⟩ as ∧
          sections.run ⟨c, .idle⟩ as = some (⟨c', .idle⟩, h) := by
  refine ⟨fun as h hkeep hrun => ?_, fun bs h hrun => ?_⟩
  · obtain ⟨bs, h', hbs, hswap⟩ := rounds_of_sections _ rfl hkeep.noResetInFlight hrun
    exact ⟨bs, h', hbs, hswap, filter_eq_of_swapped hswap⟩
  · obtain ⟨as, hidle, has⟩ := sections_of_rounds hrun
    refine ⟨as, hidle.mono fun t a _ ht => ⟨mayWait_of_feeding ?_, fun hnot => absurd ht hnot⟩, has⟩
    rw [ht]
    rfl

/-- Two frames are asked for; between the answers another source is registered, and rewound. -/
def busyRun : List Section :=
  [.app (.setPipeline true), .app (.addAudioSource 1 twoFrames), .need ⟨1, 2, 1, true⟩,
    .advance .ok, .app (.addAudioSource 2 twoFrames), .advance .ok, .advance .noSpace,
    .app (.rewindSource 2), .advance .ok, .advance .ok, .advance .ok]

theorem undisturbed_busyRun : Undisturbed ⟨Client.init, .idle⟩ busyRun := by
  refine .cons (fun _ => ⟨mayWait_of_feeding rfl, by simp⟩) rfl ?_
  refine .cons (fun _ => ⟨mayWait_of_feeding rfl, by simp⟩) rfl ?_
  refine .cons (by simp [Section.isApp]) rfl (.cons (by simp [Section.isApp]) rfl ?_)
  refine .cons (fun _ => ⟨?_, by simp⟩) rfl (.cons (by simp [Section.isApp]) rfl ?_)
  · rintro s ⟨⟩
    decide
  refine .cons (by simp [Section.isApp]) rfl (.cons (fun _ => ⟨?_, by simp⟩) rfl ?_)
  · rintro s ⟨⟩
    decide
  exact Machine.deferrable_of_forall (by simp [Section.isApp])

/-- It ends as a run of whole requests does. -/
theorem serializable_busyRun : ∃ c h bs h', sections.run ⟨Client.init, .idle⟩ busyRun =
    some (⟨c, .idle⟩, h) ∧ rounds.run Client.init bs = some (c, h') ∧ Swapped Independent h h' := by
  obtain ⟨bs, h', hbs, hswap, -⟩ :=
    (serializable Client.init _).1 busyRun _ undisturbed_busyRun rfl
  exact ⟨_, _, bs, h', rfl, hbs, hswap⟩

/-- A call and an answer that do not concern the same source say the same in either order. -/
theorem track_comm {s : Int32} {x y : Event} (h : Independent x y) (t : Track) :
    Track.step s (Track.step s t x) y = Track.step s (Track.step s t y) x := by
  cases x with
  | app op =>
      cases y with
      | call made =>
          cases made with
          | haveData status requestId => rfl
          | addSegment requestId offer status =>
              have hnot : ¬ op.Resets offer.segment.sourceId := h
              simp only [Track.step]
              by_cases hs : offer.segment.sourceId = s
              · subst hs
                simp only [if_neg hnot]
              · simp only [if_neg hs]
      | _ => exact absurd h id
  | _ => exact absurd h id

/-- What a request is answered from is the stream that is registered for its source. -/
def FeedsRegistered (t : Threads) (x : Sources) : Prop :=
  ∀ s, t.activity.feeding = some s → ∀ source ∈ x.request,
    source.sourceId = s ∧ source.registered = true

theorem openRound_feeding {c : Client} {need : NeedData} {s : Int32}
    (h : (c.openRound need).2.feeding = some s) : s = need.sourceId := by
  rcases unanswered_or_feed c need with hnone | ⟨feed, hpipeline, hfeed, hwithhold⟩
  · rw [openRound_snd_of_unanswered hnone] at h
    cases h
  · rw [openRound_snd_of_feed hpipeline hfeed hwithhold] at h
    split_ifs at h
    · cases h
    · exact (Option.some.inj h).symm

/-- A call that does not set back the cursor of the request leaves it its stream. -/
theorem feedsRegistered_app {t : Threads} {x : Sources} {op : AppOp} (hfed : FeedsRegistered t x)
    (hmay : MayWait t (.app op)) : FeedsRegistered t (x.after (.app op)) := by
  intro s hs source hsource
  cases op with
  | addAudioSource s' stream =>
      obtain ⟨source', hsource', rfl⟩ := Option.mem_map.1 hsource
      obtain ⟨hid, hregistered⟩ := hfed s hs source' hsource'
      have hne : source'.sourceId ≠ s' := fun heq => hmay s hs (heq.symm.trans hid)
      rw [Source.replace, if_neg hne]
      exact ⟨hid, hregistered⟩
  | _ => exact hfed s hs source hsource

/-- **One section**: what it offers is of a stream that is registered. -/
theorem feedsRegistered_step {t t' : Threads} {a : Section} {x : Sources} {es : List Event}
    (hfed : FeedsRegistered t x) (hmay : a.isApp = true → MayWait t a)
    (hstep : sections.step t a = some (t', es)) :
    FeedsRegistered t' (es.foldl Sources.after x) ∧
      ∀ p ∈ offersOf x es, ∀ source ∈ p.1, source.registered = true := by
  cases stepped_of_step hstep with
  | app c act op => exact ⟨feedsRegistered_app hfed (hmay rfl), by simp [offersOf, Event.offer]⟩
  | need c need =>
      refine ⟨fun s hs source hsource => ?_, by simp [offersOf, Event.offer]⟩
      obtain ⟨stream, -, rfl⟩ := Option.mem_map.1 hsource
      exact ⟨(openRound_feeding hs).symm, rfl⟩
  | cancel c s => exact ⟨hfed, by simp [offersOf, Event.offer]⟩
  | advance hadvance =>
      have hmoved := advanced_of_advance hadvance
      have hkept : ∀ s, t'.activity.feeding = some s → t.activity.feeding = some s :=
        fun s hs => feeding_of_advanced hmoved hs
      cases hmoved with
      | offer c round offer rest status =>
          refine ⟨fun s hs => hfed s (hkept s hs), fun p hp source hsource => ?_⟩
          simp only [offersOf, Event.offer, Option.toList_some, List.map_cons, List.map_nil,
            List.append_nil, List.mem_singleton] at hp
          rw [hp] at hsource
          exact (hfed round.sourceId rfl source hsource).2
      | answer c answer requestId status =>
          exact ⟨fun s hs => hfed s (hkept s hs), by simp [offersOf, Event.offer]⟩
      | _ => exact ⟨fun s hs => hfed s (hkept s hs), by simp [offersOf]⟩

/-- **What is offered is of streams that are registered**, when no source is registered again under
a request for it. -/
theorem offers_registered : ∀ {as : List Section} {t t' : Threads} {x : Sources} {h : List Event},
    FeedsRegistered t x → NoResetInFlight t as → sections.run t as = some (t', h) →
      ∀ p ∈ offersOf x h, ∀ source ∈ p.1, source.registered = true := by
  intro as
  induction as with
  | nil =>
      intro t t' x h _ _ hrun
      obtain ⟨-, rfl⟩ := Prod.mk.inj (Option.some.inj hrun)
      simp [offersOf]
  | cons a as ih =>
      intro t t' x h hfed hkeep hrun
      obtain ⟨u, es₁, es₂, hstep, hrest, rfl⟩ := Machine.run_cons.1 hrun
      have hmay : a.isApp = true → MayWait t a := fun ha => hkeep [] a as rfl ha t [] rfl
      obtain ⟨hfed', hfirst⟩ := feedsRegistered_step hfed hmay hstep
      intro p hp
      rw [offersOf_append] at hp
      rcases List.mem_append.1 hp with hp | hp
      · exact hfirst p hp
      · exact ih hfed' (hkeep.tail hstep) hrest p hp

/-- **Interleaved feeding is in order and without loss**: when no cursor is set back under a request
for its source, then wherever no request is in flight the frames of a source accepted since its
cursor was set back are those before the cursor, each once and in order, and a rejected frame that
has not been sent again is the one at the cursor; and every segment offered carries the frame of its
index, of the stream that is registered for its source. -/
theorem lossless_interleaved {as : List Section} {c : Client} {h : List Event}
    (hkeep : NoResetInFlight ⟨Client.init, .idle⟩ as)
    (hrun : sections.run ⟨Client.init, .idle⟩ as = some (⟨c, .idle⟩, h)) :
    (∀ s feed, c.feeds s = some feed →
      (trackOf s h).accepted = List.range feed.nextFrame ∧
        feed.nextFrame ≤ feed.stream.frames.length ∧
        ∀ f, (trackOf s h).awaiting = some f →
          f = feed.nextFrame ∧ f < feed.stream.frames.length) ∧
      ∀ p ∈ offersOf Client.init.sources h, ∃ source corrupt, p.1 = some source ∧
        source.registered = true ∧ Carries source p.2 corrupt := by
  refine ⟨fun s feed hfeed => ?_, fun p hp => ?_⟩
  · obtain ⟨bs, h', hbs, hswap⟩ := rounds_of_sections _ rfl hkeep hrun
    have htrack : trackOf s h = trackOf s h' :=
      hswap.foldl_eq (fun x y hxy t => track_comm hxy t) _
    have hin := inOrder_of_run hbs s
    rw [hfeed] at hin
    rw [htrack]
    exact ⟨hin.accepted, hin.le, hin.awaiting⟩
  · obtain ⟨corrupt, source, hsource, hcarries⟩ := offers_carry_of_run hrun p hp
    have hnone : FeedsRegistered ⟨Client.init, .idle⟩ Client.init.sources := by
      intro s hs
      cases hs
    exact ⟨source, corrupt, hsource, offers_registered hnone hkeep hrun p hp source hsource,
      hcarries⟩

/-- One frame of the two has been accepted, and the other one awaits being sent again. -/
theorem lossless_busyRun : ∃ c h feed, sections.run ⟨Client.init, .idle⟩ busyRun =
    some (⟨c, .idle⟩, h) ∧ c.feeds 1 = some feed ∧
      (trackOf 1 h).accepted = List.range feed.nextFrame ∧ feed.nextFrame = 1 ∧
        ∀ p ∈ offersOf Client.init.sources h, ∃ source corrupt, p.1 = some source ∧
          source.registered = true ∧ Carries source p.2 corrupt := by
  have hrun : sections.run ⟨Client.init, .idle⟩ busyRun = some (⟨_, .idle⟩, _) := rfl
  have hlossless := lossless_interleaved undisturbed_busyRun.noResetInFlight hrun
  exact ⟨_, _, _, hrun, rfl, (hlossless.1 1 _ rfl).1, rfl, hlossless.2⟩

end Feed
