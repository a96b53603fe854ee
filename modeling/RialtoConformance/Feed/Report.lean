/-
**What the client reports of a run.**

The counters, the log and the flags that a case reads behind a run, against the history of the run:
requests, cancellations and the answers of the server, in any interleaving with the application.
The counters are 64-bit sizes and wrap.

Main definitions:

* `Feed.needsOf`, `Feed.cancelsOf` — the requests and the cancellations of a history;
* `Feed.Reports` — the client reports what a history says.

Main results:

* `Feed.notedAnswers_step` — the answers taken note of, one step further;
* `Feed.reports_of_run` — **the client reports what has happened**, at every point of every run.
-/
import RialtoConformance.Feed.Resend
import RialtoConformance.Feed.Corruption

set_option relaxedAutoImplicit false
set_option autoImplicit false

namespace Feed

open Runs

/-! ### What a history says -/

def Event.needData : Event → Option NeedData
  | .need request => some request
  | _ => none

/-- The source of the cancellation that an event is. -/
def Event.cancelled : Event → Option Int32
  | .cancel sourceId => some sourceId
  | _ => none

/-- The requests of a history, in order. -/
def needsOf (h : List Event) : List NeedData := h.filterMap Event.needData

/-- The sources of the cancellations of a history, in order. -/
def cancelsOf (h : List Event) : List Int32 := h.filterMap Event.cancelled

@[simp] theorem needsOf_append (h h' : List Event) : needsOf (h ++ h') = needsOf h ++ needsOf h' :=
  List.filterMap_append

@[simp] theorem cancelsOf_append (h h' : List Event) :
    cancelsOf (h ++ h') = cancelsOf h ++ cancelsOf h' := List.filterMap_append

/-- How many of some answers have a status. -/
def countOf (status : AddSegmentStatus) (answers : List Answer) : ℕ :=
  answers.countP fun a => a.status = status

/-- **The client reports what a history says**, `noted` being the answers it has taken note of. -/
structure Reports (c : Client) (h : List Event) (noted : List Answer) : Prop where
  needDataLog : c.needDataLog = needsOf h
  cancelCount : c.cancelCount = UInt64.ofNat (cancelsOf h).length
  cancelledSources : ∀ s, s ∈ c.cancelledSources ↔ s ∈ cancelsOf h
  addOk : c.addOk = UInt64.ofNat (countOf .ok noted)
  addNoSpace : c.addNoSpace = UInt64.ofNat (countOf .noSpace noted)
  addError : c.addError = UInt64.ofNat (countOf .error noted)
  allSegmentsAccepted : c.allSegmentsAccepted = true ↔ ∀ a ∈ noted, a.status = .ok

/-! ### One step -/

/-- The answer that a section takes note of. -/
def Threads.noting (t : Threads) (n : ℕ) : Section → List Answer
  | .advance _ => t.activity.unnoted n
  | _ => []

/-- **The answers taken note of, one step further.** -/
theorem notedAnswers_step {t t' : Threads} {h es : List Event} {answers : List Answer}
    {a : Section} (hw : Watching t h answers) (hstep : sections.step t a = some (t', es)) :
    notedAnswers t'.activity (h ++ es) = answers ++ t.noting (requestCount h) a := by
  have hanswers := hw.answers_eq
  cases stepped_of_step hstep with
  | app c act op =>
      have hsilent := (@silent_append h [.app op] rfl fun _ => rfl).2
      have hnoted : notedAnswers act (h ++ [.app op]) = notedAnswers act h := by
        cases act <;> simp only [notedAnswers, hsilent]
      rw [hnoted]
      exact hw.notedAnswers_eq.trans (List.append_nil answers).symm
  | need c request =>
      have hopened : notedAnswers (c.openRound request).2 (h ++ [.need request]) =
          answersOf (h ++ [.need request]) := by
        cases hact : (c.openRound request).2 with
        | noting round status rest =>
            exact absurd hact (openRound_snd_ne_noting c request round status rest)
        | _ => rfl
      rw [hopened, answersOf_append, hanswers]
      simp only [Activity.unnoted, answersFrom, Threads.noting, List.append_nil]
  | cancel c s =>
      have hsilent := (@silent_append h [.cancel s] rfl fun _ => rfl).2
      exact hsilent.trans hanswers
  | advance hadvance =>
      cases advanced_of_advance hadvance with
      | offer c round offer rest =>
          simp only [notedAnswers, answersOf_append, answersFrom, List.dropLast_concat]
          exact hanswers
      | answer c answer requestId =>
          exact (@silent_append h [.call (.haveData answer requestId)] rfl fun _ => rfl).2.trans
            hanswers
      | _ =>
          rw [List.append_nil]
          exact hanswers

theorem countOf_append (status : AddSegmentStatus) (answers later : List Answer) :
    countOf status (answers ++ later) = countOf status answers + countOf status later :=
  List.countP_append

/-- Two states report the same. -/
structure SameReport (c c' : Client) : Prop where
  needDataLog : c'.needDataLog = c.needDataLog
  cancelCount : c'.cancelCount = c.cancelCount
  cancelledSources : c'.cancelledSources = c.cancelledSources
  addOk : c'.addOk = c.addOk
  addNoSpace : c'.addNoSpace = c.addNoSpace
  addError : c'.addError = c.addError
  allSegmentsAccepted : c'.allSegmentsAccepted = c.allSegmentsAccepted

theorem Reports.silent {c c' : Client} {h es : List Event} {noted : List Answer}
    (hr : Reports c h noted) (hsame : SameReport c c') (hneeds : needsOf es = [])
    (hcancels : cancelsOf es = []) : Reports c' (h ++ es) noted := by
  constructor
  · rw [hsame.needDataLog, hr.needDataLog, needsOf_append, hneeds, List.append_nil]
  · rw [hsame.cancelCount, hr.cancelCount, cancelsOf_append, hcancels, List.append_nil]
  · intro s
    rw [hsame.cancelledSources, hr.cancelledSources, cancelsOf_append, hcancels, List.append_nil]
  · rw [hsame.addOk, hr.addOk]
  · rw [hsame.addNoSpace, hr.addNoSpace]
  · rw [hsame.addError, hr.addError]
  · rw [hsame.allSegmentsAccepted, hr.allSegmentsAccepted]

theorem Reports.need {c : Client} {h : List Event} {noted : List Answer} (hr : Reports c h noted)
    (request : NeedData) : Reports (c.openRound request).1 (h ++ [.need request]) noted := by
  obtain ⟨n, hopen⟩ := openRound_fst c request
  rw [hopen]
  constructor
  · rw [needsOf_append, ← hr.needDataLog]
    rfl
  · rw [cancelsOf_append, show cancelsOf [.need request] = [] from rfl, List.append_nil]
    exact hr.cancelCount
  · intro s
    rw [cancelsOf_append, show cancelsOf [.need request] = [] from rfl, List.append_nil]
    exact hr.cancelledSources s
  · exact hr.addOk
  · exact hr.addNoSpace
  · exact hr.addError
  · exact hr.allSegmentsAccepted

theorem Reports.cancel {c : Client} {h : List Event} {noted : List Answer} (hr : Reports c h noted)
    (s : Int32) : Reports (c.notifyCancelNeedMediaData s) (h ++ [.cancel s]) noted := by
  constructor
  · rw [needsOf_append, show needsOf [.cancel s] = [] from rfl, List.append_nil]
    exact hr.needDataLog
  · rw [cancelsOf_append, List.length_append, UInt64.ofNat_add, ← hr.cancelCount]
    rfl
  · intro s'
    have hmem : s' ∈ insert s c.cancelledSources ↔ s' = s ∨ s' ∈ cancelsOf h := by
      rw [Finset.mem_insert, hr.cancelledSources]
    rw [cancelsOf_append, List.mem_append, or_comm]
    exact hmem.trans (or_congr_left List.mem_singleton.symm)
  · exact hr.addOk
  · exact hr.addNoSpace
  · exact hr.addError
  · exact hr.allSegmentsAccepted

theorem noteAnswer_report (c : Client) (round : Round) (status : AddSegmentStatus) :
    (c.noteAnswer round status).1.needDataLog = c.needDataLog ∧
      (c.noteAnswer round status).1.cancelCount = c.cancelCount ∧
      (c.noteAnswer round status).1.cancelledSources = c.cancelledSources ∧
      (c.noteAnswer round status).1.addOk = c.addOk + UInt64.ofNat (if status = .ok then 1 else 0) ∧
      (c.noteAnswer round status).1.addNoSpace =
        c.addNoSpace + UInt64.ofNat (if status = .noSpace then 1 else 0) ∧
      (c.noteAnswer round status).1.addError =
        c.addError + UInt64.ofNat (if status = .error then 1 else 0) ∧
      (c.noteAnswer round status).1.allSegmentsAccepted =
        (c.allSegmentsAccepted && decide (status = .ok)) := by
  cases status with
  | ok =>
      simp only [Client.noteAnswer]
      split <;> simp
  | noSpace => simp [Client.noteAnswer]
  | error => simp [Client.noteAnswer]

/-- **The section behind an answer** counts it. -/
theorem Reports.note {c : Client} {h : List Event} {noted : List Answer} (hr : Reports c h noted)
    (round : Round) {answer : Answer} {status : AddSegmentStatus} (hstatus : answer.status = status) :
    Reports (c.noteAnswer round status).1 h (noted ++ [answer]) := by
  subst hstatus
  obtain ⟨hlog, hcount, hsources, hok, hnoSpace, herror, hall⟩ :=
    noteAnswer_report c round answer.status
  have hone : ∀ status, UInt64.ofNat (countOf status (noted ++ [answer])) =
      UInt64.ofNat (countOf status noted) +
        UInt64.ofNat (if answer.status = status then 1 else 0) := by
    intro status
    rw [countOf_append, UInt64.ofNat_add]
    congr 2
    simp only [countOf, List.countP_singleton, decide_eq_true_eq]
  constructor
  · rw [hlog, hr.needDataLog]
  · rw [hcount, hr.cancelCount]
  · intro s
    rw [hsources, hr.cancelledSources]
  · rw [hok, hr.addOk, hone]
  · rw [hnoSpace, hr.addNoSpace, hone]
  · rw [herror, hr.addError, hone]
  · rw [hall, Bool.and_eq_true, hr.allSegmentsAccepted, decide_eq_true_eq, List.forall_mem_append,
      List.forall_mem_singleton]

theorem sameReport_apply (c : Client) (op : AppOp) : SameReport c (op.apply c) := by
  cases op <;> exact ⟨rfl, rfl, rfl, rfl, rfl, rfl, rfl⟩

theorem sameReport_closeRound (c : Client) (round : Round) :
    SameReport c (c.closeRound round).1 := by
  simp only [Client.closeRound]
  cases c.feeds round.sourceId <;> exact ⟨rfl, rfl, rfl, rfl, rfl, rfl, rfl⟩

/-- **One step.** -/
theorem reports_step {t t' : Threads} {h es : List Event} {answers : List Answer} {a : Section}
    (hr : Reports t.client h answers) (hstep : sections.step t a = some (t', es)) :
    Reports t'.client (h ++ es) (answers ++ t.noting (requestCount h) a) := by
  cases stepped_of_step hstep with
  | app c act op =>
      simp only [Threads.noting, List.append_nil]
      exact hr.silent (sameReport_apply c op) rfl rfl
  | need c request =>
      simp only [Threads.noting, List.append_nil]
      exact hr.need request
  | cancel c s =>
      simp only [Threads.noting, List.append_nil]
      exact hr.cancel s
  | advance hadvance =>
      cases advanced_of_advance hadvance with
      | note c round answer rest =>
          rw [List.append_nil]
          exact hr.note round rfl
      | close c round =>
          simp only [Threads.noting, Activity.unnoted]
          rw [List.append_nil answers]
          exact hr.silent (sameReport_closeRound c round) rfl rfl
      | _ =>
          simp only [Threads.noting, Activity.unnoted]
          rw [List.append_nil answers]
          exact hr.silent ⟨rfl, rfl, rfl, rfl, rfl, rfl, rfl⟩ rfl rfl

/-- **The client reports what has happened**, at every point of a run, of the answers it has taken
note of: the requests in order, the cancellations, how many answers there have been of each kind,
and whether all of them have been `OK`. -/
theorem reports_of_run {as : List Section} {t : Threads} {h : List Event}
    (hrun : sections.run ⟨Client.init, .idle⟩ as = some (t, h)) :
    Reports t.client h (notedAnswers t.activity h) := by
  have hinit : Reports Client.init [] [] := by
    constructor <;> simp [Client.init, needsOf, cancelsOf, countOf]
  obtain ⟨answers₀, hw₀⟩ := @watching_of_run [] _ _ rfl
  obtain rfl : answers₀ = [] := hw₀.notedAnswers_eq.symm
  have hkept : ∀ (t : Threads) (h : List Event) (a : Section) (t' : Threads) (es : List Event),
      (∃ answers, Watching t h answers ∧ Reports t.client h answers) →
        sections.step t a = some (t', es) →
          ∃ answers, Watching t' (h ++ es) answers ∧ Reports t'.client (h ++ es) answers := by
    rintro t h a t' es ⟨answers, hw, hr⟩ hstep
    obtain ⟨answers', hw'⟩ := watching_step hw hstep
    have heq := (notedAnswers_step hw hstep).symm.trans hw'.notedAnswers_eq
    exact ⟨answers', hw', heq ▸ reports_step hr hstep⟩
  obtain ⟨answers, hw, hr⟩ := Machine.run_induction
    (P := fun (t : Threads) h => ∃ answers, Watching t h answers ∧ Reports t.client h answers)
    hkept ⟨[], hw₀, hinit⟩ hrun
  rw [List.nil_append] at hw hr
  rwa [hw.notedAnswers_eq]

/-- Two frames are rejected for want of space; the first one is accepted before that and after. -/
theorem reports_resentRun : ∃ t h,
    sections.run ⟨Client.init, .idle⟩ resentRun = some (t, h) ∧
      Reports t.client h (notedAnswers t.activity h) ∧ t.client.addOk = 2 ∧
        t.client.addNoSpace = 2 := by
  have hrun : sections.run ⟨Client.init, .idle⟩ resentRun = some (_, _) := rfl
  exact ⟨_, _, hrun, reports_of_run hrun, rfl, rfl⟩

end Feed
