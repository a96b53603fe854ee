/-
**A rejected frame that is sent again.**

The client keeps one frame per source, the one the server rejected last for want of space, and
raises a flag when that frame is accepted.  Frames rejected earlier are forgotten, and the
application may set the cursor back at any moment; nothing is missed all the same, because no
source is ever fed past the frame that is kept for it without the flag going up.

An answer of the server counts once the client has taken note of it.  Frames are told apart by
their index, which is the frame itself as long as the stream of a source stays the same.

Main definitions:

* `Feed.Answer`, `Feed.answersOf` — the answers of the server in a history;
* `Feed.notedAnswers` — those the client has taken note of;
* `Feed.Resent` — a frame was rejected for want of space, and accepted in a later request;
* `Feed.Remembers`, `Feed.NeverPassed` — what the kept frames are, and that they are not passed.

Main results:

* `Feed.watching_step`, `Feed.watching_of_run` — what holds in every run;
* `Feed.noSpaceSegmentAccepted_iff` — **the flag is up exactly when a rejected frame has been sent
  again and accepted**.
-/
import RialtoConformance.Feed.Correlation

set_option relaxedAutoImplicit false
set_option autoImplicit false

namespace Feed

open Runs

/-! ### The answers of the server -/

/-- An answer to a segment: the number of requests made so far, the frame and the status. -/
structure Answer where
  request : ℕ
  sourceId : Int32
  frame : ℕ
  status : AddSegmentStatus
  deriving DecidableEq

def requestCount (h : List Event) : ℕ := (requestIds h).length

/-- The answers in a history that `n` requests precede. -/
def answersFrom : ℕ → List Event → List Answer
  | _, [] => []
  | n, .need _ :: h => answersFrom (n + 1) h
  | n, .call (.addSegment _ offer status) :: h =>
      ⟨n, offer.segment.sourceId, offer.frame, status⟩ :: answersFrom n h
  | n, _ :: h => answersFrom n h

/-- The answers in a history. -/
def answersOf (h : List Event) : List Answer := answersFrom 0 h

theorem answersFrom_append : ∀ (h : List Event) (n : ℕ) (h' : List Event),
    answersFrom n (h ++ h') = answersFrom n h ++ answersFrom (n + requestCount h) h' := by
  intro h
  induction h with
  | nil => intro n h'; rfl
  | cons e h ih =>
      intro n h'
      cases e with
      | app op => exact ih n h'
      | cancel sourceId => exact ih n h'
      | need request =>
          have hcount : requestCount (.need request :: h) = requestCount h + 1 := rfl
          simp only [List.cons_append, answersFrom, ih, hcount]
          rw [Nat.add_assoc, Nat.add_comm 1]
      | call made =>
          cases made with
          | haveData status requestId => exact ih n h'
          | addSegment requestId offer status =>
              exact congrArg (List.cons _) (ih n h')

theorem answersOf_append (h h' : List Event) :
    answersOf (h ++ h') = answersOf h ++ answersFrom (requestCount h) h' := by
  rw [answersOf, answersFrom_append, Nat.zero_add, answersOf]

theorem requestCount_append (h h' : List Event) :
    requestCount (h ++ h') = requestCount h + requestCount h' := by
  rw [requestCount, requestIds_append, List.length_append]
  rfl

theorem silent_append {h es : List Event} (hrequest : requestCount es = 0)
    (hanswer : ∀ n, answersFrom n es = []) :
    requestCount (h ++ es) = requestCount h ∧ answersOf (h ++ es) = answersOf h := by
  rw [requestCount_append, hrequest, Nat.add_zero, answersOf_append, hanswer, List.append_nil]
  exact ⟨rfl, rfl⟩

/-- The answer that the client is about to take note of. -/
def Activity.unnoted (n : ℕ) : Activity → List Answer
  | .noting round status _ => [⟨n, round.sourceId, round.firstFrame + round.accepted, status⟩]
  | _ => []

/-- **The answers the client has taken note of.** -/
def notedAnswers (act : Activity) (h : List Event) : List Answer :=
  match act with
  | .noting _ _ _ => (answersOf h).dropLast
  | _ => answersOf h

/-- **A frame has been sent again**: it was rejected for want of space in one request, and accepted
in a later one. -/
def Resent (answers : List Answer) : Prop :=
  ∃ rejected ∈ answers, ∃ accepted ∈ answers,
    rejected.status = .noSpace ∧ accepted.status = .ok ∧ rejected.sourceId = accepted.sourceId ∧
      rejected.frame = accepted.frame ∧ rejected.request < accepted.request

/-- A frame of `s` has been rejected for want of space. -/
def Rejected (answers : List Answer) (s : Int32) (frame : ℕ) : Prop :=
  ∃ rejected ∈ answers, rejected.status = .noSpace ∧ rejected.sourceId = s ∧ rejected.frame = frame

theorem Resent.append {answers : List Answer} (h : Resent answers) (later : List Answer) :
    Resent (answers ++ later) := by
  obtain ⟨rejected, hrejected, accepted, haccepted, h⟩ := h
  exact ⟨rejected, List.mem_append_left _ hrejected, accepted, List.mem_append_left _ haccepted, h⟩

/-- An answer in a request behind every rejection completes a frame that is sent again exactly when
it accepts a rejected one. -/
theorem resent_concat {answers : List Answer} {last : Answer} (hnot : ¬ Resent answers)
    (hle : ∀ a ∈ answers, a.request ≤ last.request)
    (hlt : ∀ a ∈ answers, a.status = .noSpace → a.request < last.request) :
    Resent (answers ++ [last]) ↔
      last.status = .ok ∧ Rejected answers last.sourceId last.frame := by
  constructor
  · rintro ⟨rejected, hrejected, accepted, haccepted, hr, ha, hsource, hframe, hrequest⟩
    rcases List.mem_append.1 haccepted with hbefore | hlast
    · rcases List.mem_append.1 hrejected with hr' | hr'
      · exact absurd ⟨rejected, hr', accepted, hbefore, hr, ha, hsource, hframe, hrequest⟩ hnot
      · rw [List.mem_singleton.1 hr'] at hrequest
        have := hle accepted hbefore
        omega
    · obtain rfl := List.mem_singleton.1 hlast
      rcases List.mem_append.1 hrejected with hr' | hr'
      · exact ⟨ha, rejected, hr', hr, hsource, hframe⟩
      · rw [List.mem_singleton.1 hr'] at hrequest
        exact absurd hrequest (lt_irrefl _)
  · rintro ⟨hok, rejected, hrejected, hr, hsource, hframe⟩
    exact ⟨rejected, List.mem_append_left _ hrejected, last,
      List.mem_append_right _ (List.mem_singleton_self _), hr, hok, hsource, hframe,
      hlt rejected hrejected hr⟩

theorem rejected_concat {answers : List Answer} {last : Answer} {s : Int32} {frame : ℕ} :
    Rejected (answers ++ [last]) s frame ↔
      Rejected answers s frame ∨ last.status = .noSpace ∧ last.sourceId = s ∧ last.frame = frame := by
  simp only [Rejected, List.mem_append, List.mem_singleton, or_and_right, exists_or,
    exists_eq_left]

/-! ### The frames that are kept -/

/-- **The frame kept for a source** is the first of those rejected. -/
def Remembers (c : Client) (answers : List Answer) : Prop :=
  ∀ s, (∀ frame, Rejected answers s frame → ∃ kept, c.noSpaceFrame s = some kept ∧ kept ≤ frame) ∧
    ∀ kept, c.noSpaceFrame s = some kept → Rejected answers s kept

/-- The frame of `s` that is being offered, or would be next. -/
def Activity.position (s : Int32) : Activity → Option ℕ
  | .offering round _ =>
      if round.sourceId = s then some (round.firstFrame + round.accepted) else none
  | .noting round _ _ =>
      if round.sourceId = s then some (round.firstFrame + round.accepted) else none
  | _ => none

/-- The cursor of `s` is not behind `bound`. -/
def CursorLe (c : Client) (s : Int32) (bound : ℕ) : Prop :=
  ∀ feed, c.feeds s = some feed → feed.nextFrame ≤ bound

/-- **No kept frame has been passed**, neither by the cursor nor by the request in flight. -/
def NeverPassed (c : Client) (act : Activity) : Prop :=
  ∀ s kept, c.noSpaceFrame s = some kept →
    CursorLe c s kept ∧ ∀ position, act.position s = some position → position ≤ kept

/-- What is left of a batch: consecutive frames of one source, whose cursor is not behind the
batch. -/
structure InStep (c : Client) (round : Round) (next : ℕ) (rest : List Offer) : Prop where
  cursor : CursorLe c round.sourceId round.firstFrame
  frames : rest.map Offer.frame = List.range' next rest.length
  source : ∀ o ∈ rest, o.segment.sourceId = round.sourceId

/-- A batch in flight is in step, and nothing has been rejected in the request that has a segment
to offer or has had one accepted. -/
def Activity.InStep (c : Client) (answers : List Answer) (n : ℕ) : Activity → Prop
  | .offering round rest => Feed.InStep c round (round.firstFrame + round.accepted) rest ∧
      (rest ≠ [] → ∀ a ∈ answers, a.status = .noSpace → a.request < n)
  | .noting round _ rest => Feed.InStep c round (round.firstFrame + round.accepted + 1) rest ∧
      ∀ a ∈ answers, a.status = .noSpace → a.request < n
  | _ => True

/-- **What holds in every run**, `answers` being those the client has taken note of. -/
structure Watching (t : Threads) (h : List Event) (answers : List Answer) : Prop where
  answers_eq : answersOf h = answers ++ t.activity.unnoted (requestCount h)
  request_le : ∀ a ∈ answers, a.request ≤ requestCount h
  inStep : t.activity.InStep t.client answers (requestCount h)
  resent : t.client.noSpaceSegmentAccepted = true → Resent answers
  kept : t.client.noSpaceSegmentAccepted = false →
    ¬ Resent answers ∧ Remembers t.client answers ∧ NeverPassed t.client t.activity

theorem CursorLe.congr {c c' : Client} {s : Int32} {bound : ℕ} (h : CursorLe c s bound)
    (hfeeds : c'.feeds = c.feeds) : CursorLe c' s bound := by
  intro feed hfeed
  rw [hfeeds] at hfeed
  exact h feed hfeed

theorem Remembers.congr {c c' : Client} {answers : List Answer} (h : Remembers c answers)
    (hframe : c'.noSpaceFrame = c.noSpaceFrame) : Remembers c' answers := by
  intro s
  rw [hframe]
  exact h s

theorem CursorLe.apply {c : Client} {s : Int32} {bound : ℕ} (h : CursorLe c s bound) (op : AppOp) :
    CursorLe (op.apply c) s bound := by
  intro feed hfeed
  by_cases hreset : op.Resets s
  · rw [nextFrame_eq_zero_of_resets hreset hfeed]
    exact Nat.zero_le _
  · rw [apply_feeds_of_not_resets hreset] at hfeed
    exact h feed hfeed

/-- Closing a round in step leaves the cursor of its source where the round has come to. -/
theorem CursorLe.closeRound {c : Client} {s : Int32} {bound : ℕ} {round : Round} {next : ℕ}
    {rest : List Offer} (h : CursorLe c s bound) (hstep : InStep c round next rest)
    (hbound : round.sourceId = s → round.firstFrame + round.accepted ≤ bound) :
    CursorLe (c.closeRound round).1 s bound := by
  intro feed hfeed
  rw [Client.closeRound] at hfeed
  cases hold : c.feeds round.sourceId with
  | none =>
      rw [hold] at hfeed
      exact h feed hfeed
  | some old =>
      rw [hold] at hfeed
      by_cases hs : round.sourceId = s
      · subst hs
        simp only [Function.update_self, Option.some.injEq] at hfeed
        have hle := hstep.cursor old hold
        have := hbound rfl
        rw [← hfeed]
        simp only
        omega
      · simp only [Function.update_of_ne (Ne.symm hs)] at hfeed
        exact h feed hfeed

theorem closeRound_noSpace (c : Client) (round : Round) :
    (c.closeRound round).1.noSpaceFrame = c.noSpaceFrame ∧
      (c.closeRound round).1.noSpaceSegmentAccepted = c.noSpaceSegmentAccepted := by
  rw [Client.closeRound]
  split <;> exact ⟨rfl, rfl⟩

theorem apply_noSpace (c : Client) (op : AppOp) :
    (op.apply c).noSpaceFrame = c.noSpaceFrame ∧
      (op.apply c).noSpaceSegmentAccepted = c.noSpaceSegmentAccepted := by
  cases op <;> exact ⟨rfl, rfl⟩

theorem openRound_noSpace (c : Client) (need : NeedData) :
    (c.openRound need).1.noSpaceFrame = c.noSpaceFrame ∧
      (c.openRound need).1.noSpaceSegmentAccepted = c.noSpaceSegmentAccepted := by
  obtain ⟨n, h⟩ := openRound_fst c need
  rw [h]
  exact ⟨rfl, rfl⟩

/-! ### Step by step -/

theorem watching_app {t : Threads} {h : List Event} {answers : List Answer}
    (hw : Watching t h answers) (op : AppOp) :
    Watching ⟨op.apply t.client, t.activity⟩ (h ++ [.app op]) answers := by
  obtain ⟨c, act⟩ := t
  obtain ⟨hframe, hflag⟩ := apply_noSpace c op
  obtain ⟨hcount, hanswers⟩ := @silent_append h [.app op] rfl fun _ => rfl
  refine ⟨?_, ?_, ?_, ?_, ?_⟩
  · rw [hanswers, hcount]
    exact hw.answers_eq
  · rw [hcount]
    exact hw.request_le
  · rw [hcount]
    have hin := hw.inStep
    cases act with
    | offering round rest =>
        obtain ⟨⟨hcursor, hframes, hsource⟩, hlt⟩ := hin
        exact ⟨⟨hcursor.apply op, hframes, hsource⟩, hlt⟩
    | noting round status rest =>
        obtain ⟨⟨hcursor, hframes, hsource⟩, hlt⟩ := hin
        exact ⟨⟨hcursor.apply op, hframes, hsource⟩, hlt⟩
    | _ => exact trivial
  · rw [hflag]
    exact hw.resent
  · rw [hflag]
    intro hdown
    obtain ⟨hnot, hremembers, hpassed⟩ := hw.kept hdown
    refine ⟨hnot, hremembers.congr hframe, ?_⟩
    intro s kept hkept
    rw [hframe] at hkept
    exact ⟨(hpassed s kept hkept).1.apply op, (hpassed s kept hkept).2⟩

/-- Behind the first section of a request the callback has left at once, or it offers its batch from
the cursor on. -/
theorem inStep_openRound (c : Client) (need : NeedData) {answers : List Answer} {n : ℕ}
    (hlt : ∀ a ∈ answers, a.request < n) :
    (∀ m, (c.openRound need).2.unnoted m = []) ∧
      (c.openRound need).2.InStep (c.openRound need).1 answers n ∧
        ∀ s position, (c.openRound need).2.position s = some position →
          ∃ feed, c.feeds s = some feed ∧ position = feed.nextFrame := by
  rcases unanswered_or_feed c need with hun | ⟨feed, hpipeline, hfeed, hwithhold⟩
  · rw [openRound_snd_of_unanswered hun]
    exact ⟨fun _ => rfl, trivial, by simp [Activity.position]⟩
  · have hcursor : CursorLe c need.sourceId feed.nextFrame := by
      intro feed' hfeed'
      rw [hfeed] at hfeed'
      rw [← Option.some.inj hfeed']
    have hframes := offers_frames c need feed
    have hlength := congrArg List.length hframes
    rw [List.length_map, List.length_range'] at hlength
    rw [← hlength] at hframes
    rw [openRound_snd_of_feed hpipeline hfeed hwithhold]
    split_ifs
    · exact ⟨fun _ => rfl, trivial, by simp [Activity.position]⟩
    · refine ⟨fun _ => rfl, ⟨⟨hcursor.congr (openRound_feeds c need), hframes,
        offers_sourceId c need feed⟩, fun _ a ha _ => hlt a ha⟩, ?_⟩
      intro s position hposition
      simp only [Activity.position, Nat.add_zero] at hposition
      split_ifs at hposition with hs
      subst hs
      exact ⟨feed, hfeed, (Option.some.inj hposition).symm⟩

theorem watching_need {c : Client} {h : List Event} {answers : List Answer}
    (hw : Watching ⟨c, .idle⟩ h answers) (need : NeedData) :
    Watching ⟨(c.openRound need).1, (c.openRound need).2⟩ (h ++ [.need need]) answers := by
  obtain ⟨hframe, hflag⟩ := openRound_noSpace c need
  have hcount : requestCount (h ++ [.need need]) = requestCount h + 1 :=
    requestCount_append h [.need need]
  have hanswers : answersOf (h ++ [.need need]) = answers := by
    rw [answersOf_append, hw.answers_eq]
    simp [answersFrom, Activity.unnoted]
  have hlt : ∀ a ∈ answers, a.request < requestCount h + 1 := fun a ha =>
    Nat.lt_succ_of_le (hw.request_le a ha)
  obtain ⟨hunnoted, hin, hposition⟩ := inStep_openRound c need hlt
  refine ⟨?_, ?_, ?_, ?_, ?_⟩
  · rw [hanswers, hunnoted, List.append_nil]
  · rw [hcount]
    exact fun a ha => (hlt a ha).le
  · rw [hcount]
    exact hin
  · rw [hflag]
    exact hw.resent
  · rw [hflag]
    intro hdown
    obtain ⟨hnot, hremembers, hpassed⟩ := hw.kept hdown
    refine ⟨hnot, hremembers.congr hframe, ?_⟩
    intro s kept hkept
    rw [hframe] at hkept
    refine ⟨(hpassed s kept hkept).1.congr (openRound_feeds c need), ?_⟩
    intro position hpos
    obtain ⟨feed, hfeed, rfl⟩ := hposition s position hpos
    exact (hpassed s kept hkept).1 feed hfeed

theorem noteAnswer_ok_of_ne {c : Client} {round : Round}
    (h : c.noSpaceFrame round.sourceId ≠ some (round.firstFrame + round.accepted)) :
    (c.noteAnswer round .ok).1 = { c with addOk := c.addOk + 1 } := by
  simp only [Client.noteAnswer, if_neg h]

theorem noteAnswer_ok_of_eq {c : Client} {round : Round}
    (h : c.noSpaceFrame round.sourceId = some (round.firstFrame + round.accepted)) :
    (c.noteAnswer round .ok).1.noSpaceSegmentAccepted = true := by
  simp only [Client.noteAnswer, if_pos h]

theorem inStep_noteAnswer {c : Client} {round : Round} {status : AddSegmentStatus}
    {rest : List Offer} {answers : List Answer} {n : ℕ}
    (h : (Activity.noting round status rest).InStep c answers n) :
    (Activity.offering (c.noteAnswer round status).2 (restAfter status rest)).InStep
      (c.noteAnswer round status).1
      (answers ++ [⟨n, round.sourceId, round.firstFrame + round.accepted, status⟩]) n := by
  obtain ⟨⟨hcursor, hframes, hsource⟩, hlt⟩ := h
  have hcursor' : CursorLe (c.noteAnswer round status).1 round.sourceId round.firstFrame :=
    hcursor.congr (noteAnswer_feeds c round status)
  by_cases hok : status = .ok
  · subst hok
    refine ⟨⟨hcursor', hframes, hsource⟩, ?_⟩
    intro _ a ha hrejected
    rcases List.mem_append.1 ha with ha | ha
    · exact hlt a ha hrejected
    · rw [List.mem_singleton.1 ha] at hrejected
      exact absurd hrejected (by simp)
  · -- nothing of the batch is left
    rw [noteAnswer_snd, if_neg hok, restAfter, if_neg hok]
    exact ⟨⟨hcursor', rfl, by simp⟩, fun hleft => absurd rfl hleft⟩

theorem kept_ok {c : Client} {round : Round} {rest : List Offer} {answers : List Answer} {n : ℕ}
    (hremembers : Remembers c answers) (hpassed : NeverPassed c (.noting round .ok rest))
    (hkeep : c.noSpaceFrame round.sourceId ≠ some (round.firstFrame + round.accepted)) :
    Remembers (c.noteAnswer round .ok).1
      (answers ++ [⟨n, round.sourceId, round.firstFrame + round.accepted, .ok⟩]) ∧
      NeverPassed (c.noteAnswer round .ok).1
        (.offering (c.noteAnswer round .ok).2 (restAfter .ok rest)) := by
  have hframe : (c.noteAnswer round .ok).1.noSpaceFrame = c.noSpaceFrame := by
    rw [noteAnswer_ok_of_ne hkeep]
  refine ⟨?_, ?_⟩
  · intro s
    rw [hframe]
    simp only [rejected_concat, reduceCtorEq, false_and, or_false]
    exact hremembers s
  · intro s kept hkept
    rw [hframe] at hkept
    refine ⟨(hpassed s kept hkept).1.congr (noteAnswer_feeds c round .ok), ?_⟩
    -- the position has not passed the kept frame, and it is not at it
    intro position hposition
    simp only [Activity.position, noteAnswer_snd, if_true] at hposition
    split_ifs at hposition with hs
    subst hs
    have hle : round.firstFrame + round.accepted ≤ kept :=
      (hpassed round.sourceId kept hkept).2 _ (if_pos rfl)
    have hne : round.firstFrame + round.accepted ≠ kept := fun heq => hkeep (heq ▸ hkept)
    have := Option.some.inj hposition
    omega

/-- A frame rejected for want of space is kept, in place of the one kept before. -/
theorem kept_noSpace {c : Client} {round : Round} {rest : List Offer} {answers : List Answer}
    {n : ℕ} (hin : (Activity.noting round .noSpace rest).InStep c answers n)
    (hremembers : Remembers c answers) (hpassed : NeverPassed c (.noting round .noSpace rest)) :
    Remembers (c.noteAnswer round .noSpace).1
      (answers ++ [⟨n, round.sourceId, round.firstFrame + round.accepted, .noSpace⟩]) ∧
      NeverPassed (c.noteAnswer round .noSpace).1
        (.offering (c.noteAnswer round .noSpace).2 (restAfter .noSpace rest)) := by
  have hframe : (c.noteAnswer round .noSpace).1.noSpaceFrame =
      Function.update c.noSpaceFrame round.sourceId
        (some (round.firstFrame + round.accepted)) := rfl
  have hfeeds := noteAnswer_feeds c round .noSpace
  refine ⟨?_, ?_⟩
  · intro s
    rw [hframe]
    simp only [rejected_concat, true_and]
    by_cases hs : round.sourceId = s
    · -- the frame kept is the one just rejected, and no earlier one is before it
      subst hs
      simp only [Function.update_self, Option.some.injEq, exists_eq_left', true_and]
      refine ⟨?_, ?_⟩
      · rintro frame (hrejected | rfl)
        · obtain ⟨kept, hkept, hle⟩ := (hremembers round.sourceId).1 frame hrejected
          exact ((hpassed round.sourceId kept hkept).2 _ (if_pos rfl)).trans hle
        · exact le_rfl
      · exact fun kept hkept => Or.inr hkept
    · simp only [Function.update_of_ne (Ne.symm hs), hs, false_and, or_false]
      exact hremembers s
  · intro s kept hkept
    rw [hframe] at hkept
    by_cases hs : round.sourceId = s
    · subst hs
      simp only [Function.update_self, Option.some.injEq] at hkept
      subst hkept
      refine ⟨fun feed hfeed => ?_, ?_⟩
      · exact (hin.1.cursor.congr hfeeds feed hfeed).trans (Nat.le_add_right _ _)
      · intro position hposition
        simp only [Activity.position, noteAnswer_snd, reduceCtorEq, if_false, if_true,
          Option.some.injEq] at hposition
        exact hposition.ge
    · rw [Function.update_of_ne (Ne.symm hs)] at hkept
      exact ⟨(hpassed s kept hkept).1.congr hfeeds, (hpassed s kept hkept).2⟩

theorem kept_noteAnswer {c : Client} {round : Round} {status : AddSegmentStatus}
    {rest : List Offer} {answers : List Answer} {n : ℕ}
    (hin : (Activity.noting round status rest).InStep c answers n)
    (hremembers : Remembers c answers) (hpassed : NeverPassed c (.noting round status rest))
    (hkeep : status = .ok →
      c.noSpaceFrame round.sourceId ≠ some (round.firstFrame + round.accepted)) :
    Remembers (c.noteAnswer round status).1
      (answers ++ [⟨n, round.sourceId, round.firstFrame + round.accepted, status⟩]) ∧
      NeverPassed (c.noteAnswer round status).1
        (.offering (c.noteAnswer round status).2 (restAfter status rest)) := by
  cases status with
  | ok => exact kept_ok hremembers hpassed (hkeep rfl)
  | noSpace => exact kept_noSpace hin hremembers hpassed
  | error =>
      refine ⟨?_, ?_⟩
      · intro s
        simp only [rejected_concat, reduceCtorEq, false_and, or_false]
        exact hremembers s
      · intro s kept hkept
        exact ⟨(hpassed s kept hkept).1.congr (noteAnswer_feeds c round .error),
          (hpassed s kept hkept).2⟩

/-- **The section that takes note of an answer.** -/
theorem watching_noteAnswer {c : Client} {round : Round} {status : AddSegmentStatus}
    {rest : List Offer} {h : List Event} {answers : List Answer}
    (hw : Watching ⟨c, .noting round status rest⟩ h answers) :
    Watching ⟨(c.noteAnswer round status).1,
      .offering (c.noteAnswer round status).2 (restAfter status rest)⟩ h
        (answers ++ [⟨requestCount h, round.sourceId, round.firstFrame + round.accepted,
          status⟩]) := by
  obtain ⟨hanswers, hle, hin, hresent, hkept⟩ := hw
  have hconcat := fun hnot => @resent_concat answers
    ⟨requestCount h, round.sourceId, round.firstFrame + round.accepted, status⟩ hnot hle hin.2
  refine ⟨?_, ?_, inStep_noteAnswer hin, ?_, ?_⟩
  · rw [hanswers, List.append_assoc]
    rfl
  · intro a ha
    rcases List.mem_append.1 ha with ha | ha
    · exact hle a ha
    · rw [List.mem_singleton.1 ha]
  · intro hup
    cases hflag : c.noSpaceSegmentAccepted with
    | true => exact (hresent hflag).append _
    | false =>
        -- the flag has gone up just now
        obtain ⟨hnot, hremembers, -⟩ := hkept hflag
        cases status with
        | noSpace => exact absurd (hflag.symm.trans hup) (by simp)
        | error => exact absurd (hflag.symm.trans hup) (by simp)
        | ok =>
            refine (hconcat hnot).2 ⟨rfl, (hremembers round.sourceId).2 _ ?_⟩
            by_contra hne
            rw [noteAnswer_ok_of_ne hne] at hup
            exact absurd (hflag.symm.trans hup) (by simp)
  · intro hdown
    have hkeep : status = .ok →
        c.noSpaceFrame round.sourceId ≠ some (round.firstFrame + round.accepted) := by
      rintro rfl heq
      rw [noteAnswer_ok_of_eq heq] at hdown
      exact absurd hdown (by simp)
    have hflag : c.noSpaceSegmentAccepted = false := by
      cases status with
      | noSpace => exact hdown
      | error => exact hdown
      | ok =>
          rw [noteAnswer_ok_of_ne (hkeep rfl)] at hdown
          exact hdown
    obtain ⟨hnot, hremembers, hpassed⟩ := hkept hflag
    refine ⟨?_, kept_noteAnswer hin hremembers hpassed hkeep⟩
    rw [hconcat hnot]
    rintro ⟨hok, hrejected⟩
    -- a rejected frame that is accepted is not before the kept one, hence it is the kept one
    obtain ⟨kept, hkept, hle⟩ := (hremembers round.sourceId).1 _ hrejected
    have hge : round.firstFrame + round.accepted ≤ kept :=
      (hpassed round.sourceId kept hkept).2 _ (if_pos rfl)
    obtain rfl := le_antisymm hle hge
    exact hkeep hok hkept

theorem Watching.settle {c c' : Client} {act act' : Activity} {h h' : List Event}
    {answers : List Answer} (hw : Watching ⟨c, act⟩ h answers) (hanswers : answersOf h' = answersOf h)
    (hcount : requestCount h' = requestCount h) (hunnoted : ∀ n, act.unnoted n = act'.unnoted n)
    (hin : act'.InStep c' answers (requestCount h))
    (hframe : c'.noSpaceFrame = c.noSpaceFrame)
    (hflag : c'.noSpaceSegmentAccepted = c.noSpaceSegmentAccepted)
    (hposition : ∀ s, act'.position s = none)
    (hcursor : NeverPassed c act → ∀ s kept, c.noSpaceFrame s = some kept → CursorLe c' s kept) :
    Watching ⟨c', act'⟩ h' answers := by
  refine ⟨?_, ?_, ?_, ?_, ?_⟩
  · rw [hanswers, hcount, ← hunnoted]
    exact hw.answers_eq
  · rw [hcount]
    exact hw.request_le
  · rw [hcount]
    exact hin
  · rw [hflag]
    exact hw.resent
  · rw [hflag]
    intro hdown
    obtain ⟨hnot, hremembers, hpassed⟩ := hw.kept hdown
    refine ⟨hnot, hremembers.congr hframe, ?_⟩
    intro s kept hkept
    rw [hframe] at hkept
    exact ⟨hcursor hpassed s kept hkept, by simp [hposition]⟩

theorem watching_advance {t t' : Threads} {h : List Event} {answers : List Answer}
    (hw : Watching t h answers) {status : AddSegmentStatus} {es : List Event}
    (hstep : t.advance status = some (t', es)) : ∃ answers', Watching t' (h ++ es) answers' := by
  cases advanced_of_advance hstep with
  | settle c sourceId requestId =>
      rw [List.append_nil]
      refine ⟨answers, hw.settle rfl rfl (fun _ => rfl) trivial rfl rfl (fun _ => rfl) ?_⟩
      exact fun hpassed s kept hkept => (hpassed s kept hkept).1
  | close c round =>
      obtain ⟨hframe, hflag⟩ := closeRound_noSpace c round
      rw [List.append_nil]
      refine ⟨answers, hw.settle rfl rfl (fun _ => rfl) trivial hframe hflag (fun _ => rfl) ?_⟩
      intro hpassed s kept hkept
      refine (hpassed s kept hkept).1.closeRound hw.inStep.1 ?_
      intro hs
      exact (hpassed s kept hkept).2 _ (if_pos hs)
  | offer c round offer rest =>
      obtain ⟨hanswers, hle, ⟨⟨hcursor, hframes, hsource⟩, hlt⟩, hresent, hkept⟩ := hw
      rw [List.map_cons, List.length_cons, List.range'_succ] at hframes
      obtain ⟨hframe, hframes⟩ := List.cons.inj hframes
      have hcount : requestCount
          (h ++ [.call (.addSegment round.requestId offer status)]) = requestCount h :=
        requestCount_append h [.call (.addSegment round.requestId offer status)]
      refine ⟨answers, ?_, ?_, ?_, hresent, hkept⟩
      · rw [answersOf_append, hanswers, hcount]
        simp only [Activity.unnoted, List.append_nil, answersFrom, hframe,
          hsource offer List.mem_cons_self]
      · rw [hcount]
        exact hle
      · rw [hcount]
        exact ⟨⟨hcursor, hframes, fun o ho => hsource o (List.mem_cons_of_mem _ ho)⟩,
          hlt (List.cons_ne_nil _ _)⟩
  | note c round answer rest =>
      rw [List.append_nil]
      exact ⟨_, watching_noteAnswer hw⟩
  | answer c answer requestId =>
      obtain ⟨hcount, hanswers⟩ :=
        @silent_append h [.call (.haveData answer requestId)] rfl fun _ => rfl
      refine ⟨answers, hw.settle hanswers hcount (fun _ => rfl) trivial rfl rfl (fun _ => rfl) ?_⟩
      exact fun hpassed s kept hkept => (hpassed s kept hkept).1

/-- **One step.** -/
theorem watching_step {t t' : Threads} {h es : List Event} {answers : List Answer} {a : Section}
    (hw : Watching t h answers) (hstep : sections.step t a = some (t', es)) :
    ∃ answers', Watching t' (h ++ es) answers' := by
  cases stepped_of_step hstep with
  | app c act op => exact ⟨answers, watching_app hw op⟩
  | need c request => exact ⟨answers, watching_need hw request⟩
  | cancel c sourceId =>
      obtain ⟨hcount, hanswers⟩ := @silent_append h [.cancel sourceId] rfl fun _ => rfl
      refine ⟨answers, hw.settle hanswers hcount (fun _ => rfl) trivial rfl rfl (fun _ => rfl) ?_⟩
      exact fun hpassed s kept hkept => (hpassed s kept hkept).1
  | advance hadvance => exact watching_advance hw hadvance

/-- **What holds in every run.** -/
theorem watching_of_run {as : List Section} {t : Threads} {h : List Event}
    (hrun : sections.run ⟨Client.init, .idle⟩ as = some (t, h)) :
    ∃ answers, Watching t h answers := by
  have hinit : Watching ⟨Client.init, .idle⟩ [] [] := by
    refine ⟨rfl, by simp, trivial, by simp [Client.init], ?_⟩
    intro _
    refine ⟨by simp [Resent], ?_, by simp [NeverPassed, Client.init]⟩
    intro s
    exact ⟨by simp [Rejected], by simp [Client.init]⟩
  have := Machine.run_induction (P := fun t h => ∃ answers, Watching t h answers)
    (fun t h a t' es ⟨answers, hw⟩ hstep => watching_step hw hstep) ⟨[], hinit⟩ hrun
  rwa [List.nil_append] at this

theorem Watching.notedAnswers_eq {t : Threads} {h : List Event} {answers : List Answer}
    (hw : Watching t h answers) : notedAnswers t.activity h = answers := by
  have hanswers := hw.answers_eq
  obtain ⟨c, act⟩ := t
  cases act with
  | noting round status rest =>
      simp only [notedAnswers, hanswers, Activity.unnoted, List.dropLast_concat]
  | _ => exact hanswers.trans (List.append_nil answers)

/-- **The flag is up exactly when a rejected frame has been sent again and accepted**: at every
point of a run, of the answers taken note of so far.  The segments rejected and accepted carry the
frames of their indices (`offers_carry_of_run`). -/
theorem noSpaceSegmentAccepted_iff {as : List Section} {t : Threads} {h : List Event}
    (hrun : sections.run ⟨Client.init, .idle⟩ as = some (t, h)) :
    t.client.noSpaceSegmentAccepted = true ↔ Resent (notedAnswers t.activity h) := by
  obtain ⟨answers, hw⟩ := watching_of_run hrun
  rw [hw.notedAnswers_eq]
  constructor
  · exact hw.resent
  · intro hresent
    cases hflag : t.client.noSpaceSegmentAccepted with
    | true => rfl
    | false => exact absurd hresent (hw.kept hflag).1

/-- The second frame is rejected, then the first one, behind a rewind in the middle of a request;
the first one is accepted in the end. -/
def resentRun : List Section :=
  [.app (.setPipeline true), .app (.addAudioSource 1 twoFrames), .need ⟨1, 2, 1, true⟩,
    .advance .ok, .advance .ok, .app (.rewindSource 1), .advance .noSpace, .advance .ok,
    .app (.rewindSource 1), .advance .ok, .advance .ok, .app (.rewindSource 1),
    .need ⟨1, 2, 2, true⟩, .advance .noSpace, .advance .ok, .advance .ok, .advance .ok,
    .need ⟨1, 2, 3, true⟩, .advance .ok, .advance .ok]

/-- The flag goes up when it is. -/
theorem noSpaceSegmentAccepted_resentRun : ∃ t h,
    sections.run ⟨Client.init, .idle⟩ resentRun = some (t, h) ∧
      (t.client.noSpaceSegmentAccepted = true ↔ Resent (notedAnswers t.activity h)) ∧
        t.client.noSpaceSegmentAccepted = true :=
  ⟨_, _, rfl, @noSpaceSegmentAccepted_iff resentRun _ _ rfl, rfl⟩

end Feed
