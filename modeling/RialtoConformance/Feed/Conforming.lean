/-
**A server that keeps to the protocol.**

The server waits with a request for a source until every earlier one for it has been answered, or
has been cancelled behind it.  What it knows when it sends is less than what the client knows when
the request arrives: messages may still be on their way, a cancellation among them whose request
has been answered meanwhile.

Main definitions:

* `Feed.Ledger.Settled` — every request sent for a source is answered or cancelled;
* `Feed.Conforms` — the server sends a request only when those before it are settled.

Main results:

* `Feed.openFor_split`, `Feed.overlaps_split` — the requests behind an overlap;
* `Feed.not_overlapping_of_conforms` — **a conforming server is never accused**.
-/
import RialtoConformance.Feed.Channel

set_option relaxedAutoImplicit false
set_option autoImplicit false

namespace Feed

open Runs

/-! ### What the server waits for -/

/-- Every request sent for `s` has been answered, or a cancellation for `s` has been sent behind
it. -/
def Ledger.Settled (l : Ledger) (s : Int32) : Prop :=
  ∀ later request earlier, l.sent = later ++ .need request :: earlier → request.sourceId = s →
    l.Answered earlier.length ∨ .cancel s ∈ later

/-- **The server conforms**: whenever it sends a request, the earlier ones for its source are
settled. -/
def Conforms (h : List Entry) : Prop :=
  ∀ h₀ request h₁, h = h₀ ++ .sent (.need request) :: h₁ → (ledger h₀).Settled request.sourceId

/-- An open request, the last message about its source. -/
theorem openFor_split {s : Int32} : ∀ {begun : List (Message × Bool)}, OpenFor s begun →
    ∃ later request earlier, begun = later ++ (.need request, false) :: earlier ∧
      request.sourceId = s ∧ ∀ m ∈ later, ¬ m.1.About s := by
  intro begun
  induction begun with
  | nil => exact fun h => absurd h id
  | cons m begun ih =>
      intro h
      -- a message about another source is passed over
      have hpast : ¬ m.1.About s → OpenFor s begun → ∃ later request earlier,
          m :: begun = later ++ (.need request, false) :: earlier ∧ request.sourceId = s ∧
            ∀ m ∈ later, ¬ m.1.About s := by
        intro hother hopen
        obtain ⟨later, request, earlier, rfl, hsource, hlater⟩ := ih hopen
        refine ⟨m :: later, request, earlier, rfl, hsource, ?_⟩
        intro m' hm'
        rcases List.mem_cons.1 hm' with rfl | hm'
        · exact hother
        · exact hlater m' hm'
      obtain ⟨message, answered⟩ := m
      cases message with
      | need request =>
          rw [OpenFor] at h
          split_ifs at h with hsource
          · subst h
            exact ⟨[], request, begun, rfl, hsource, by simp⟩
          · exact hpast hsource h
      | cancel sourceId => exact hpast h.1 h.2

/-- A request that was begun behind an open one. -/
theorem overlaps_split : ∀ {begun : List (Message × Bool)}, Overlaps begun →
    ∃ later request answered earlier, begun = later ++ (.need request, answered) :: earlier ∧
      OpenFor request.sourceId earlier := by
  intro begun
  induction begun with
  | nil => exact fun h => absurd h id
  | cons m begun ih =>
      intro h
      obtain ⟨message, answered⟩ := m
      have hrest : Overlaps begun → ∃ later request answered' earlier,
          (message, answered) :: begun = later ++ (.need request, answered') :: earlier ∧
            OpenFor request.sourceId earlier := by
        intro hover
        obtain ⟨later, request, answered', earlier, rfl, hopen⟩ := ih hover
        exact ⟨(message, answered) :: later, request, answered', earlier, rfl, hopen⟩
      cases message with
      | need request =>
          rcases h with hopen | hover
          · exact ⟨[], request, answered, begun, rfl, hopen⟩
          · exact hrest hover
      | cancel sourceId => exact hrest h

/-! ### From what has been begun back to what was sent -/

theorem note_sent (l : Ledger) (e : Entry) :
    (∃ message, e = .sent message ∧ (l.note e).sent = message :: l.sent) ∨
      (l.note e).sent = l.sent := by
  cases e with
  | sent message => exact Or.inl ⟨message, rfl, rfl⟩
  | client event =>
      refine Or.inr ?_
      cases event with
      | call c => cases c <;> rfl
      | app op => rfl
      | need request => rfl
      | cancel sourceId => rfl

theorem exists_sent {message : Message} {earlier : List Message} :
    ∀ {h : List Entry} {later : List Message}, (ledger h).sent = later ++ message :: earlier →
      ∃ h₀ h₁, h = h₀ ++ .sent message :: h₁ ∧ (ledger h₀).sent = earlier := by
  intro h
  induction h using List.reverseRecOn with
  | nil =>
      intro later hsent
      exact absurd hsent (by simp [ledger])
  | append_singleton h e ih =>
      intro later hsent
      rw [ledger_concat] at hsent
      have hbefore : ∀ {later}, (ledger h).sent = later ++ message :: earlier →
          ∃ h₀ h₁, h ++ [e] = h₀ ++ .sent message :: h₁ ∧ (ledger h₀).sent = earlier := by
        intro later hsent
        obtain ⟨h₀, h₁, rfl, hearlier⟩ := ih hsent
        exact ⟨h₀, h₁ ++ [e], by simp, hearlier⟩
      rcases note_sent (ledger h) e with ⟨last, rfl, hnote⟩ | hnote
      · rw [hnote] at hsent
        cases later with
        | nil =>
            obtain ⟨rfl, hearlier⟩ := List.cons.inj hsent
            exact ⟨h, [], rfl, hearlier⟩
        | cons x later => exact hbefore (List.cons.inj hsent).2
      · exact hbefore (hnote.symm.trans hsent)

theorem answered_note {l : Ledger} {n : ℕ} (h : l.Answered n) (e : Entry) :
    (l.note e).Answered n := by
  rw [Ledger.Answered, Option.map_eq_some_iff] at h
  obtain ⟨m, hm, htrue⟩ := h
  have hbegun : ∀ message, Ledger.Answered ⟨l.sent, (message, false) :: l.begun⟩ n := by
    intro message
    rw [Ledger.Answered, List.reverse_cons, List.getElem?_append_left
      (List.getElem?_eq_some_iff.1 hm).1, hm]
    exact congrArg some htrue
  have hsame : l.Answered n := by rw [Ledger.Answered, hm, Option.map_some, htrue]
  cases e with
  | sent message => exact hsame
  | client event =>
      cases event with
      | app op => exact hsame
      | need request => exact hbegun (.need request)
      | cancel sourceId => exact hbegun (.cancel sourceId)
      | call c =>
          cases c with
          | addSegment requestId offer status => exact hsame
          | haveData status requestId =>
              -- the message begun last is answered, and the others stay as they are
              obtain ⟨sent, begun⟩ := l
              cases begun with
              | nil => simp at hm
              | cons last begun =>
                  obtain ⟨message, answered⟩ := last
                  simp only [List.reverse_cons] at hm
                  simp only [Ledger.Answered, Ledger.note, markAnswered, List.reverse_cons]
                  rcases Nat.lt_trichotomy n begun.reverse.length with hlt | rfl | hgt
                  · rw [List.getElem?_append_left hlt] at hm ⊢
                    rw [hm]
                    exact congrArg some htrue
                  · simp
                  · rw [List.getElem?_append_right hgt.le,
                      List.getElem?_eq_none (by simp only [List.length_singleton]; omega)] at hm
                    exact absurd hm (by simp)

theorem answered_foldl {n : ℕ} : ∀ (h : List Entry) {l : Ledger}, l.Answered n →
    (h.foldl Ledger.note l).Answered n := by
  intro h
  induction h with
  | nil => exact fun h => h
  | cons e h ih => exact fun hanswered => ih (answered_note hanswered e)

/-! ### No false accusation -/

/-- **A conforming server is never accused**: at every point of a run, whatever the server answers
and whatever the application calls. -/
theorem not_overlapping_of_conforms {as : List Move} {c : Channel} {h : List Entry}
    (hrun : channel.run Channel.init as = some (c, h)) (hconforms : Conforms h) :
    c.threads.client.overlappingNeedData = false := by
  rw [Bool.eq_false_iff, Ne, overlappingNeedData_iff hrun]
  intro hover
  obtain ⟨after, request, answered, before, hbegun, hopen⟩ := overlaps_split hover
  obtain ⟨later, previous, earlier, rfl, hsource, hlater⟩ := openFor_split hopen
  -- the request was sent behind everything begun before it
  have hsent : (ledger h).sent = (c.queue.reverse ++ after.map Prod.fst) ++
      .need request :: (later.map Prod.fst ++ .need previous :: earlier.map Prod.fst) := by
    rw [(good_of_run hrun).fifo, hbegun]
    simp
  obtain ⟨h₀, h₁, rfl, hearlier⟩ := exists_sent hsent
  rcases hconforms h₀ request h₁ rfl _ previous _ hearlier hsource with hanswered | hcancel
  · -- it would still be answered now
    have hnow : (ledger (h₀ ++ .sent (.need request) :: h₁)).Answered earlier.length := by
      rw [List.length_map] at hanswered
      rw [ledger_append]
      exact answered_foldl _ hanswered
    have hsplit : after ++ (.need request, answered) ::
        (later ++ (.need previous, false) :: earlier) =
          (after ++ (.need request, answered) :: later) ++ (.need previous, false) :: earlier := by
      simp
    rw [Ledger.Answered, hbegun, hsplit, getElem?_reverse_of_split] at hnow
    exact absurd hnow (by simp)
  · -- a cancellation behind it would have been begun behind it
    obtain ⟨m, hm, hmessage⟩ := List.mem_map.1 hcancel
    refine hlater m hm ?_
    rw [hmessage]
    exact rfl

/-- A request is answered, and its cancellation, sent meanwhile, is begun behind the answer. -/
def crossingRun : List Move :=
  [.app (.setPipeline true), .app (.addAudioSource 1 twoFrames), .app (.setStarve true),
    .send (.need ⟨1, 1, 1, true⟩), .deliver, .send (.cancel 1), .advance .ok, .advance .ok,
    .send (.need ⟨1, 1, 2, true⟩), .deliver, .deliver]

def crossingHistory : List Entry :=
  [.client (.app (.setPipeline true)), .client (.app (.addAudioSource 1 twoFrames)),
    .client (.app (.setStarve true)), .sent (.need ⟨1, 1, 1, true⟩),
    .client (.need ⟨1, 1, 1, true⟩), .sent (.cancel 1), .client (.call (.haveData .ok 1)),
    .sent (.need ⟨1, 1, 2, true⟩), .client (.cancel 1), .client (.need ⟨1, 1, 2, true⟩)]

theorem conforms_crossingHistory : Conforms crossingHistory := by
  intro h₀ request h₁ hsplit
  simp only [crossingHistory, List.cons_eq_append_iff, List.nil_eq_append_iff, List.cons.injEq,
    Entry.sent.injEq, Message.need.injEq, reduceCtorEq, false_and, and_false, false_or, or_false,
    exists_false] at hsplit
  obtain ⟨_, rfl, _, rfl, _, rfl, hfirst | ⟨_, rfl, _, rfl, _, rfl, _, rfl, hsecond⟩⟩ := hsplit
  · obtain ⟨rfl, rfl, -⟩ := hfirst
    intro later previous earlier hsent
    exact absurd hsent (by simp [ledger, Ledger.note])
  · obtain ⟨rfl, rfl, -⟩ := hsecond
    intro later previous earlier hsent _
    rcases List.cons_eq_append_iff.1 hsent with ⟨-, hnone⟩ | ⟨rest, rfl, -⟩
    · exact absurd (List.cons.inj hnone).1 (by simp)
    · exact Or.inr List.mem_cons_self

/-- Nothing is flagged. -/
theorem not_overlapping_crossingRun : ∃ c,
    channel.run Channel.init crossingRun = some (c, crossingHistory) ∧
      c.threads.client.overlappingNeedData = false :=
  ⟨_, rfl, @not_overlapping_of_conforms crossingRun _ _ rfl conforms_crossingHistory⟩

end Feed
