/-
**Corrupted segments.**

Every `corruptEvery`-th segment is to be corrupted.  The counter runs while a batch is built, before
it is known which of its segments will be offered: those of a request that is withheld or answered
in starve mode, and those behind a rejected one, are counted and never offered.

Main definitions:

* `Feed.Counted` — the counts of the client, and the number each segment offered was judged by;
* `Feed.CorruptsEvery` — exactly every `n`-th segment offered is corrupted;
* `Feed.InPhase` — the segments offered and the segments built reach multiples of `n` together.

Main results:

* `Feed.counted_of_run` — the number a segment is judged by;
* `Feed.corruptsEvery_iff` — **when every `n`-th segment offered is corrupted**.
-/
import RialtoConformance.Feed.Payload

set_option relaxedAutoImplicit false
set_option autoImplicit false

namespace Feed

open Runs

/-! ### The counts -/

theorem buildSegments_snd {sourceId : Int32} {stream : AacElementaryStream}
    {corruptEvery : UInt64} : ∀ (frames : List EncodedFrame) (idx room : ℕ) (offered : UInt64),
      (buildSegments sourceId stream corruptEvery frames idx room offered).2 = offered +
        UInt64.ofNat
          (buildSegments sourceId stream corruptEvery frames idx room offered).1.length := by
  intro frames
  induction frames with
  | nil => intro idx room offered; simp [buildSegments]
  | cons frame frames ih =>
      intro idx room offered
      cases room with
      | zero => simp [buildSegments]
      | succ room =>
          simp only [buildSegments, List.length_cons, ih, UInt64.ofNat_add]
          rw [UInt64.add_assoc]
          congr 1
          exact UInt64.add_comm _ _

/-- **The counts**, when every `n`-th segment is to be corrupted: the counter of the client, the
marks of the batch in flight, and the number that every segment offered was judged by. -/
structure Counted (n : UInt64) (t : Threads) (r : Record) : Prop where
  every : t.client.corruptEvery = n
  counter : t.client.segmentsOffered =
    UInt64.ofNat (r.delivered.length + r.skipped + t.activity.rest.length)
  marks : r.marks = corruptMarks n t.activity.rest.length
    (UInt64.ofNat (r.delivered.length + r.skipped))
  judged : ∀ k d, r.delivered[k]? = some d →
    (d.corrupt = true ↔ n.toNat ∣ (k + 1 + d.skipped) % 18446744073709551616)

/-! ### Step by step -/

theorem openRound_segmentsOffered (c : Client) (need : NeedData) :
    (c.openRound need).1.segmentsOffered =
      c.segmentsOffered + UInt64.ofNat (c.built need) := by
  have hzero : c.segmentsOffered = c.segmentsOffered + UInt64.ofNat 0 := by simp
  rw [Client.openRound, Client.built, Client.buildBatch]
  cases c.pipeline with
  | false => exact hzero
  | true =>
      cases c.feeds need.sourceId with
      | none => exact hzero
      | some feed =>
          simp only [Bool.not_true, Bool.false_eq_true, if_false]
          rw [← buildSegments_snd]
          split_ifs <;> rfl

theorem openRound_corruptEvery (c : Client) (need : NeedData) :
    (c.openRound need).1.corruptEvery = c.corruptEvery := by
  obtain ⟨n, h⟩ := openRound_fst c need
  rw [h]
  rfl

theorem noteAnswer_counts (c : Client) (round : Round) (status : AddSegmentStatus) :
    (c.noteAnswer round status).1.corruptEvery = c.corruptEvery ∧
      (c.noteAnswer round status).1.segmentsOffered = c.segmentsOffered := by
  cases status with
  | ok => simp only [Client.noteAnswer]; split_ifs <;> exact ⟨rfl, rfl⟩
  | noSpace => exact ⟨rfl, rfl⟩
  | error => exact ⟨rfl, rfl⟩

theorem closeRound_counts (c : Client) (round : Round) :
    (c.closeRound round).1.corruptEvery = c.corruptEvery ∧
      (c.closeRound round).1.segmentsOffered = c.segmentsOffered := by
  rw [Client.closeRound]
  split <;> exact ⟨rfl, rfl⟩

theorem apply_counts (c : Client) (op : AppOp) :
    ((op.apply c).corruptEvery = c.corruptEvery ∨
      op = .setCorruptEvery (op.apply c).corruptEvery) ∧
        (op.apply c).segmentsOffered = c.segmentsOffered := by
  cases op with
  | setCorruptEvery nth => exact ⟨Or.inr rfl, rfl⟩
  | _ => exact ⟨Or.inl rfl, rfl⟩

theorem mark_iff {n : UInt64} (hn : n ≠ 0) (count : ℕ) :
    (n ≠ 0 && (UInt64.ofNat count + 1) % n = 0) = true ↔
      n.toNat ∣ (count + 1) % 18446744073709551616 := by
  have hcount : (UInt64.ofNat count + 1).toNat = (count + 1) % 18446744073709551616 := by
    have hone : UInt64.toNat 1 = 1 := rfl
    rw [UInt64.toNat_add, UInt64.toNat_ofNat', hone]
    omega
  rw [← hcount, Nat.dvd_iff_mod_eq_zero, ← UInt64.toNat_mod]
  simp only [hn, ne_eq, not_false_eq_true, decide_true, Bool.true_and, decide_eq_true_eq]
  constructor
  · intro h
    rw [h]
    rfl
  · intro h
    exact UInt64.toNat_inj.1 h

theorem counted_need {n : UInt64} {c : Client} {r : Record} (h : Counted n ⟨c, .idle⟩ r)
    (need : NeedData) :
    Counted n ⟨(c.openRound need).1, (c.openRound need).2⟩
      (Record.note ⟨c, .idle⟩ (.need need) r) := by
  obtain ⟨hevery, hcounter, hmarks, hjudged⟩ := h
  have hcount := openRound_segmentsOffered c need
  simp only [Activity.rest, List.length_nil, Nat.add_zero] at hcounter hmarks
  simp only [Record.note]
  cases hact : (c.openRound need).2 with
  | offering round rest =>
      refine ⟨(openRound_corruptEvery c need).trans hevery, ?_, ?_, hjudged⟩
      · rw [hcount, (built_of_offering hact).1, hcounter, ← UInt64.ofNat_add]
        rfl
      · rw [hevery, hcounter]
        rfl
  | noting round status rest => exact absurd hact (openRound_snd_ne_noting _ _ _ _ _)
  | _ =>
      refine ⟨(openRound_corruptEvery c need).trans hevery, ?_, hmarks, hjudged⟩
      simp only [hcount, hcounter, ← UInt64.ofNat_add, Activity.rest, List.length_nil,
        Nat.add_zero, Nat.add_assoc]

theorem counted_advance {n : UInt64} (hn : n ≠ 0) {t t' : Threads} {r : Record}
    (h : Counted n t r) {status : AddSegmentStatus} {es : List Event}
    (hstep : t.advance status = some (t', es)) :
    Counted n t' (Record.note t (.advance status) r) := by
  obtain ⟨hevery, hcounter, hmarks, hjudged⟩ := h
  cases advanced_of_advance hstep with
  | settle c sourceId requestId => exact ⟨hevery, hcounter, hmarks, hjudged⟩
  | close c round =>
      obtain ⟨hsame, hsame'⟩ := closeRound_counts c round
      exact ⟨hsame.trans hevery, hsame'.trans hcounter, hmarks, hjudged⟩
  | offer c round offer rest =>
      simp only [Activity.rest, List.length_cons, corruptMarks] at hcounter hmarks
      simp only [Record.note, hmarks, List.headD_cons, List.tail_cons]
      refine ⟨hevery, ?_, ?_, ?_⟩
      · rw [hcounter]
        simp only [Activity.rest, List.length_append, List.length_singleton]
        congr 1
        omega
      · simp only [Activity.rest, List.length_append, List.length_singleton]
        congr 1
        rw [Nat.add_right_comm]
        exact (UInt64.ofNat_add _ 1).symm
      · intro k d hd
        rcases Nat.lt_or_ge k r.delivered.length with hk | hk
        · rw [List.getElem?_append_left hk] at hd
          exact hjudged k d hd
        · rw [List.getElem?_append_right hk, List.getElem?_singleton] at hd
          split_ifs at hd with hk'
          obtain rfl := Option.some.inj hd
          obtain rfl : k = r.delivered.length := by omega
          simp only
          rw [mark_iff hn, Nat.add_right_comm]
  | note c round answer rest =>
      obtain ⟨hsame, hsame'⟩ := noteAnswer_counts c round answer
      simp only [Record.note, restAfter]
      split_ifs with hok
      · exact ⟨hsame.trans hevery, hsame'.trans hcounter, hmarks, hjudged⟩
      · -- what was left of the batch will never be offered
        refine ⟨hsame.trans hevery, ?_, rfl, hjudged⟩
        rw [hsame', hcounter]
        simp only [Activity.rest, List.length_nil, Nat.add_zero, Nat.add_assoc]
  | answer c answer requestId => exact ⟨hevery, hcounter, hmarks, hjudged⟩

/-- **One step**, which does not set another rate. -/
theorem counted_step {n : UInt64} (hn : n ≠ 0) {s s' : Threads × Record} {a : Section}
    {es : List Event} (h : Counted n s.1 s.2) (hstep : feeding.step s a = some (s', es))
    (hkept : ∀ nth, Event.app (.setCorruptEvery nth) ∈ es → nth = n) : Counted n s'.1 s'.2 := by
  obtain ⟨t, r⟩ := s
  obtain ⟨t', r'⟩ := s'
  obtain ⟨hstep, rfl⟩ := Machine.step_recorded.1 hstep
  cases stepped_of_step hstep with
  | app c act op =>
      obtain ⟨hevery, hcounter, hmarks, hjudged⟩ := h
      obtain ⟨hrate, hsame⟩ := apply_counts c op
      refine ⟨?_, hsame.trans hcounter, hmarks, hjudged⟩
      rcases hrate with hrate | hset
      · exact hrate.trans hevery
      · exact hkept _ (by rw [← hset]; exact List.mem_singleton_self _)
  | need c request => exact counted_need h request
  | cancel c sourceId => exact ⟨h.every, h.counter, h.marks, h.judged⟩
  | advance hadvance => exact counted_advance hn h hadvance

/-- **The number a segment is judged by**, in every run that keeps to one rate from its start. -/
theorem counted_of_run {n : UInt64} (hn : n ≠ 0) {c : Client} {as : List Section}
    {s : Threads × Record} {h : List Event} (hset : c.corruptEvery = n)
    (hfresh : c.segmentsOffered = 0)
    (hrun : feeding.run (⟨c, .idle⟩, Record.empty) as = some (s, h))
    (hkept : ∀ nth, Event.app (.setCorruptEvery nth) ∈ h → nth = n) : Counted n s.1 s.2 := by
  have hinit : Counted n ⟨c, .idle⟩ Record.empty :=
    ⟨hset, hfresh.trans rfl, rfl, by simp [Record.empty]⟩
  have hinv := @Machine.run_induction _ _ _ feeding
    (fun s h => (∀ nth, Event.app (.setCorruptEvery nth) ∈ h → nth = n) → Counted n s.1 s.2)
    (fun s h a s' es hcounted hstep hkept => ?_) as _ s [] h (fun _ => hinit) hrun
  · rw [List.nil_append] at hinv
    exact hinv hkept
  · exact counted_step hn (hcounted fun nth hmem => hkept nth (List.mem_append_left _ hmem)) hstep
      fun nth hmem => hkept nth (List.mem_append_right _ hmem)

/-! ### Every `n`-th segment -/

/-- **Exactly every `n`-th segment offered is corrupted.** -/
def CorruptsEvery (n : UInt64) (delivered : List Delivery) : Prop :=
  (∀ k d, delivered[k]? = some d → (d.corrupt = true ↔ n.toNat ∣ k + 1)) ∧
    delivered.countP Delivery.corrupt = delivered.length / n.toNat

/-- **The segments offered and the segments built reach multiples of `n` together**: where either
count does, the other is ahead or behind by a multiple of `n`.  The count of segments built takes in
those never offered, and starts again at `2 ^ 64`. -/
def InPhase (n : UInt64) (delivered : List Delivery) : Prop :=
  ∀ k d, delivered[k]? = some d →
    n.toNat ∣ k + 1 ∨ n.toNat ∣ (k + 1 + d.skipped) % 18446744073709551616 →
      (n.toNat : ℤ) ∣ ((k + 1 + d.skipped) % 18446744073709551616 : ℕ) - (k + 1 : ℕ)

/-- Two numbers are multiples together exactly when they differ by a multiple where either is
one. -/
theorem dvd_iff_dvd_iff {n a b : ℕ} : (n ∣ b ↔ n ∣ a) ↔ (n ∣ a ∨ n ∣ b → (n : ℤ) ∣ b - a) := by
  rw [← Int.natCast_dvd_natCast, ← Int.natCast_dvd_natCast]
  constructor
  · rintro hiff (ha | hb)
    · exact dvd_sub (hiff.2 ha) ha
    · exact dvd_sub hb (hiff.1 hb)
  · intro hsub
    constructor
    · intro hb
      exact (dvd_sub_right hb).1 (hsub (Or.inr hb))
    · intro ha
      exact (dvd_sub_left ha).1 (hsub (Or.inl ha))

theorem countP_eq_div {n : ℕ} {p : Delivery → Bool} : ∀ {delivered : List Delivery},
    (∀ k d, delivered[k]? = some d → (p d = true ↔ n ∣ k + 1)) →
      delivered.countP p = delivered.length / n := by
  intro delivered
  induction delivered using List.reverseRecOn with
  | nil => simp
  | append_singleton delivered d ih =>
      intro h
      have hlast : p d = true ↔ n ∣ delivered.length + 1 :=
        h delivered.length d List.getElem?_concat_length
      have hbefore : ∀ k d', delivered[k]? = some d' → (p d' = true ↔ n ∣ k + 1) := by
        intro k d' hd'
        have hk := (List.getElem?_eq_some_iff.1 hd').1
        exact h k d' (by rw [List.getElem?_append_left hk, hd'])
      rw [List.countP_append, List.countP_singleton, ih hbefore, List.length_append,
        List.length_singleton, Nat.succ_div]
      simp only [hlast]

/-- **When every `n`-th segment offered is corrupted**: along a run that keeps to the rate `n` from
its start, exactly when the segments offered and the segments built are in phase.  Which segments
are corrupted is what the record of the run says, and it tells the truth: a segment that is carries
as many bytes `0xA5` as its frame has, and one that is not carries its frame, as long as the stream
of its request is the one registered. -/
theorem corruptsEvery_iff {n : UInt64} (hn : n ≠ 0) {c : Client} {as : List Section} {t : Threads}
    {h : List Event} (hset : c.corruptEvery = n) (hfresh : c.segmentsOffered = 0)
    (hrun : sections.run ⟨c, .idle⟩ as = some (t, h))
    (hkept : ∀ nth, Event.app (.setCorruptEvery nth) ∈ h → nth = n) :
    ∃ r, feeding.run (⟨c, .idle⟩, Record.empty) as = some ((t, r), h) ∧ Delivers c h r.delivered ∧
      (CorruptsEvery n r.delivered ↔ InPhase n r.delivered) := by
  obtain ⟨r, hrecord⟩ := (sections.run_recorded Record.empty).1 hrun
  have hjudged := (counted_of_run hn hset hfresh hrecord hkept).judged
  refine ⟨r, hrecord, delivers_of_run hrecord, ?_⟩
  constructor
  · rintro ⟨hcorrupt, -⟩ k d hd
    exact dvd_iff_dvd_iff.1 ((hjudged k d hd).symm.trans (hcorrupt k d hd))
  · intro hphase
    have hcorrupt : ∀ k d, r.delivered[k]? = some d → (d.corrupt = true ↔ n.toNat ∣ k + 1) :=
      fun k d hd => (hjudged k d hd).trans (dvd_iff_dvd_iff.2 (hphase k d hd))
    exact ⟨hcorrupt, countP_eq_div hcorrupt⟩

/-- A stream of two frames with times and payloads of different lengths. -/
def timedFrames : AacElementaryStream := ⟨[⟨[1, 2, 3], 0, 20⟩, ⟨[4, 5], 20, 20⟩], 48000, 2⟩

/-- A client that corrupts every second segment and has a stream to feed from. -/
def corrupting : Client :=
  ((Client.init.setCorruptEvery 2).setPipeline true).addAudioSource 1 timedFrames

/-- Two segments are offered in one request. -/
def fedRun : List Section :=
  [.need ⟨1, 2, 1, true⟩, .advance .ok, .advance .ok, .advance .ok, .advance .ok]

/-- The run is recorded; the first segment carries its frame, and the second one is corrupted. -/
theorem corruptsEvery_fedRun : ∃ t h r,
    feeding.run (⟨corrupting, .idle⟩, Record.empty) fedRun = some ((t, r), h) ∧
      Delivers corrupting h r.delivered ∧ (CorruptsEvery 2 r.delivered ↔ InPhase 2 r.delivered) ∧
        r.delivered.map (fun d => (d.corrupt, d.offer.segment.data)) =
          [(false, [1, 2, 3]), (true, [0xA5, 0xA5])] := by
  obtain ⟨r, hrecord, hdelivers, hiff⟩ :=
    @corruptsEvery_iff 2 (by decide) corrupting fedRun _ _ rfl rfl rfl (by simp)
  have hcorrupt : r.delivered.map (fun d => (d.corrupt, d.offer.segment.data)) =
      [(false, [1, 2, 3]), (true, [0xA5, 0xA5])] := by
    obtain rfl := congrArg (fun s => s.1.2) (Option.some.inj hrecord)
    rfl
  exact ⟨_, _, r, hrecord, hdelivers, hiff, hcorrupt⟩

/-- A request for one segment is answered in starve mode, and then two segments are offered. -/
def starvedRun : List Section :=
  [.app (.setStarve true), .need ⟨1, 1, 1, true⟩, .advance .ok, .advance .ok,
    .app (.setStarve false), .need ⟨1, 2, 2, true⟩, .advance .ok, .advance .ok, .advance .ok,
    .advance .ok]

/-- The first segment offered is corrupted, and the second one is not. -/
theorem not_corruptsEvery : ¬ ∀ (n : UInt64) (c : Client) (as : List Section) (t : Threads)
    (r : Record) (h : List Event), n ≠ 0 → c.corruptEvery = n → c.segmentsOffered = 0 →
      feeding.run (⟨c, .idle⟩, Record.empty) as = some ((t, r), h) →
        (∀ nth, Event.app (.setCorruptEvery nth) ∈ h → nth = n) →
          CorruptsEvery n r.delivered := by
  intro hall
  have hrun := hall 2 corrupting starvedRun _ _ _ (by decide) rfl rfl rfl (by simp)
  exact absurd ((hrun.1 0 _ rfl).1 rfl) (by decide)

end Feed
