/-
**What the segments carry.**

A segment is told from others by the index of the frame it was built from.  What it carries is that
frame: of the stream that was registered for its source when the request was taken up, with its
times and its payload, or with a payload of the same length that cannot be decoded.  Which of the
two it is depends on a counter that runs while a batch is built.

A segment points to the payload of its frame, which lies in the registered stream.  Once another
stream is registered for the source that payload is gone, and nothing is said about it.

The record kept beside the machine says which segments of the batch in flight are corrupted, how
many segments have been built and left unoffered, and what has been offered.

Main definitions:

* `Feed.CarriesFrame`, `Feed.Carries` — a segment carries a frame, corrupted or not;
* `Feed.corruptMarks` — which segments of a batch are corrupted;
* `Feed.Sources`, `Feed.offersOf` — the segments offered in a history, each with the source and the
  stream of its request;
* `Feed.Delivery`, `Feed.Record`, `Feed.feeding` — an offered segment, and the record;
* `Feed.Delivers` — the record says what each segment offered carries.

Main results:

* `Feed.buildSegments_carries`, `Feed.offers_carry` — **what a batch carries**;
* `Feed.delivers_of_run` — **the record tells the truth** about what is offered;
* `Feed.offers_carry_of_run` — **every segment offered carries the frame of its index**.
-/
import RialtoConformance.Feed.Interleaving

set_option relaxedAutoImplicit false
set_option autoImplicit false

namespace Feed

open Runs

/-! ### The frame of a segment -/

/-- A source, and the stream registered for it when a request was taken up. -/
structure Source where
  sourceId : Int32
  stream : AacElementaryStream
  /-- No other stream has been registered for the source since. -/
  registered : Bool

/-- The source once a stream is registered for `s`. -/
def Source.replace (s : Int32) (source : Source) : Source :=
  if source.sourceId = s then { source with registered := false } else source

/-- **A segment carries a frame of a source**: the times of the frame, the format of the stream, and
the payload of the frame while its stream is registered, or as many bytes `0xA5`. -/
structure CarriesFrame (source : Source) (frame : EncodedFrame) (corrupt : Bool)
    (segment : MediaSegment) : Prop where
  sourceId : segment.sourceId = source.sourceId
  timeStamp : segment.timeStamp = frame.timeStamp
  duration : segment.duration = frame.duration
  sampleRate : segment.sampleRate = source.stream.sampleRate.toInt32
  channels : segment.channels = source.stream.channels.toInt32
  dataLength : segment.dataLength = UInt32.ofNat frame.data.length
  data : corrupt = true ∨ source.registered = true →
    segment.data = if corrupt then List.replicate frame.data.length 0xA5 else frame.data

/-- An offer carries the frame of its index. -/
def Carries (source : Source) (offer : Offer) (corrupt : Bool) : Prop :=
  ∃ frame, source.stream.frames[offer.frame]? = some frame ∧
    CarriesFrame source frame corrupt offer.segment

/-- Which of the next `count` segments built are corrupted. -/
def corruptMarks (corruptEvery : UInt64) : ℕ → UInt64 → List Bool
  | 0, _ => []
  | count + 1, segmentsOffered =>
      let segmentsOffered := segmentsOffered + 1
      (corruptEvery ≠ 0 && segmentsOffered % corruptEvery = 0) ::
        corruptMarks corruptEvery count segmentsOffered

theorem segmentOf_carries (source : Source) (frame : EncodedFrame) (corrupt : Bool) :
    CarriesFrame source frame corrupt
      (segmentOf source.sourceId source.stream frame corrupt) :=
  ⟨rfl, rfl, rfl, rfl, rfl, rfl, fun _ => rfl⟩

theorem Carries.replace {source : Source} {offer : Offer} {corrupt : Bool}
    (h : Carries source offer corrupt) (s : Int32) : Carries (source.replace s) offer corrupt := by
  rw [Source.replace]
  split_ifs with hs
  · obtain ⟨frame, hframe, hcarries⟩ := h
    refine ⟨frame, hframe, { hcarries with data := ?_ }⟩
    rintro (hcorrupt | hregistered)
    · exact hcarries.data (Or.inl hcorrupt)
    · exact absurd hregistered Bool.false_ne_true
  · exact h

/-- **What a batch carries**: the frames from `idx` on, corrupted where they are marked. -/
theorem buildSegments_carries {source : Source} {corruptEvery : UInt64} :
    ∀ (frames : List EncodedFrame) (idx room : ℕ) (offered : UInt64),
      frames = source.stream.frames.drop idx →
        List.Forall₂ (Carries source)
          (buildSegments source.sourceId source.stream corruptEvery frames idx room offered).1
          (corruptMarks corruptEvery (buildSegments source.sourceId source.stream corruptEvery
            frames idx room offered).1.length offered) := by
  intro frames
  induction frames with
  | nil =>
      intro idx room offered _
      exact List.Forall₂.nil
  | cons frame frames ih =>
      intro idx room offered hframes
      cases room with
      | zero => exact List.Forall₂.nil
      | succ room =>
          have hfirst : source.stream.frames[idx]? = some frame := by
            have := congrArg List.head? hframes
            rw [List.head?_drop] at this
            exact this.symm
          have hrest : frames = source.stream.frames.drop (idx + 1) := by
            have := congrArg List.tail hframes
            rwa [List.tail_cons, List.tail_drop] at this
          simp only [buildSegments, List.length_cons, corruptMarks]
          exact List.Forall₂.cons ⟨frame, hfirst, segmentOf_carries source frame _⟩
            (ih (idx + 1) room _ hrest)

/-- **What a request offers**: the frames from the cursor on, corrupted where they are marked. -/
theorem offers_carry (c : Client) (need : NeedData) (feed : SourceFeed) :
    List.Forall₂ (Carries ⟨need.sourceId, feed.stream, true⟩) (c.offers need feed)
      (corruptMarks c.corruptEvery (c.offers need feed).length c.segmentsOffered) :=
  @buildSegments_carries ⟨need.sourceId, feed.stream, true⟩ _ _ _ _ _ rfl

/-! ### The segments of a history -/

/-- What a history says about the streams: those registered, and the one that the last request is
answered from. -/
structure Sources where
  streams : Int32 → Option AacElementaryStream
  request : Option Source

/-- The streams of a client that answers no request. -/
def Client.sources (c : Client) : Sources := ⟨fun s => (c.feeds s).map SourceFeed.stream, none⟩

def Sources.after (x : Sources) : Event → Sources
  | .app (.addAudioSource s stream) =>
      ⟨Function.update x.streams s (some stream), x.request.map (Source.replace s)⟩
  | .need need => { x with request := (x.streams need.sourceId).map fun stream =>
      ⟨need.sourceId, stream, true⟩ }
  | _ => x

def Event.offer : Event → Option Offer
  | .call (.addSegment _ offer _) => some offer
  | _ => none

/-- **The segments offered in a history**, in order, each with the source of its request, the stream
that was registered for it when the request was taken up, and whether it still is. -/
def offersOf : Sources → List Event → List (Option Source × Offer)
  | _, [] => []
  | x, e :: h => (e.offer.toList.map fun offer => (x.request, offer)) ++ offersOf (x.after e) h

theorem offersOf_append : ∀ (h : List Event) (x : Sources) (h' : List Event),
    offersOf x (h ++ h') = offersOf x h ++ offersOf (h.foldl Sources.after x) h' := by
  intro h
  induction h with
  | nil => intro x h'; rfl
  | cons e h ih =>
      intro x h'
      rw [List.cons_append, offersOf, offersOf, ih, List.append_assoc, List.foldl_cons]

/-! ### The record -/

/-- A segment offered, whether its payload is the corrupted one, and how many segments had been
built before its batch and never offered. -/
structure Delivery where
  offer : Offer
  corrupt : Bool
  skipped : ℕ
  deriving DecidableEq

/-- What is recorded beside the machine. -/
structure Record where
  /-- Which segments left of the batch in flight are corrupted. -/
  marks : List Bool
  /-- The segments built and never offered. -/
  skipped : ℕ
  /-- The segments offered. -/
  delivered : List Delivery

def Record.empty : Record := ⟨[], 0, []⟩

/-- How many segments the first section of a request builds. -/
def Client.built (c : Client) (need : NeedData) : ℕ :=
  match (c.buildBatch need).1 with
  | none => 0
  | some batch => batch.offers.length

def Record.note (t : Threads) (a : Section) (r : Record) : Record :=
  match a, t.activity with
  | .need need, _ =>
      match (t.client.openRound need).2 with
      | .offering _ rest =>
          { r with
            marks := corruptMarks t.client.corruptEvery rest.length t.client.segmentsOffered }
      | _ => { r with skipped := r.skipped + t.client.built need }
  | .advance _, .offering _ (offer :: _) =>
      { r with
        delivered := r.delivered ++ [⟨offer, r.marks.headD false, r.skipped⟩]
        marks := r.marks.tail }
  | .advance _, .noting _ status rest =>
      if status = .ok then r else { r with skipped := r.skipped + rest.length, marks := [] }
  | _, _ => r

/-- **The machine of sections with the record.** -/
def feeding : Machine (Threads × Record) Section Event := sections.recorded Record.note

/-- The segments left of the batch in flight. -/
def Activity.rest : Activity → List Offer
  | .offering _ rest => rest
  | .noting _ _ rest => rest
  | _ => []

/-- An offer carries the frame of its index, of the stream that its request is answered from. -/
def CarriesOf (request : Option Source) (offer : Offer) (corrupt : Bool) : Prop :=
  ∃ source, request = some source ∧ Carries source offer corrupt

theorem CarriesOf.replace {request : Option Source} {offer : Offer} {corrupt : Bool}
    (h : CarriesOf request offer corrupt) (s : Int32) :
    CarriesOf (request.map (Source.replace s)) offer corrupt := by
  obtain ⟨source, rfl, hcarries⟩ := h
  exact ⟨source.replace s, rfl, hcarries.replace s⟩

/-- **What each segment offered in a history carries**, beginning with the streams of the client
`c`: what it is recorded to carry. -/
def Delivers (c : Client) (h : List Event) (delivered : List Delivery) : Prop :=
  List.Forall₂ (fun p d => p.2 = d.offer ∧ CarriesOf p.1 d.offer d.corrupt)
    (offersOf c.sources h) delivered

/-- Where nothing is offered, nothing more is recorded. -/
theorem Delivers.append {c : Client} {h es : List Event} {delivered : List Delivery}
    (hd : Delivers c h delivered)
    (hnone : offersOf (h.foldl Sources.after c.sources) es = []) :
    Delivers c (h ++ es) delivered := by
  rw [Delivers, offersOf_append, hnone, List.append_nil]
  exact hd

/-- **The record tells the truth**: of the streams registered, of the segments offered, and of those
left of the batch in flight. -/
structure Truthful (c : Client) (t : Threads) (r : Record) (h : List Event) : Prop where
  streams : ∀ s, (h.foldl Sources.after c.sources).streams s =
    (t.client.feeds s).map SourceFeed.stream
  delivered : Delivers c h r.delivered
  inFlight : List.Forall₂ (CarriesOf (h.foldl Sources.after c.sources).request) t.activity.rest
    r.marks

/-! ### Step by step -/

/-- A batch that is going to be offered is what the first section has built from a stream. -/
theorem built_of_offering {c : Client} {need : NeedData} {round : Round} {rest : List Offer}
    (h : (c.openRound need).2 = .offering round rest) :
    c.built need = rest.length ∧ ∃ feed, c.feeds need.sourceId = some feed ∧
      List.Forall₂ (Carries ⟨need.sourceId, feed.stream, true⟩) rest
        (corruptMarks c.corruptEvery rest.length c.segmentsOffered) := by
  rcases unanswered_or_feed c need with hnone | ⟨feed, hpipeline, hfeed, hwithhold⟩
  · rw [openRound_snd_of_unanswered hnone] at h
    cases h
  · rw [openRound_snd_of_feed hpipeline hfeed hwithhold] at h
    split_ifs at h
    obtain ⟨-, rfl⟩ := Activity.offering.inj h
    refine ⟨?_, feed, hfeed, offers_carry c need feed⟩
    simp only [Client.built, Client.buildBatch, hpipeline, hfeed, Bool.not_true,
      Bool.false_eq_true, if_false]
    rfl

theorem openRound_snd_ne_noting (c : Client) (need : NeedData) (round : Round)
    (status : AddSegmentStatus) (rest : List Offer) :
    (c.openRound need).2 ≠ .noting round status rest := by
  rw [Client.openRound]
  split
  · simp
  · split_ifs <;> simp

theorem closeRound_stream (c : Client) (round : Round) (s : Int32) :
    ((c.closeRound round).1.feeds s).map SourceFeed.stream =
      (c.feeds s).map SourceFeed.stream := by
  simp only [Client.closeRound]
  cases hfeed : c.feeds round.sourceId with
  | none => rfl
  | some feed =>
      by_cases hs : s = round.sourceId
      · subst hs
        simp only [Function.update_self, hfeed, Option.map_some]
      · simp only [Function.update_of_ne hs]

/-- A call of the application registers the stream that the history says it does. -/
theorem apply_stream {c : Client} {x : Sources} (op : AppOp)
    (h : ∀ s, x.streams s = (c.feeds s).map SourceFeed.stream) (s : Int32) :
    (x.after (.app op)).streams s = ((op.apply c).feeds s).map SourceFeed.stream := by
  cases op with
  | addAudioSource sourceId stream =>
      simp only [Sources.after, AppOp.apply, Client.addAudioSource]
      by_cases hs : s = sourceId
      · subst hs
        simp only [Function.update_self, Option.map_some]
      · simp only [Function.update_of_ne hs, h]
  | rewindSource sourceId =>
      simp only [Sources.after, AppOp.apply, Client.rewindSource]
      by_cases hs : s = sourceId
      · subst hs
        rw [Function.update_self, h, Option.map_map]
        rfl
      · simp only [Function.update_of_ne hs, h]
  | _ => exact h s

/-- A step that offers no segment, and leaves the request and the streams alone. -/
theorem Truthful.settle {c : Client} {t t' : Threads} {r r' : Record} {h es : List Event}
    (hr : Truthful c t r h)
    (hsame : es.foldl Sources.after (h.foldl Sources.after c.sources) =
      h.foldl Sources.after c.sources)
    (hoffers : offersOf (h.foldl Sources.after c.sources) es = [])
    (hstreams : ∀ s, (t'.client.feeds s).map SourceFeed.stream =
      (t.client.feeds s).map SourceFeed.stream)
    (hdelivered : r'.delivered = r.delivered)
    (hinFlight : List.Forall₂ (CarriesOf (h.foldl Sources.after c.sources).request)
      t'.activity.rest r'.marks) : Truthful c t' r' (h ++ es) := by
  refine ⟨fun s => ?_, ?_, ?_⟩
  · rw [List.foldl_append, hsame, hstreams, hr.streams]
  · rw [hdelivered]
    exact hr.delivered.append hoffers
  · rw [List.foldl_append, hsame]
    exact hinFlight

theorem truthful_advance {c : Client} {t t' : Threads} {r : Record} {h es : List Event}
    (hr : Truthful c t r h) {status : AddSegmentStatus}
    (hstep : t.advance status = some (t', es)) :
    Truthful c t' (Record.note t (.advance status) r) (h ++ es) := by
  cases advanced_of_advance hstep with
  | settle u sourceId requestId => exact hr.settle rfl rfl (fun _ => rfl) rfl hr.inFlight
  | close u round => exact hr.settle rfl rfl (closeRound_stream u round) rfl hr.inFlight
  | offer u round offer rest =>
      obtain ⟨marks, skipped, delivered⟩ := r
      obtain ⟨hstreams, hdelivered, hinFlight⟩ := hr
      cases hinFlight with
      | @cons _ mark _ marks hfirst hrest =>
          refine ⟨fun s => ?_, ?_, ?_⟩
          · rw [List.foldl_append]
            exact hstreams s
          · rw [Delivers, offersOf_append]
            exact List.rel_append hdelivered (.cons ⟨rfl, hfirst⟩ .nil)
          · rw [List.foldl_append]
            exact hrest
  | note u round answer rest =>
      have hfeeds : ∀ s, ((u.noteAnswer round answer).1.feeds s).map SourceFeed.stream =
          (u.feeds s).map SourceFeed.stream := fun s => by rw [noteAnswer_feeds]
      simp only [Record.note]
      split_ifs with hok
      · refine hr.settle rfl rfl hfeeds rfl ?_
        rw [restAfter, if_pos hok]
        exact hr.inFlight
      · refine hr.settle rfl rfl hfeeds rfl ?_
        rw [restAfter, if_neg hok]
        exact .nil
  | answer u answer requestId => exact hr.settle rfl rfl (fun _ => rfl) rfl hr.inFlight

/-- The first section of a request: what it has built is of the stream that is registered. -/
theorem truthful_need {c u : Client} {r : Record} {h : List Event}
    (hr : Truthful c ⟨u, .idle⟩ r h) (need : NeedData) :
    Truthful c ⟨(u.openRound need).1, (u.openRound need).2⟩
      (Record.note ⟨u, .idle⟩ (.need need) r) (h ++ [Event.need need]) := by
  have hempty : r.marks = [] := List.forall₂_nil_left_iff.1 hr.inFlight
  have hdelivered : Delivers c (h ++ [Event.need need]) r.delivered := hr.delivered.append rfl
  have hstreams : ∀ s, ((h ++ [Event.need need]).foldl Sources.after c.sources).streams s =
      ((u.openRound need).1.feeds s).map SourceFeed.stream := by
    intro s
    rw [List.foldl_append, openRound_feeds]
    exact hr.streams s
  simp only [Record.note]
  cases hact : (u.openRound need).2 with
  | offering round rest =>
      obtain ⟨-, feed, hfeed, hcarries⟩ := built_of_offering hact
      refine ⟨hstreams, hdelivered, ?_⟩
      have hrequest : ((h ++ [Event.need need]).foldl Sources.after c.sources).request =
          some ⟨need.sourceId, feed.stream, true⟩ := by
        rw [List.foldl_append]
        show (Option.map _ _ : Option Source) = _
        rw [hr.streams, hfeed]
        rfl
      rw [hrequest]
      exact hcarries.imp fun _ _ hcarry => ⟨_, rfl, hcarry⟩
  | noting round status rest => exact absurd hact (openRound_snd_ne_noting _ _ _ _ _)
  | _ =>
      refine ⟨hstreams, hdelivered, ?_⟩
      rw [hempty]
      exact .nil

/-- **The record tells the truth** after one step. -/
theorem truthful_step {c : Client} {s s' : Threads × Record} {a : Section} {h es : List Event}
    (hr : Truthful c s.1 s.2 h) (hstep : feeding.step s a = some (s', es)) :
    Truthful c s'.1 s'.2 (h ++ es) := by
  obtain ⟨t, r⟩ := s
  obtain ⟨t', r'⟩ := s'
  obtain ⟨hstep, rfl⟩ := Machine.step_recorded.1 hstep
  cases stepped_of_step hstep with
  | app u act op =>
      refine ⟨fun s => ?_, ?_, ?_⟩
      · rw [List.foldl_append]
        exact apply_stream op hr.streams s
      · exact hr.delivered.append rfl
      · rw [List.foldl_append]
        cases op with
        | addAudioSource sourceId stream =>
            exact hr.inFlight.imp fun _ _ hcarries => hcarries.replace sourceId
        | _ => exact hr.inFlight
  | need u request => exact truthful_need hr request
  | cancel u sourceId => exact hr.settle rfl rfl (fun _ => rfl) rfl hr.inFlight
  | advance hadvance => exact truthful_advance hr hadvance

/-- **The record tells the truth.** -/
theorem delivers_of_run {c : Client} {as : List Section} {s : Threads × Record} {h : List Event}
    (hrun : feeding.run (⟨c, .idle⟩, Record.empty) as = some (s, h)) :
    Delivers c h s.2.delivered := by
  have hinit : Truthful c ⟨c, .idle⟩ Record.empty [] := ⟨fun _ => rfl, .nil, .nil⟩
  have hinv := Machine.run_induction (P := fun s h => Truthful c s.1 s.2 h)
    (fun s h a s' es hr hstep => truthful_step hr hstep) hinit hrun
  rw [List.nil_append] at hinv
  exact hinv.delivered

/-- **Every segment offered carries the frame of its index**, of the stream that was registered for
its source when the request was taken up, in every run of sections. -/
theorem offers_carry_of_run {c : Client} {as : List Section} {t : Threads} {h : List Event}
    (hrun : sections.run ⟨c, .idle⟩ as = some (t, h)) :
    ∀ p ∈ offersOf c.sources h, ∃ corrupt, CarriesOf p.1 p.2 corrupt := by
  obtain ⟨r, hrecord⟩ := (sections.run_recorded Record.empty).1 hrun
  have hdelivers := List.forall₂_iff_get.1 (delivers_of_run hrecord)
  intro p hp
  obtain ⟨k, hk, rfl⟩ := List.getElem_of_mem hp
  obtain ⟨heq, hcarries⟩ := hdelivers.2 k hk (hdelivers.1 ▸ hk)
  rw [← heq] at hcarries
  exact ⟨_, hcarries⟩

end Feed
