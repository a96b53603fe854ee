/-
**Requests and their answers.**

Every call on the pipeline carries the id of the request it is made for.  For a request that is
answered these calls stand together in the history: the segments offered, and then one `haveData`;
for one that is left unanswered there are none.

The callback reads the pipeline pointer again for each of its calls, and what is said here is for a
pointer that is not changed while a request is in flight.

Main definitions:

* `Feed.pipelineCalls`, `Feed.requestIds` — the calls and the requests of a history;
* `Feed.Segments`, `Feed.Exchange` — the segments offered for a request, and its whole answer;
* `Feed.Underway`, `Feed.Standing` — how far a callback has come, and what has become of a request.

Main results:

* `Feed.underway_advance`, `Feed.standing_step` — one section further;
* `Feed.arrived_of_run` — calls are made for requests that have arrived;
* `Feed.correlation` — **every request is answered once, and in one piece**.
-/
import RialtoConformance.Feed.Interleaving

set_option relaxedAutoImplicit false
set_option autoImplicit false

namespace Feed

open Runs

/-! ### Calls and requests of a history -/

def PipelineCall.requestId : PipelineCall → UInt32
  | .addSegment requestId _ _ => requestId
  | .haveData _ requestId => requestId

/-- The call on the pipeline that an event is. -/
def Event.pipelineCall : Event → Option PipelineCall
  | .call made => some made
  | _ => none

/-- The id of the request that an event is. -/
def Event.requestId : Event → Option UInt32
  | .need request => some request.requestId
  | _ => none

/-- The calls on the pipeline, in order. -/
def pipelineCalls (h : List Event) : List PipelineCall := h.filterMap Event.pipelineCall

/-- The ids of the requests, in order. -/
def requestIds (h : List Event) : List UInt32 := h.filterMap Event.requestId

@[simp] theorem pipelineCalls_append (h h' : List Event) :
    pipelineCalls (h ++ h') = pipelineCalls h ++ pipelineCalls h' := List.filterMap_append

@[simp] theorem requestIds_append (h h' : List Event) :
    requestIds (h ++ h') = requestIds h ++ requestIds h' := List.filterMap_append

@[simp] theorem pipelineCalls_nil : pipelineCalls [] = [] := rfl

@[simp] theorem pipelineCalls_app (op : AppOp) : pipelineCalls [.app op] = [] := rfl

@[simp] theorem pipelineCalls_need (need : NeedData) : pipelineCalls [.need need] = [] := rfl

@[simp] theorem pipelineCalls_cancel (sourceId : Int32) : pipelineCalls [.cancel sourceId] = [] :=
  rfl

def Activity.requestId : Activity → Option UInt32
  | .idle => none
  | .starving _ requestId => some requestId
  | .offering round _ => some round.requestId
  | .noting round _ _ => some round.requestId
  | .answering _ requestId => some requestId

theorem advance_requestId {t t' : Threads} {status : AddSegmentStatus} {es : List Event}
    (hstep : t.advance status = some (t', es)) :
    (∀ call ∈ pipelineCalls es, t.activity.requestId = some call.requestId) ∧ requestIds es = [] ∧
      (t'.activity.requestId = t.activity.requestId ∨ t'.activity.requestId = none) := by
  cases advanced_of_advance hstep with
  | settle c sourceId requestId => exact ⟨by simp [pipelineCalls], rfl, Or.inl rfl⟩
  | close c round => exact ⟨by simp [pipelineCalls], rfl, Or.inl rfl⟩
  | offer c round offer rest =>
      refine ⟨?_, rfl, Or.inl rfl⟩
      intro call hcall
      obtain rfl := List.mem_singleton.1 hcall
      rfl
  | note c round answer rest =>
      refine ⟨by simp [pipelineCalls], rfl, Or.inl ?_⟩
      simp only [Activity.requestId, noteAnswer_snd]
      split <;> rfl
  | answer c answer requestId =>
      refine ⟨?_, rfl, Or.inr rfl⟩
      intro call hcall
      obtain rfl := List.mem_singleton.1 hcall
      rfl

theorem openRound_requestId (c : Client) (need : NeedData) :
    (c.openRound need).2.requestId = none ∨
      (c.openRound need).2.requestId = some need.requestId := by
  rw [Client.openRound]
  split
  · exact Or.inl rfl
  · split_ifs
    · exact Or.inl rfl
    · exact Or.inr rfl
    · exact Or.inr rfl

/-! ### The answer to a request -/

/-- A request that nothing can or may answer when it arrives. -/
def Unanswered (c : Client) (need : NeedData) : Prop :=
  c.pipeline = false ∨ c.feeds need.sourceId = none ∨ c.withhold = true

/-- Calls that have been made for a request and accepted. -/
def AllAccepted (need : NeedData) (calls : List PipelineCall) : Prop :=
  ∀ call ∈ calls, ∃ offer, call = .addSegment need.requestId offer .ok ∧
    offer.segment.sourceId = need.sourceId

/-- **Segments offered for a request**: all for its source, and all but the last accepted. -/
structure Segments (need : NeedData) (calls : List PipelineCall) : Prop where
  source : ∀ call ∈ calls, ∃ offer status,
    call = .addSegment need.requestId offer status ∧ offer.segment.sourceId = need.sourceId
  accepted : ∀ call ∈ calls.dropLast, ∃ offer, call = .addSegment need.requestId offer .ok

/-- **The answer to a request** that arrives at the client `c`: segments, none of them in starve
mode, and then the status. -/
def Exchange (c : Client) (need : NeedData) (calls : List PipelineCall) : Prop :=
  ∃ segments status, calls = segments ++ [.haveData status need.requestId] ∧
    Segments need segments ∧ (c.starve = true → segments = [] ∧ status = .ok)

theorem segments_nil (need : NeedData) : Segments need [] := ⟨by simp, by simp⟩

theorem AllAccepted.concat {need : NeedData} {calls : List PipelineCall} {offer : Offer}
    {status : AddSegmentStatus} (h : AllAccepted need calls)
    (hsource : offer.segment.sourceId = need.sourceId) :
    Segments need (calls ++ [.addSegment need.requestId offer status]) ∧
      (status = .ok → AllAccepted need (calls ++ [.addSegment need.requestId offer status])) := by
  refine ⟨⟨?_, ?_⟩, ?_⟩
  · intro call hcall
    rcases List.mem_append.1 hcall with hcall | hcall
    · obtain ⟨offer', rfl, hoffer⟩ := h call hcall
      exact ⟨offer', .ok, rfl, hoffer⟩
    · exact ⟨offer, status, List.mem_singleton.1 hcall, hsource⟩
  · intro call hcall
    rw [List.dropLast_concat] at hcall
    obtain ⟨offer', rfl, -⟩ := h call hcall
    exact ⟨offer', rfl⟩
  · rintro rfl call hcall
    rcases List.mem_append.1 hcall with hcall | hcall
    · exact h call hcall
    · exact ⟨offer, List.mem_singleton.1 hcall, hsource⟩

/-- **How far a callback has come** with a request, when it has made these calls for it. -/
def Underway (c : Client) (need : NeedData) (calls : List PipelineCall) : Activity → Prop
  | .idle => False
  | .starving _ requestId => requestId = need.requestId ∧ calls = []
  | .offering round rest => round.requestId = need.requestId ∧ c.starve = false ∧
      (∀ o ∈ rest, o.segment.sourceId = need.sourceId) ∧ Segments need calls ∧
        (rest ≠ [] → AllAccepted need calls)
  | .noting round status rest => round.requestId = need.requestId ∧ c.starve = false ∧
      (∀ o ∈ rest, o.segment.sourceId = need.sourceId) ∧ Segments need calls ∧
        (status = .ok → AllAccepted need calls)
  | .answering status requestId => requestId = need.requestId ∧ Segments need calls ∧
      (c.starve = true → calls = [] ∧ status = .ok)

theorem Underway.segments {c : Client} {need : NeedData} {calls : List PipelineCall}
    {act : Activity} (h : Underway c need calls act) :
    Segments need calls ∧ (c.starve = true → calls = []) := by
  cases act with
  | idle => exact absurd h id
  | starving sourceId requestId =>
      obtain ⟨-, rfl⟩ := h
      exact ⟨segments_nil need, fun _ => rfl⟩
  | offering round rest =>
      obtain ⟨-, hstarve, -, hsegments, -⟩ := h
      exact ⟨hsegments, by simp [hstarve]⟩
  | noting round status rest =>
      obtain ⟨-, hstarve, -, hsegments, -⟩ := h
      exact ⟨hsegments, by simp [hstarve]⟩
  | answering status requestId => exact ⟨h.2.1, fun hstarve => (h.2.2 hstarve).1⟩

theorem Underway.requestId {c : Client} {need : NeedData} {calls : List PipelineCall}
    {act : Activity} (h : Underway c need calls act) : act.requestId = some need.requestId := by
  cases act with
  | idle => exact absurd h id
  | _ => exact congrArg some h.1

/-- **One section further**: the callback is underway still, or it has answered its request. -/
theorem underway_advance {c : Client} {need : NeedData} {calls : List PipelineCall}
    {t t' : Threads} {status : AddSegmentStatus} {es : List Event}
    (h : Underway c need calls t.activity) (hstep : t.advance status = some (t', es)) :
    Underway c need (calls ++ pipelineCalls es) t'.activity ∨
      t'.activity = .idle ∧ Exchange c need (calls ++ pipelineCalls es) := by
  cases advanced_of_advance hstep with
  | settle client sourceId requestId =>
      obtain ⟨hid, rfl⟩ := h
      exact Or.inl ⟨hid, segments_nil need, fun _ => ⟨rfl, rfl⟩⟩
  | close client round =>
      obtain ⟨hid, hstarve, -, hsegments, -⟩ := h
      refine Or.inl ⟨hid, ?_, by simp [hstarve]⟩
      rwa [pipelineCalls_nil, List.append_nil]
  | offer client round offer rest =>
      obtain ⟨hid, hstarve, hrest, -, haccepted⟩ := h
      obtain ⟨hnext, hall⟩ :=
        @AllAccepted.concat need calls offer status (haccepted (by simp)) (hrest offer (by simp))
      rw [← hid] at hnext hall
      exact Or.inl ⟨hid, hstarve, fun o ho => hrest o (List.mem_cons_of_mem _ ho), hnext, hall⟩
  | note client round answer rest =>
      obtain ⟨hid, hstarve, hrest, hsegments, haccepted⟩ := h
      rw [pipelineCalls_nil, List.append_nil]
      -- behind a rejection nothing of the batch is left
      refine Or.inl ⟨?_, hstarve, ?_, hsegments, ?_⟩
      · rw [noteAnswer_snd]
        split_ifs <;> exact hid
      · intro o ho
        rw [restAfter] at ho
        split_ifs at ho
        · exact hrest o ho
        · exact absurd ho (by simp)
      · intro hleft
        rw [restAfter] at hleft
        split_ifs at hleft with hok
        · exact haccepted hok
        · exact absurd rfl hleft
  | answer client answer requestId =>
      obtain ⟨rfl, hsegments, hstarve⟩ := h
      exact Or.inr ⟨rfl, calls, answer, rfl, hsegments, hstarve⟩

theorem underway_openRound {c : Client} {need : NeedData} (h : ¬ Unanswered c need) :
    Underway c need [] (c.openRound need).2 := by
  rcases unanswered_or_feed c need with hun | ⟨feed, hpipeline, hfeed, hwithhold⟩
  · exact absurd hun h
  · rw [openRound_snd_of_feed hpipeline hfeed hwithhold]
    cases hstarve : c.starve with
    | true => exact ⟨rfl, rfl⟩
    | false =>
        exact ⟨rfl, hstarve, offers_sourceId c need feed, segments_nil need, by simp [AllAccepted]⟩

/-! ### A request through a run -/

/-- **What has become of a request** that arrived at the client `c`, when these calls have been
made since: it is being answered, or it has been left alone or answered and no call has been made
for it again. -/
def Standing (c : Client) (need : NeedData) (act : Activity) (calls : List PipelineCall) : Prop :=
  ¬ Unanswered c need ∧ Underway c need calls act ∨
    act.requestId ≠ some need.requestId ∧ ∃ block later, calls = block ++ later ∧
      (∀ call ∈ later, call.requestId ≠ need.requestId) ∧
        (Unanswered c need ∧ block = [] ∨ ¬ Unanswered c need ∧ Exchange c need block)

/-- **One step**, behind which no request with the same id has arrived. -/
theorem standing_step {c : Client} {need : NeedData} {t t' : Threads} {a : Section}
    {calls : List PipelineCall} {es : List Event} (h : Standing c need t.activity calls)
    (hstep : sections.step t a = some (t', es)) (hids : need.requestId ∉ requestIds es) :
    Standing c need t'.activity (calls ++ pipelineCalls es) := by
  cases stepped_of_step hstep with
  | app client act op => rwa [pipelineCalls_app, List.append_nil]
  | need client request =>
      rw [pipelineCalls_need, List.append_nil]
      refine Or.inr ⟨?_, (h.resolve_left fun hunder => hunder.2).2⟩
      have hother : need.requestId ≠ request.requestId := fun heq => hids (by
        rw [heq]
        exact List.mem_singleton_self _)
      rcases openRound_requestId client request with hnone | hsome
      · rw [hnone]
        simp
      · rw [hsome]
        exact fun heq => hother (Option.some.inj heq).symm
  | cancel client sourceId => rwa [pipelineCalls_cancel, List.append_nil]
  | advance hadvance =>
      rcases h with ⟨hanswered, hunder⟩ | ⟨hother, block, later, rfl, hlater, hblock⟩
      · rcases underway_advance hunder hadvance with hunder' | ⟨hidle, hexchange⟩
        · exact Or.inl ⟨hanswered, hunder'⟩
        · refine Or.inr ⟨by simp [hidle, Activity.requestId], _, [], (List.append_nil _).symm,
            by simp, Or.inr ⟨hanswered, hexchange⟩⟩
      · -- the request in flight is another one
        obtain ⟨hcalls, -, hact⟩ := advance_requestId hadvance
        refine Or.inr ⟨?_, block, later ++ pipelineCalls es, List.append_assoc .., ?_, hblock⟩
        · rcases hact with hsame | hnone
          · rwa [hsame]
          · rw [hnone]
            simp
        · intro call hcall
          rcases List.mem_append.1 hcall with hcall | hcall
          · exact hlater call hcall
          · intro heq
            rw [hcalls call hcall, heq] at hother
            exact hother rfl

/-- The calls of a history, and the request in flight, are for requests that have arrived in it. -/
structure Arrived (t : Threads) (h : List Event) : Prop where
  calls : ∀ call ∈ pipelineCalls h, call.requestId ∈ requestIds h
  inFlight : ∀ r, t.activity.requestId = some r → r ∈ requestIds h

theorem arrived_step {t t' : Threads} {a : Section} {h es : List Event} (harrived : Arrived t h)
    (hstep : sections.step t a = some (t', es)) : Arrived t' (h ++ es) := by
  have hcalls : ∀ call ∈ pipelineCalls h, call.requestId ∈ requestIds (h ++ es) := by
    intro call hcall
    rw [requestIds_append]
    exact List.mem_append_left _ (harrived.calls call hcall)
  have hact : ∀ r, t.activity.requestId = some r → r ∈ requestIds (h ++ es) := by
    intro r hr
    rw [requestIds_append]
    exact List.mem_append_left _ (harrived.inFlight r hr)
  cases stepped_of_step hstep with
  | app client act op =>
      refine ⟨?_, hact⟩
      rwa [pipelineCalls_append, pipelineCalls_app, List.append_nil]
  | need client request =>
      refine ⟨?_, ?_⟩
      · rwa [pipelineCalls_append, pipelineCalls_need, List.append_nil]
      · intro r hr
        rcases openRound_requestId client request with hnone | hsome
        · rw [hnone] at hr
          exact absurd hr (by simp)
        · rw [hsome] at hr
          rw [requestIds_append, ← Option.some.inj hr]
          exact List.mem_append_right _ (List.mem_singleton_self _)
  | cancel client sourceId =>
      refine ⟨?_, by simp [Activity.requestId]⟩
      rwa [pipelineCalls_append, pipelineCalls_cancel, List.append_nil]
  | advance hadvance =>
      obtain ⟨hes, -, hnext⟩ := advance_requestId hadvance
      refine ⟨?_, ?_⟩
      · intro call hcall
        rw [pipelineCalls_append] at hcall
        rcases List.mem_append.1 hcall with hcall | hcall
        · exact hcalls call hcall
        · exact hact _ (hes call hcall)
      · intro r hr
        rcases hnext with hsame | hnone
        · exact hact r (hsame ▸ hr)
        · rw [hnone] at hr
          exact absurd hr (by simp)

/-- **Calls are made for requests that have arrived.** -/
theorem arrived_of_run {c : Client} {as : List Section} {t : Threads} {h : List Event}
    (hrun : sections.run ⟨c, .idle⟩ as = some (t, h)) : Arrived t h := by
  have hinit : Arrived ⟨c, .idle⟩ [] :=
    ⟨by simp [pipelineCalls], by simp [Activity.requestId]⟩
  have hinv := Machine.run_induction (P := Arrived)
    (fun t h a t' es harrived hstep => arrived_step harrived hstep) hinit hrun
  rwa [List.nil_append] at hinv

theorem standing_of_run {need : NeedData} {u t : Threads} {as : List Section} {h : List Event}
    (hrun : sections.run u (.need need :: as) = some (t, .need need :: h))
    (hids : need.requestId ∉ requestIds h) :
    Standing u.client need t.activity (pipelineCalls h) := by
  obtain ⟨v, es, h', hstep, hrest, heq⟩ := Machine.run_cons.1 hrun
  cases stepped_of_step hstep with
  | need client =>
      obtain rfl := (List.cons.inj heq).2
      have hinv := @Machine.run_induction _ _ _ sections
        (fun t h => need.requestId ∉ requestIds h →
          Standing client need t.activity (pipelineCalls h)) ?_ as _ t [] h ?_ hrest
      · rw [List.nil_append] at hinv
        exact hinv hids
      · intro v h a v' es hstanding hstep hids
        rw [requestIds_append, List.mem_append, not_or] at hids
        rw [pipelineCalls_append]
        exact standing_step (hstanding hids.1) hstep hids.2
      · intro _
        by_cases hun : Unanswered client need
        · refine Or.inr ⟨?_, [], [], rfl, by simp, Or.inl ⟨hun, rfl⟩⟩
          simp only [openRound_snd_of_unanswered hun]
          simp [Activity.requestId]
        · exact Or.inl ⟨hun, underway_openRound hun⟩

/-- **Every request is answered once, and in one piece.**  Where the ids of requests differ, the
calls for a request stand together: none when it was left unanswered, the segments offered so far
while it is being answered, and its whole answer behind that. -/
theorem correlation {c : Client} {as₁ as₂ : List Section} {u t : Threads} {h₁ h₂ : List Event}
    {need : NeedData} (hbefore : sections.run ⟨c, .idle⟩ as₁ = some (u, h₁))
    (hafter : sections.run u (.need need :: as₂) = some (t, h₂))
    (hdistinct : (requestIds (h₁ ++ h₂)).Nodup) :
    ∃ earlier block later, pipelineCalls (h₁ ++ h₂) = earlier ++ block ++ later ∧
      (∀ call ∈ earlier ++ later, call.requestId ≠ need.requestId) ∧
        (t.activity.requestId = some need.requestId →
          Segments need block ∧ (u.client.starve = true → block = []) ∧ later = []) ∧
          (t.activity.requestId ≠ some need.requestId →
            Unanswered u.client need ∧ block = [] ∨
              ¬ Unanswered u.client need ∧ Exchange u.client need block) := by
  obtain ⟨v, es, h, hstep, hrest, rfl⟩ := Machine.run_cons.1 hafter
  obtain rfl : es = [.need need] := by
    cases stepped_of_step hstep with
    | need client => rfl
  -- the request is the only one with its id
  have hids : need.requestId ∉ requestIds h₁ ∧ need.requestId ∉ requestIds h := by
    rw [requestIds_append, requestIds_append, List.nodup_append, List.nodup_append] at hdistinct
    obtain ⟨-, ⟨-, -, hlater⟩, hearlier⟩ := hdistinct
    refine ⟨fun hmem => ?_, fun hmem => ?_⟩
    · exact hearlier _ hmem _ (List.mem_append_left _ (List.mem_singleton_self _)) rfl
    · exact hlater _ (List.mem_singleton_self _) _ hmem rfl
  have hearlier : ∀ call ∈ pipelineCalls h₁, call.requestId ≠ need.requestId := by
    intro call hcall heq
    exact hids.1 (heq ▸ (arrived_of_run hbefore).calls call hcall)
  have hcalls : pipelineCalls (h₁ ++ ([.need need] ++ h)) = pipelineCalls h₁ ++ pipelineCalls h := by
    rw [pipelineCalls_append, pipelineCalls_append, pipelineCalls_need, List.nil_append]
  rw [hcalls]
  rcases @standing_of_run need u t as₂ h hafter hids.2 with
    ⟨-, hunder⟩ | ⟨hother, block, later, hblock, hlater, hstanding⟩
  · refine ⟨pipelineCalls h₁, pipelineCalls h, [], (List.append_nil _).symm, ?_, ?_, ?_⟩
    · rwa [List.append_nil]
    · exact fun _ => ⟨hunder.segments.1, hunder.segments.2, rfl⟩
    · exact fun hother => absurd hunder.requestId hother
  · refine ⟨pipelineCalls h₁, block, later, ?_, ?_, ?_, ?_⟩
    · rw [hblock, List.append_assoc]
    · intro call hcall
      rcases List.mem_append.1 hcall with hcall | hcall
      · exact hearlier call hcall
      · exact hlater call hcall
    · exact fun hself => absurd hself hother
    · exact fun _ => hstanding

def acceptedRun : List Section :=
  [.app (.setPipeline true), .app (.addAudioSource 1 twoFrames), .need ⟨1, 1, 1, true⟩,
    .advance .ok, .advance .ok, .advance .ok, .advance .ok]

/-- The segment of the next request is rejected, and the one behind it is answered in starve
mode. -/
def rejectedRun : List Section :=
  [.advance .noSpace, .app (.setStarve true), .advance .ok, .advance .ok, .advance .ok,
    .need ⟨1, 1, 3, true⟩, .advance .ok, .advance .ok]

/-- The calls for the request in the middle stand together. -/
theorem correlation_rejectedRun : ∃ u t h₁ h₂,
    sections.run ⟨Client.init, .idle⟩ acceptedRun = some (u, h₁) ∧
      sections.run u (.need ⟨1, 1, 2, true⟩ :: rejectedRun) = some (t, h₂) ∧
        ∃ earlier block later, pipelineCalls (h₁ ++ h₂) = earlier ++ block ++ later ∧
          (∀ call ∈ earlier ++ later, call.requestId ≠ 2) ∧
            (Unanswered u.client ⟨1, 1, 2, true⟩ ∧ block = [] ∨
              ¬ Unanswered u.client ⟨1, 1, 2, true⟩ ∧
                Exchange u.client ⟨1, 1, 2, true⟩ block) := by
  have hids : [(1 : UInt32), 2, 3].Nodup := by decide
  obtain ⟨earlier, block, later, hcalls, hother, -, hanswer⟩ :=
    @correlation Client.init acceptedRun rejectedRun _ _ _ _ ⟨1, 1, 2, true⟩ rfl rfl hids
  have hidle : Activity.idle.requestId ≠ some 2 := by simp [Activity.requestId]
  exact ⟨_, _, _, _, rfl, rfl, earlier, block, later, hcalls, hother, hanswer hidle⟩

end Feed
