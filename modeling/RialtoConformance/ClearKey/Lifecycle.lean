/-
**The keys of a session over its whole life.**

A session as a machine that is also queried: every call is observed with its return value and the
callbacks it fires.  Keys come by updates and go by removals; loads, closes, queries and updates
that fail, also those that fail halfway, take none away.

Main definitions:

* `ClearKey.LifecycleCall`, `ClearKey.Observation` — the calls and queries, and what is seen of
  them;
* `ClearKey.lifecycle` — the machine;
* `ClearKey.Usable` — a key id is reported usable.

Main results:

* `ClearKey.contains_step`, `ClearKey.closed_step` — what a step does to the keys;
* `ClearKey.usable_of_updated`, `ClearKey.not_usable_of_removed`, `ClearKey.refused_of_closed` —
  behind an update, behind a removal and behind the first close;
* `ClearKey.key_lifecycle` — **the life of a key**.
-/
import RialtoConformance.ClearKey.Licence

set_option relaxedAutoImplicit false
set_option autoImplicit false

namespace ClearKey

open Override Runs

/-! ### The machine -/

/-- `opencdm_session_id`. -/
def opencdmSessionId (session : Option OpenCDMSession) : Option String :=
  session.map OpenCDMSession.sessionId

/-- `opencdm_session_set_drm_header`, which looks at none of its arguments. -/
def opencdmSessionSetDrmHeader (_session : Option OpenCDMSession) (_drmHeader : Option Bytes)
    (_drmHeaderSize : UInt32) : OpenCDMError := .errorNone

/-- `opencdm_session_system_error`. -/
def opencdmSessionSystemError (_session : Option OpenCDMSession) : OpenCDMError := .errorNone

/-- A call on a session, or a query. -/
inductive LifecycleCall
  | call (call : SessionCall)
  | status (keyId : Option Bytes) (length : UInt8)
  | hasKeyId (length : UInt8) (keyId : Option Bytes)
  | sessionId
  | setDrmHeader (drmHeader : Option Bytes) (drmHeaderSize : UInt32)
  | systemError

/-- What is seen of it. -/
inductive Observation
  | replied (call : SessionCall) (error : OpenCDMError) (calls : List CallbackCall)
  | status (keyId : Option Bytes) (length : UInt8) (status : KeyStatus)
  | hasKeyId (length : UInt8) (keyId : Option Bytes) (result : UInt32)
  | sessionId (id : Option String)
  | drmHeaderSet (error : OpenCDMError)
  | systemError (error : OpenCDMError)

/-- **A session that is called and queried.** -/
def lifecycle : Machine OpenCDMSession LifecycleCall Observation where
  step s
    | .call call =>
        let reply := call.reply (some s)
        reply.session.map fun s' => (s', [.replied call reply.error reply.calls])
    | .status keyId length =>
        some (s, [.status keyId length (opencdmSessionStatus (some s) keyId length)])
    | .hasKeyId length keyId =>
        some (s, [.hasKeyId length keyId (opencdmSessionHasKeyId (some s) length keyId)])
    | .sessionId => some (s, [.sessionId (opencdmSessionId (some s))])
    | .setDrmHeader drmHeader drmHeaderSize =>
        some (s, [.drmHeaderSet (opencdmSessionSetDrmHeader (some s) drmHeader drmHeaderSize)])
    | .systemError => some (s, [.systemError (opencdmSessionSystemError (some s))])

/-- **A key id is reported usable.** -/
def Usable (s : OpenCDMSession) (kid : Bytes) : Prop :=
  opencdmSessionStatus (some s) (some kid) (UInt8.ofNat kid.length) = .usable ∧
    opencdmSessionHasKeyId (some s) (UInt8.ofNat kid.length) (some kid) = 1

theorem usable_iff {s : OpenCDMSession} {kid : Bytes} (hpos : 1 ≤ kid.length)
    (hle : kid.length ≤ 255) : Usable s kid ↔ s.keys.contains kid = true := by
  have hlength : (UInt8.ofNat kid.length).toNat = kid.length := by
    rw [UInt8.toNat_ofNat']
    omega
  have hne : UInt8.ofNat kid.length ≠ 0 := by
    intro hzero
    rw [hzero] at hlength
    have : (0 : UInt8).toNat = 0 := rfl
    omega
  rw [Usable, opencdmSessionStatus_eq_usable_iff, opencdmSessionHasKeyId_eq_one_iff, and_self,
    hlength, List.take_length]
  simp only [ne_eq, hne, not_false_eq_true, true_and]

/-! ### What a step does to the keys -/

/-- What an update stores is stored on top of what there is; a closed session takes nothing. -/
theorem update_keys (s : OpenCDMSession) (keyMessage : Option Bytes) (keyLength : UInt16) :
    ∃ s', (opencdmSessionUpdate (some s) keyMessage keyLength).session = some s' ∧
      s'.closed = s.closed ∧ (∀ k, s.keys.contains k = true → s'.keys.contains k = true) ∧
        (s.closed = true → s' = s) := by
  by_cases hloop : ReachesLoop (some s) keyMessage keyLength
  · obtain ⟨s', message, entries, hs, rfl, hlen, hopen, hentries⟩ := hloop
    obtain rfl := Option.some.inj hs
    refine ⟨_, congrArg Reply.session (opencdmSessionUpdate_of_entries hlen hopen hentries), rfl, ?_,
      ?_⟩
    · intro k hk
      exact contains_override.2 (Or.inr hk)
    · intro hclosed
      rw [hopen] at hclosed
      exact absurd hclosed (by simp)
  · exact ⟨s, (opencdmSessionUpdate_of_refused hloop).2.1, rfl, fun _ hk => hk, fun _ => rfl⟩

/-- **A step that removes nothing takes no key away.** -/
theorem contains_step {s s' : OpenCDMSession} {a : LifecycleCall} {o : List Observation}
    (hremove : a ≠ .call .remove) (hstep : lifecycle.step s a = some (s', o)) {k : Bytes}
    (hk : s.keys.contains k = true) : s'.keys.contains k = true := by
  cases a with
  | call call =>
      cases call with
      | remove => exact absurd rfl hremove
      | load =>
          obtain ⟨rfl, -⟩ := Prod.mk.inj (Option.some.inj hstep)
          exact hk
      | close =>
          obtain ⟨rfl, -⟩ := Prod.mk.inj (Option.some.inj hstep)
          exact hk
      | update keyMessage keyLength =>
          obtain ⟨t, ht, -, hkeys, -⟩ := update_keys s keyMessage keyLength
          simp only [lifecycle, SessionCall.reply, ht, Option.map_some, Option.some.injEq,
            Prod.mk.injEq] at hstep
          obtain ⟨rfl, -⟩ := hstep
          exact hkeys k hk
  | _ =>
      obtain ⟨rfl, -⟩ := Prod.mk.inj (Option.some.inj hstep)
      exact hk

/-- **A closed session stays closed, and gets no key.** -/
theorem closed_step {s s' : OpenCDMSession} {a : LifecycleCall} {o : List Observation}
    (hclosed : s.closed = true) (hstep : lifecycle.step s a = some (s', o)) :
    s'.closed = true ∧ ∀ k, s'.keys.contains k = true → s.keys.contains k = true := by
  cases a with
  | call call =>
      cases call with
      | remove =>
          obtain ⟨rfl, -⟩ := Prod.mk.inj (Option.some.inj hstep)
          exact ⟨hclosed, fun k hk => absurd hk (by simp)⟩
      | load =>
          obtain ⟨rfl, -⟩ := Prod.mk.inj (Option.some.inj hstep)
          exact ⟨hclosed, fun _ hk => hk⟩
      | close =>
          obtain ⟨rfl, -⟩ := Prod.mk.inj (Option.some.inj hstep)
          exact ⟨rfl, fun _ hk => hk⟩
      | update keyMessage keyLength =>
          obtain ⟨t, ht, -, -, hsame⟩ := update_keys s keyMessage keyLength
          simp only [lifecycle, SessionCall.reply, ht, Option.map_some, Option.some.injEq,
            Prod.mk.injEq] at hstep
          obtain ⟨rfl, -⟩ := hstep
          rw [hsame hclosed]
          exact ⟨hclosed, fun _ hk => hk⟩
  | _ =>
      obtain ⟨rfl, -⟩ := Prod.mk.inj (Option.some.inj hstep)
      exact ⟨hclosed, fun _ hk => hk⟩

theorem closed_of_run {calls : List LifecycleCall} {s s' : OpenCDMSession} {o : List Observation}
    (hclose : .call .close ∈ calls) (hrun : lifecycle.run s calls = some (s', o)) :
    s'.closed = true := by
  obtain ⟨before, later, rfl⟩ := List.append_of_mem hclose
  obtain ⟨t, o₁, o₂, -, hlater, -⟩ := Machine.run_append.1 hrun
  obtain ⟨u, o₃, o₄, hstep, hrest, -⟩ := Machine.run_cons.1 hlater
  obtain ⟨rfl, -⟩ := Prod.mk.inj (Option.some.inj hstep)
  exact Machine.run_invariant (P := fun s => s.closed = true)
    (fun s a s' o hclosed hstep => (closed_step hclosed hstep).1) rfl hrest

/-! ### The life of a key -/

theorem contains_of_updated {s : OpenCDMSession} {message : Bytes} {keyLength : UInt16}
    (h : (opencdmSessionUpdate (some s) (some message) keyLength).error = .errorNone) :
    ∃ s', (opencdmSessionUpdate (some s) (some message) keyLength).session = some s' ∧
      ∀ kid ∈ responseKids (message.take keyLength.toNat), s'.keys.contains kid = true := by
  obtain ⟨entries, hentries, hall, heq⟩ := opencdmSessionUpdate_of_errorNone h
  refine ⟨_, congrArg Reply.session heq, ?_⟩
  intro kid hkid
  refine contains_override.2 (Or.inl ?_)
  rwa [map_fst_decodedEntries hentries hall]

theorem step_of_errorNone {s : OpenCDMSession} {message : Bytes} {keyLength : UInt16}
    (h : (opencdmSessionUpdate (some s) (some message) keyLength).error = .errorNone) :
    ∃ calls s', lifecycle.step s (.call (.update (some message) keyLength)) =
      some (s', [.replied (.update (some message) keyLength) .errorNone calls]) := by
  obtain ⟨entries, -, -, heq⟩ := opencdmSessionUpdate_of_errorNone h
  refine ⟨updateCalls s (responseKids (message.take keyLength.toNat)),
    { s with keys := override s.keys (decodedEntries entries) }, ?_⟩
  simp only [lifecycle, SessionCall.reply, heq, Option.map_some]

/-- **Behind a successful update**, up to the next removal, every key id of its response is
reported usable. -/
theorem usable_of_updated {s s₁ s₂ : OpenCDMSession} {message : Bytes} {keyLength : UInt16}
    {calls : List CallbackCall} {later : List LifecycleCall} {o : List Observation}
    (hupdate : lifecycle.step s (.call (.update (some message) keyLength)) =
      some (s₁, [.replied (.update (some message) keyLength) .errorNone calls]))
    (hlater : ∀ a ∈ later, a ≠ .call .remove) (hrun : lifecycle.run s₁ later = some (s₂, o)) :
    ∀ kid ∈ responseKids (message.take keyLength.toNat), 1 ≤ kid.length → kid.length ≤ 255 →
      Usable s₂ kid := by
  intro kid hkid hpos hle
  rw [usable_iff hpos hle]
  obtain ⟨t, ht, heq⟩ := Option.map_eq_some_iff.1 hupdate
  obtain ⟨rfl, hreply⟩ := Prod.mk.inj heq
  obtain ⟨-, herror, -⟩ := Observation.replied.inj (List.cons.inj hreply).1
  obtain ⟨t', ht', hstored⟩ := contains_of_updated herror
  obtain rfl : t = t' := Option.some.inj (ht.symm.trans ht')
  exact Machine.run_invariant_of_forall (P := fun s => s.keys.contains kid = true)
    (Q := fun a => a ≠ .call .remove)
    (fun s a s' o hremove hk hstep => contains_step hremove hstep hk) hlater (hstored kid hkid)
    hrun

/-- **Immediately behind a removal** no key id is reported usable. -/
theorem not_usable_of_removed {s s' : OpenCDMSession} {o : List Observation}
    (hstep : lifecycle.step s (.call .remove) = some (s', o)) (keyId : Option Bytes)
    (length : UInt8) : opencdmSessionStatus (some s') keyId length ≠ .usable := by
  obtain ⟨rfl, -⟩ := Prod.mk.inj (Option.some.inj hstep)
  cases keyId with
  | none => simp [opencdmSessionStatus]
  | some keyId =>
      rw [Ne, opencdmSessionStatus_eq_usable_iff]
      simp

/-- **An update of a closed session** fails and does nothing. -/
theorem refused_of_closed {s s' : OpenCDMSession} {keyMessage : Option Bytes} {keyLength : UInt16}
    {o : List Observation} (hclosed : s.closed = true)
    (hstep : lifecycle.step s (.call (.update keyMessage keyLength)) = some (s', o)) :
    s' = s ∧ ∃ error, error ≠ .errorNone ∧ o = [.replied (.update keyMessage keyLength) error []] := by
  have hloop : ¬ ReachesLoop (some s) keyMessage keyLength := by
    rintro ⟨t, message, entries, hs, -, -, hopen, -⟩
    obtain rfl := Option.some.inj hs
    rw [hclosed] at hopen
    exact absurd hopen (by simp)
  obtain ⟨herror, hsession, hcalls⟩ := opencdmSessionUpdate_of_refused hloop
  simp only [lifecycle, SessionCall.reply, hsession, hcalls, Option.map_some, Option.some.injEq,
    Prod.mk.injEq] at hstep
  obtain ⟨rfl, rfl⟩ := hstep
  exact ⟨rfl, _, herror, rfl⟩

/-- A key id that is reported usable at the end of a run of a closed session was so at its start. -/
theorem usable_of_closed {s s' : OpenCDMSession} {calls : List LifecycleCall}
    {o : List Observation} (hclosed : s.closed = true)
    (hrun : lifecycle.run s calls = some (s', o)) (keyId : Option Bytes) (length : UInt8)
    (husable : opencdmSessionStatus (some s') keyId length = .usable) :
    opencdmSessionStatus (some s) keyId length = .usable := by
  have hkeys : s'.closed = true ∧ ∀ k, s'.keys.contains k = true → s.keys.contains k = true := by
    refine Machine.run_invariant
      (P := fun t => t.closed = true ∧ ∀ k, t.keys.contains k = true → s.keys.contains k = true)
      (fun t a t' o ⟨hclosed, hkeys⟩ hstep => ?_) ⟨hclosed, fun _ hk => hk⟩ hrun
    obtain ⟨hclosed', hkeys'⟩ := closed_step hclosed hstep
    exact ⟨hclosed', fun k hk => hkeys k (hkeys' k hk)⟩
  cases keyId with
  | none => exact absurd husable (by simp [opencdmSessionStatus])
  | some keyId =>
      rw [opencdmSessionStatus_eq_usable_iff] at husable ⊢
      exact ⟨husable.1, hkeys.2 _ husable.2⟩

/-- **The life of a key**, in every run of a session: usable from a successful update to the next
removal, not usable immediately behind a removal, and never new behind the first close. -/
theorem key_lifecycle {s₀ s : OpenCDMSession} {before : List LifecycleCall} {h : List Observation}
    (hrun : lifecycle.run s₀ before = some (s, h)) :
    (∀ message keyLength calls s₁ later s₂ o,
      lifecycle.step s (.call (.update (some message) keyLength)) =
        some (s₁, [.replied (.update (some message) keyLength) .errorNone calls]) →
      (∀ a ∈ later, a ≠ .call .remove) → lifecycle.run s₁ later = some (s₂, o) →
        ∀ kid ∈ responseKids (message.take keyLength.toNat), 1 ≤ kid.length →
          kid.length ≤ 255 → Usable s₂ kid) ∧
      (∀ s₁ o, lifecycle.step s (.call .remove) = some (s₁, o) →
        ∀ keyId length, opencdmSessionStatus (some s₁) keyId length ≠ .usable) ∧
      (.call .close ∈ before →
        (∀ keyMessage keyLength s₁ o,
          lifecycle.step s (.call (.update keyMessage keyLength)) = some (s₁, o) →
            s₁ = s ∧ ∃ error, error ≠ .errorNone ∧
              o = [.replied (.update keyMessage keyLength) error []]) ∧
        ∀ later s₁ o, lifecycle.run s later = some (s₁, o) → ∀ keyId length,
          opencdmSessionStatus (some s₁) keyId length = .usable →
            opencdmSessionStatus (some s) keyId length = .usable) := by
  refine ⟨?_, ?_, ?_⟩
  · intro message keyLength calls s₁ later s₂ o hupdate hlater hrest
    exact usable_of_updated hupdate hlater hrest
  · intro s₁ o hremove
    exact not_usable_of_removed hremove
  · intro hclose
    have hclosed := closed_of_run hclose hrun
    refine ⟨?_, ?_⟩
    · intro keyMessage keyLength s₁ o hupdate
      exact refused_of_closed hclosed hupdate
    · intro later s₁ o hlater
      exact usable_of_closed hclosed hlater

/-- A key id is usable behind the update that brings it, also when the session has been closed and
an update with nothing in it has been refused. -/
theorem usable_sampleSession : ∃ calls s₁ s₂ o,
    lifecycle.step sampleSession
      (.call (.update (some (oneEntryResponse (ascii "AQ"))) 32)) =
        some (s₁, [.replied (.update (some (oneEntryResponse (ascii "AQ"))) 32) .errorNone calls]) ∧
      lifecycle.run s₁ [.call .close, .call (.update none 0)] = some (s₂, o) ∧ Usable s₂ [1] := by
  have herror : (opencdmSessionUpdate (some sampleSession) (some (oneEntryResponse (ascii "AQ")))
      32).error = .errorNone := by decide +kernel
  have hkids : [1] ∈ responseKids ((oneEntryResponse (ascii "AQ")).take (32 : UInt16).toNat) := by
    decide +kernel
  obtain ⟨calls, s₁, hstep⟩ := step_of_errorNone herror
  refine ⟨calls, s₁, _, _, hstep, rfl, ?_⟩
  exact (@key_lifecycle sampleSession sampleSession [] [] rfl).1 _ _ _ _
    [.call .close, .call (.update none 0)] _ _ hstep (by simp) rfl [1] hkids (by simp) (by simp)

end ClearKey
