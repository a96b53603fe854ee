/-
**The backend with all its sessions.**

The C interface of the backend as one machine: systems and sessions are created at addresses that
the allocator gives, called and queried in any order, and destroyed.  A pointer argument is null or
the address of something that is there; what a call through any other pointer does is not defined,
and there is no step for it.

Main definitions:

* `ClearKey.Backend`, `ClearKey.BackendCall`, `ClearKey.backend` — the state, the calls and the
  machine;
* `ClearKey.callsOn`, `ClearKey.seenOn` — what of a run is addressed to one session;
* `ClearKey.numbered` — the machine with the sessions numbered as they are constructed.

Main results:

* `ClearKey.backend_projects` — every session is a part of the backend;
* `ClearKey.isolated` — **sessions do not interfere with each other**;
* `ClearKey.sessionId_eq_iff` — **when two sessions have the same id**;
* `ClearKey.unsupported` — **a client of other key systems gets nothing**.
-/
import Mathlib
import RialtoConformance.Lib.Projection
import RialtoConformance.ClearKey.Lifecycle

set_option relaxedAutoImplicit false
set_option autoImplicit false

namespace ClearKey

open Override Runs

/-! ### Systems -/

/-- `kClearKeySystem`. -/
def clearKeySystem : String := "org.w3.clearkey"

/-- `kClearKeyVersion`. -/
def clearKeyVersion : Bytes := ascii "ClearKey-1.0"

/-- `isClearKeySystem`. -/
def isClearKeySystem (keySystem : Option String) : Bool := keySystem = some clearKeySystem

/-- `opencdm_create_system`.  `allocated` is whether `new (std::nothrow)` succeeds. -/
def opencdmCreateSystem (keySystem : Option String) (allocated : Bool) : Option OpenCDMSystem :=
  match keySystem with
  | none => none
  | some text => if isClearKeySystem (some text) && allocated then some ⟨text⟩ else none

/-- `opencdm_is_type_supported`. -/
def opencdmIsTypeSupported (keySystem : Option String) : OpenCDMError :=
  if isClearKeySystem keySystem then .errorNone else .errorKeySystemNotSupported

/-- `std::strncpy` of a text without a NUL: at most `count` of its bytes, and NULs up to `count`. -/
def strncpy (dest src : Bytes) (count : ℕ) : Bytes :=
  src.take count ++ List.replicate (count - src.length) 0 ++ dest.drop count

/-- `opencdm_system_get_version`.  The buffer of the caller has at least 64 bytes. -/
def opencdmSystemGetVersion (system : Option OpenCDMSystem) (versionStr : Option Bytes) :
    OpenCDMError × Option Bytes :=
  match system, versionStr with
  | some _, some buffer => (.errorNone, some ((strncpy buffer clearKeyVersion 63).set 63 0))
  | _, _ => (.errorInvalidArg, versionStr)

/-- `opencdm_system_get_drm_time`, which writes what it is given to write to. -/
def opencdmSystemGetDrmTime (_system : Option OpenCDMSystem) (time : Option UInt64) :
    OpenCDMError × Option UInt64 :=
  (.errorNone, time.map fun _ => 0)

/-- `opencdm_system_supports_server_certificate`. -/
def opencdmSystemSupportsServerCertificate (_system : Option OpenCDMSystem) : Bool := false

/-- `opencdm_system_supported_robustness`: the levels are null, and none. -/
def opencdmSystemSupportedRobustness (_system : Option OpenCDMSystem)
    (robustness : Option (Option (List String))) (count : Option UInt16) :
    OpenCDMError × Option (Option (List String)) × Option UInt16 :=
  (.errorNone, robustness.map fun _ => none, count.map fun _ => 0)

/-- `opencdm_get_metric_system_data`, which leaves the buffer alone. -/
def opencdmGetMetricSystemData (_system : Option OpenCDMSystem) (bufferLength : Option UInt32)
    (buffer : Option Bytes) : OpenCDMError × Option UInt32 × Option Bytes :=
  (.errorNone, bufferLength.map fun _ => 0, buffer)

/-- A query of a system, with what its pointers point to. -/
inductive SystemCall
  | getVersion (versionStr : Option Bytes)
  | getDrmTime (time : Option UInt64)
  | supportsServerCertificate
  | supportedRobustness (robustness : Option (Option (List String))) (count : Option UInt16)
  | getMetricSystemData (bufferLength : Option UInt32) (buffer : Option Bytes)

/-- What is seen of it. -/
inductive SystemReply
  | version (error : OpenCDMError) (versionStr : Option Bytes)
  | drmTime (error : OpenCDMError) (time : Option UInt64)
  | serverCertificate (supported : Bool)
  | robustness (error : OpenCDMError) (levels : Option (Option (List String)))
      (count : Option UInt16)
  | metrics (error : OpenCDMError) (bufferLength : Option UInt32) (buffer : Option Bytes)

def SystemCall.reply (system : Option OpenCDMSystem) : SystemCall → SystemReply
  | .getVersion versionStr =>
      let reply := opencdmSystemGetVersion system versionStr
      .version reply.1 reply.2
  | .getDrmTime time =>
      let reply := opencdmSystemGetDrmTime system time
      .drmTime reply.1 reply.2
  | .supportsServerCertificate =>
      .serverCertificate (opencdmSystemSupportsServerCertificate system)
  | .supportedRobustness robustness count =>
      let reply := opencdmSystemSupportedRobustness system robustness count
      .robustness reply.1 reply.2.1 reply.2.2
  | .getMetricSystemData bufferLength buffer =>
      let reply := opencdmGetMetricSystemData system bufferLength buffer
      .metrics reply.1 reply.2.1 reply.2.2

/-- A system is created for the key systems that are supported, and for no other. -/
theorem opencdmCreateSystem_eq_some {keySystem : Option String} {allocated : Bool}
    {system : OpenCDMSystem} (h : opencdmCreateSystem keySystem allocated = some system) :
    opencdmIsTypeSupported keySystem = .errorNone ∧ allocated = true ∧
      keySystem = some system.keySystem := by
  cases keySystem with
  | none => simp [opencdmCreateSystem] at h
  | some text =>
      simp only [opencdmCreateSystem, Option.ite_none_right_eq_some, Bool.and_eq_true,
        Option.some.injEq] at h
      obtain ⟨⟨hsystem, hallocated⟩, rfl⟩ := h
      exact ⟨if_pos hsystem, hallocated, rfl⟩

/-! ### The machine -/

abbrev Heap (α : Type) := ℕ → Option α

/-- A pointer followed: null, or what is at the address; nothing for any other pointer. -/
def deref {α : Type} (heap : Heap α) : Option ℕ → Option (Option α)
  | none => some none
  | some address => (heap address).map some

/-- The allocator gives an address at which nothing is, or null. -/
def Fresh {α : Type} (heap : Heap α) (allocated : Option ℕ) : Prop :=
  ∀ address ∈ allocated, heap address = none

instance {α : Type} (heap : Heap α) (allocated : Option ℕ) : Decidable (Fresh heap allocated) :=
  match allocated with
  | none => isTrue (by simp [Fresh])
  | some address => decidable_of_iff ((heap address).isNone = true) (by simp [Fresh])

/-- **The state of the backend.** -/
structure Backend where
  /-- `sessionCounter`. -/
  sessionCounter : UInt32
  systems : Heap OpenCDMSystem
  sessions : Heap OpenCDMSession

def Backend.init : Backend := ⟨0, fun _ => none, fun _ => none⟩

/-- The calls of the interface.  `allocated` is what the allocator gives. -/
inductive BackendCall
  | createSystem (keySystem : Option String) (allocated : Option ℕ)
  | destructSystem (system : Option ℕ)
  | isTypeSupported (keySystem : Option String)
  | onSystem (system : Option ℕ) (call : SystemCall)
  | constructSession (system : Option ℕ) (initDataType : Option String) (initData : Bytes)
      (initDataLength : UInt16) (callbacks : Option OpenCDMSessionCallbacks) (userData : ℕ)
      (sessionOut : Bool) (allocated : Option ℕ)
  | destructSession (session : Option ℕ)
  | onSession (session : Option ℕ) (call : LifecycleCall)

/-- What the caller sees of a call. -/
inductive BackendObservation
  | createdSystem (keySystem : Option String) (system : Option ℕ)
  | typeSupported (keySystem : Option String) (error : OpenCDMError)
  | onSystem (system : Option ℕ) (reply : SystemReply)
  | constructed (session : Option ℕ) (error : OpenCDMError) (calls : List CallbackCall)
  | destructed (error : OpenCDMError)
  | onSession (session : Option ℕ) (observation : Observation)

/-- What a call on a session, null or not, leaves of it and lets be seen. -/
def LifecycleCall.reply (session : Option OpenCDMSession) :
    LifecycleCall → Option OpenCDMSession × Observation
  | .call request =>
      let reply := request.reply session
      (reply.session, .replied request reply.error reply.calls)
  | .status keyId length =>
      (session, .status keyId length (opencdmSessionStatus session keyId length))
  | .hasKeyId length keyId =>
      (session, .hasKeyId length keyId (opencdmSessionHasKeyId session length keyId))
  | .sessionId => (session, .sessionId (opencdmSessionId session))
  | .setDrmHeader drmHeader drmHeaderSize =>
      (session, .drmHeaderSet (opencdmSessionSetDrmHeader session drmHeader drmHeaderSize))
  | .systemError => (session, .systemError (opencdmSessionSystemError session))

/-- Free what a pointer points to; a null pointer is left alone. -/
def release {α : Type} (heap : Heap α) : Option ℕ → Heap α
  | none => heap
  | some address => Function.update heap address none

/-- **The backend as a machine.** -/
def backend : Machine Backend BackendCall BackendObservation where
  step b
    | .createSystem keySystem allocated =>
        if Fresh b.systems allocated then
          match allocated, opencdmCreateSystem keySystem allocated.isSome with
          | some address, some system =>
              some ({ b with systems := Function.update b.systems address (some system) },
                [.createdSystem keySystem (some address)])
          | _, _ => some (b, [.createdSystem keySystem none])
        else none
    | .destructSystem system =>
        (deref b.systems system).map fun _ =>
          ({ b with systems := release b.systems system }, [.destructed .errorNone])
    | .isTypeSupported keySystem =>
        some (b, [.typeSupported keySystem (opencdmIsTypeSupported keySystem)])
    | .onSystem system call =>
        (deref b.systems system).map fun target => (b, [.onSystem system (call.reply target)])
    | .constructSession system initDataType initData initDataLength callbacks userData sessionOut
        allocated =>
        if Fresh b.sessions allocated then
          (deref b.systems system).map fun target =>
            let made := opencdmConstructSession b.sessionCounter target initDataType initData
              initDataLength callbacks userData sessionOut allocated.isSome
            match allocated, made.session with
            | some address, some session =>
                ({ b with
                  sessionCounter := made.sessionCounter
                  sessions := Function.update b.sessions address (some session) },
                  [.constructed (some address) made.error made.calls])
            | _, _ =>
                ({ b with sessionCounter := made.sessionCounter },
                  [.constructed none made.error made.calls])
        else none
    | .destructSession session =>
        (deref b.sessions session).map fun _ =>
          ({ b with sessions := release b.sessions session }, [.destructed .errorNone])
    | .onSession session call =>
        (deref b.sessions session).map fun target =>
          let reply := call.reply target
          ({ b with
            sessions := match session with
              | none => b.sessions
              | some address => Function.update b.sessions address reply.1 },
            [.onSession session reply.2])

/-! ### One session -/

/-- What a call is to the session at `p`. -/
def BackendCall.on (p : ℕ) : BackendCall → Option LifecycleCall
  | .onSession (some address) call => if address = p then some call else none
  | _ => none

/-- What an observation is to the session at `p`. -/
def BackendObservation.on (p : ℕ) : BackendObservation → Option Observation
  | .onSession (some address) observation => if address = p then some observation else none
  | _ => none

/-- The calls on the session at `p`. -/
def callsOn (p : ℕ) (as : List BackendCall) : List LifecycleCall := as.filterMap (BackendCall.on p)

/-- What is seen of them. -/
def seenOn (p : ℕ) (o : List BackendObservation) : List Observation :=
  o.filterMap (BackendObservation.on p)

theorem lifecycle_step (s : OpenCDMSession) (call : LifecycleCall) :
    lifecycle.step s call =
      (call.reply (some s)).1.map fun s' => (s', [(call.reply (some s)).2]) := by
  cases call <;> rfl

theorem reply_isSome (s : OpenCDMSession) (call : LifecycleCall) :
    ∃ s', (call.reply (some s)).1 = some s' := by
  cases call with
  | call call =>
      cases call with
      | update keyMessage keyLength =>
          obtain ⟨s', hs', -⟩ := update_keys s keyMessage keyLength
          exact ⟨s', hs'⟩
      | _ => exact ⟨_, rfl⟩
  | _ => exact ⟨s, rfl⟩

/-! ### What the calls do -/

def newSession (counter : UInt32) (callbacks : Option OpenCDMSessionCallbacks) (userData : ℕ)
    (kids : List Bytes) : OpenCDMSession where
  sessionId := "clearkey-session-" ++ toString counter.toNat
  callbacks := callbacks
  userData := userData
  requestedKeyIds := kids
  keys := ∅
  closed := false

def challengeCalls (callbacks : Option OpenCDMSessionCallbacks) (userData : ℕ)
    (kids : List Bytes) : List CallbackCall :=
  if callbacks.any (·.processChallengeCallback) then
    [.processChallenge userData [] (licenceRequest kids)
      (UInt16.ofNat (licenceRequest kids).length)]
  else []

theorem construct_of_error {counter : UInt32} {system : Option OpenCDMSystem}
    {initDataType : Option String} {initData : Bytes} {initDataLength : UInt16}
    {callbacks : Option OpenCDMSessionCallbacks} {userData : ℕ} {sessionOut allocated : Bool}
    (h : (opencdmConstructSession counter system initDataType initData initDataLength callbacks
      userData sessionOut allocated).error ≠ .errorNone) :
    ∃ error, error ≠ .errorNone ∧ (system = none → error = .errorInvalidArg) ∧
      opencdmConstructSession counter system initDataType initData initDataLength callbacks userData
        sessionOut allocated = ⟨error, counter, none, []⟩ := by
  simp only [opencdmConstructSession] at h ⊢
  by_cases hargs : (system.isNone || !sessionOut) = true
  · exact ⟨.errorInvalidArg, by decide, fun _ => rfl, if_pos hargs⟩
  have hsystem : system ≠ none := by
    rintro rfl
    exact hargs rfl
  rw [if_neg hargs] at h ⊢
  by_cases htype : initDataType ≠ some "keyids"
  · exact ⟨.errorFail, by decide, fun hnull => absurd hnull hsystem, if_pos htype⟩
  rw [if_neg htype] at h ⊢
  split_ifs at h ⊢ with hkids halloc
  · exact ⟨.errorFail, by decide, fun hnull => absurd hnull hsystem, rfl⟩
  · exact ⟨.errorOutOfMemory, by decide, fun hnull => absurd hnull hsystem, rfl⟩
  · exact absurd rfl h
  · exact absurd rfl h

/-- **What a call does.** -/
inductive Invoked : Backend → BackendCall → Backend → List BackendObservation → Prop
  | created (b : Backend) {keySystem : Option String} {address : ℕ} {system : OpenCDMSystem}
      (hsystem : opencdmCreateSystem keySystem true = some system) :
      Invoked b (.createSystem keySystem (some address))
        { b with systems := Function.update b.systems address (some system) }
        [.createdSystem keySystem (some address)]
  | notCreated (b : Backend) (keySystem : Option String) (allocated : Option ℕ) :
      Invoked b (.createSystem keySystem allocated) b [.createdSystem keySystem none]
  | destructedSystem (b : Backend) (system : Option ℕ) :
      Invoked b (.destructSystem system) { b with systems := release b.systems system }
        [.destructed .errorNone]
  | typeSupported (b : Backend) (keySystem : Option String) :
      Invoked b (.isTypeSupported keySystem) b
        [.typeSupported keySystem (opencdmIsTypeSupported keySystem)]
  | onSystem (b : Backend) {system : Option ℕ} {target : Option OpenCDMSystem}
      (call : SystemCall) (htarget : deref b.systems system = some target) :
      Invoked b (.onSystem system call) b [.onSystem system (call.reply target)]
  | constructed (b : Backend) {system : ℕ} {target : OpenCDMSystem} {initData : Bytes}
      {initDataLength : UInt16} {callbacks : Option OpenCDMSessionCallbacks} {userData : ℕ}
      {address : ℕ} (hsystem : b.systems system = some target)
      (hkids : initKids initData initDataLength ≠ []) (hfresh : b.sessions address = none) :
      Invoked b
        (.constructSession (some system) (some "keyids") initData initDataLength callbacks userData
          true (some address))
        { b with
          sessionCounter := b.sessionCounter + 1
          sessions := Function.update b.sessions address
            (some (newSession (b.sessionCounter + 1) callbacks userData
              (initKids initData initDataLength))) }
        [.constructed (some address) .errorNone
          (challengeCalls callbacks userData (initKids initData initDataLength))]
  | notConstructed (b : Backend) (system : Option ℕ) (initDataType : Option String)
      (initData : Bytes) (initDataLength : UInt16) (callbacks : Option OpenCDMSessionCallbacks)
      (userData : ℕ) (sessionOut : Bool) (allocated : Option ℕ) {error : OpenCDMError}
      (hthere : (deref b.systems system).isSome = true) (herror : error ≠ .errorNone)
      (hnull : system = none → error = .errorInvalidArg) :
      Invoked b
        (.constructSession system initDataType initData initDataLength callbacks userData
          sessionOut allocated) b [.constructed none error []]
  | destructedSession (b : Backend) (session : Option ℕ) :
      Invoked b (.destructSession session) { b with sessions := release b.sessions session }
        [.destructed .errorNone]
  | onNull (b : Backend) (call : LifecycleCall) :
      Invoked b (.onSession none call) b [.onSession none (call.reply none).2]
  | onSession (b : Backend) {address : ℕ} {s s' : OpenCDMSession} {call : LifecycleCall}
      (hs : b.sessions address = some s) (hreply : (call.reply (some s)).1 = some s') :
      Invoked b (.onSession (some address) call)
        { b with sessions := Function.update b.sessions address (some s') }
        [.onSession (some address) (call.reply (some s)).2]

theorem invoked_construct {b b' : Backend} {system : Option ℕ} {initDataType : Option String}
    {initData : Bytes} {initDataLength : UInt16} {callbacks : Option OpenCDMSessionCallbacks}
    {userData : ℕ} {sessionOut : Bool} {allocated : Option ℕ} {o : List BackendObservation}
    (h : backend.step b (.constructSession system initDataType initData initDataLength callbacks
      userData sessionOut allocated) = some (b', o)) :
    Invoked b (.constructSession system initDataType initData initDataLength callbacks userData
      sessionOut allocated) b' o := by
  simp only [backend] at h
  split_ifs at h with hfresh
  obtain ⟨target, htarget, heq⟩ := Option.map_eq_some_iff.1 h
  by_cases herror : (opencdmConstructSession b.sessionCounter target initDataType initData
      initDataLength callbacks userData sessionOut allocated.isSome).error = .errorNone
  · obtain ⟨hsystem, rfl, rfl, halloc, hkids⟩ := of_opencdmConstructSession_errorNone herror
    obtain ⟨address, rfl⟩ := Option.isSome_iff_exists.1 halloc
    obtain ⟨clearKey, rfl⟩ := Option.isSome_iff_exists.1 hsystem
    rw [Option.isSome_some, opencdmConstructSession_of_kids hkids] at heq
    obtain ⟨rfl, rfl⟩ := Prod.mk.inj heq
    cases system with
    | none => exact absurd (Option.some.inj htarget) (by simp)
    | some system =>
        obtain ⟨there, hthere, hsome⟩ := Option.map_eq_some_iff.1 htarget
        obtain rfl := Option.some.inj hsome
        exact .constructed b hthere hkids (hfresh address rfl)
  · obtain ⟨error, hne, hinvalid, hmade⟩ := construct_of_error herror
    rw [hmade] at heq
    have hpair : (b, [BackendObservation.constructed none error []]) = (b', o) := by
      cases allocated <;> exact heq
    obtain ⟨rfl, rfl⟩ := Prod.mk.inj hpair
    refine .notConstructed _ _ _ _ _ _ _ _ _ (Option.isSome_iff_exists.2 ⟨_, htarget⟩) hne
      fun hnull => hinvalid ?_
    rw [hnull] at htarget
    exact (Option.some.inj htarget).symm

theorem invoked_of_step {b b' : Backend} {a : BackendCall} {o : List BackendObservation}
    (h : backend.step b a = some (b', o)) : Invoked b a b' o := by
  cases a with
  | createSystem keySystem allocated =>
      simp only [backend] at h
      split_ifs at h with hfresh
      split at h
      · rename_i address system hsystem
        obtain ⟨rfl, rfl⟩ := Prod.mk.inj (Option.some.inj h)
        exact .created b hsystem
      · obtain ⟨rfl, rfl⟩ := Prod.mk.inj (Option.some.inj h)
        exact .notCreated _ _ _
  | destructSystem system =>
      obtain ⟨target, -, heq⟩ := Option.map_eq_some_iff.1 h
      obtain ⟨rfl, rfl⟩ := Prod.mk.inj heq
      exact .destructedSystem b system
  | isTypeSupported keySystem =>
      obtain ⟨rfl, rfl⟩ := Prod.mk.inj (Option.some.inj h)
      exact .typeSupported _ keySystem
  | onSystem system call =>
      obtain ⟨target, htarget, heq⟩ := Option.map_eq_some_iff.1 h
      obtain ⟨rfl, rfl⟩ := Prod.mk.inj heq
      exact .onSystem _ call htarget
  | constructSession system initDataType initData initDataLength callbacks userData sessionOut
      allocated => exact invoked_construct h
  | destructSession session =>
      obtain ⟨target, -, heq⟩ := Option.map_eq_some_iff.1 h
      obtain ⟨rfl, rfl⟩ := Prod.mk.inj heq
      exact .destructedSession b session
  | onSession session call =>
      obtain ⟨target, htarget, heq⟩ := Option.map_eq_some_iff.1 h
      obtain ⟨rfl, rfl⟩ := Prod.mk.inj heq
      cases session with
      | none =>
          obtain rfl := Option.some.inj htarget
          exact .onNull b call
      | some address =>
          obtain ⟨s, hs, rfl⟩ := Option.map_eq_some_iff.1 htarget
          obtain ⟨s', hreply⟩ := reply_isSome s call
          simp only [hreply]
          exact .onSession b hs hreply

/-- **A construction that succeeds.** -/
theorem step_construct {b : Backend} {system address : ℕ} {target : OpenCDMSystem}
    {initData : Bytes} {initDataLength : UInt16} (callbacks : Option OpenCDMSessionCallbacks)
    (userData : ℕ) (hsystem : b.systems system = some target)
    (hfresh : b.sessions address = none) (hkids : initKids initData initDataLength ≠ []) :
    backend.step b (.constructSession (some system) (some "keyids") initData initDataLength
        callbacks userData true (some address)) =
      some ({ b with
          sessionCounter := b.sessionCounter + 1
          sessions := Function.update b.sessions address
            (some (newSession (b.sessionCounter + 1) callbacks userData
              (initKids initData initDataLength))) },
        [.constructed (some address) .errorNone
          (challengeCalls callbacks userData (initKids initData initDataLength))]) := by
  have hderef : deref b.systems (some system) = some (some target) := by
    rw [deref, hsystem]
    rfl
  have hmay : Fresh b.sessions (some address) := by
    intro p hp
    obtain rfl := Option.some.inj hp
    exact hfresh
  simp only [backend, if_pos hmay, hderef, Option.map_some, Option.isSome_some,
    opencdmConstructSession_of_kids hkids]
  rfl

theorem session_step {b b' : Backend} {a : BackendCall} {o : List BackendObservation}
    (hstep : backend.step b a = some (b', o)) {p : ℕ} {s : OpenCDMSession}
    (hs : b.sessions p = some s) :
    (∃ call s', a = .onSession (some p) call ∧ (call.reply (some s)).1 = some s' ∧
        b'.sessions p = some s' ∧ o = [.onSession (some p) (call.reply (some s)).2]) ∨
      a.on p = none ∧ seenOn p o = [] ∧
        (a ≠ .destructSession (some p) → b'.sessions p = some s) := by
  cases invoked_of_step hstep with
  | @onSession address t t' call ht hreply =>
      by_cases haddress : address = p
      · subst haddress
        obtain rfl := Option.some.inj (ht.symm.trans hs)
        exact Or.inl ⟨call, t', rfl, hreply, Function.update_self _ _ _, rfl⟩
      · refine Or.inr ⟨if_neg haddress, ?_, fun _ => ?_⟩
        · exact List.filterMap_cons_none (f := BackendObservation.on p) (if_neg haddress)
        · exact (Function.update_of_ne (Ne.symm haddress) _ _).trans hs
  | constructed hsystem hkids hfresh =>
      rename_i address
      have hne : p ≠ address := by
        rintro rfl
        rw [hs] at hfresh
        exact absurd hfresh (by simp)
      exact Or.inr ⟨rfl, rfl, fun _ => (Function.update_of_ne hne _ _).trans hs⟩
  | destructedSession session =>
      refine Or.inr ⟨rfl, rfl, fun hspare => ?_⟩
      cases session with
      | none => exact hs
      | some address =>
          have hne : p ≠ address := by
            rintro rfl
            exact hspare rfl
          exact (Function.update_of_ne hne _ _).trans hs
  | _ => exact Or.inr ⟨rfl, rfl, fun _ => hs⟩

/-- **Every session is a part of the backend.** -/
theorem backend_projects (p : ℕ) : backend.Projects lifecycle (fun b => b.sessions p)
    (BackendCall.on p) (BackendObservation.on p) fun a => a ≠ .destructSession (some p) := by
  refine ⟨?_, ?_⟩
  · intro b b' a o s call hstep hs hown
    rcases session_step hstep hs with ⟨call', s', rfl, hreply, hs', rfl⟩ | ⟨hnone, -, -⟩
    · obtain rfl : call' = call := by
        rw [BackendCall.on, if_pos rfl] at hown
        exact Option.some.inj hown
      refine ⟨s', ?_, hs'⟩
      have hseen : [BackendObservation.onSession (some p) (call'.reply (some s)).2].filterMap
          (BackendObservation.on p) = [(call'.reply (some s)).2] :=
        List.filterMap_cons_some (if_pos rfl)
      rw [lifecycle_step, hreply, hseen]
      rfl
    · rw [hnone] at hown
      exact absurd hown (by simp)
  · intro b b' a o s hstep hs hown hspare
    rcases session_step hstep hs with ⟨call, s', rfl, -⟩ | ⟨-, hseen, hkept⟩
    · rw [BackendCall.on, if_pos rfl] at hown
      exact absurd hown (by simp)
    · exact ⟨hkept hspare, hseen⟩

/-! ### What belongs to a session -/

/-- The callbacks fired by a call on a session. -/
def Observation.fired : Observation → List CallbackCall
  | .replied _ _ calls => calls
  | _ => []

/-- What a callback is given for user data. -/
def CallbackCall.userData : CallbackCall → ℕ
  | .processChallenge userData _ _ _ => userData
  | .keyUpdate userData _ _ => userData
  | .keysUpdated userData => userData

theorem userData_updateCalls {s : OpenCDMSession} {updatedKids : List Bytes} :
    ∀ call ∈ updateCalls s updatedKids, call.userData = s.userData := by
  intro call hcall
  unfold updateCalls at hcall
  split at hcall
  · simp at hcall
  · rename_i callbacks _
    rcases List.mem_append.1 hcall with hcall | hcall
    · split_ifs at hcall
      · obtain ⟨kid, -, rfl⟩ := List.mem_map.1 hcall
        rfl
      · simp at hcall
    · split_ifs at hcall
      · rw [List.mem_singleton.1 hcall]
        rfl
      · simp at hcall

theorem update_frame (s : OpenCDMSession) (keyMessage : Option Bytes) (keyLength : UInt16) :
    ∃ keys, (opencdmSessionUpdate (some s) keyMessage keyLength).session =
        some { s with keys := keys } ∧
      ∀ call ∈ (opencdmSessionUpdate (some s) keyMessage keyLength).calls,
        call.userData = s.userData := by
  by_cases hloop : ReachesLoop (some s) keyMessage keyLength
  · obtain ⟨s', message, entries, hs, rfl, hlen, hopen, hentries⟩ := hloop
    obtain rfl := Option.some.inj hs
    rw [opencdmSessionUpdate_of_entries hlen hopen hentries]
    refine ⟨_, rfl, ?_⟩
    intro call hcall
    simp only at hcall
    split_ifs at hcall
    · exact userData_updateCalls call hcall
    · simp at hcall
  · obtain ⟨-, hsession, hcalls⟩ := opencdmSessionUpdate_of_refused hloop
    rw [hsession, hcalls]
    exact ⟨s.keys, rfl, by simp⟩

/-- The id and the user data of a session, what it gives for its id, and the callbacks fired by
it. -/
structure Belongs (s s' : OpenCDMSession) (o : List Observation) : Prop where
  sessionId : s'.sessionId = s.sessionId
  named : ∀ id, .sessionId id ∈ o → id = some s.sessionId
  userData : s'.userData = s.userData
  fired : ∀ call ∈ o.flatMap Observation.fired, call.userData = s.userData

/-- **What a call on a session has to do with it.** -/
theorem belongs_step {s s' : OpenCDMSession} {a : LifecycleCall} {o : List Observation}
    (hstep : lifecycle.step s a = some (s', o)) : Belongs s s' o := by
  cases a with
  | call call =>
      cases call with
      | update keyMessage keyLength =>
          obtain ⟨keys, hsession, hcalls⟩ := update_frame s keyMessage keyLength
          simp only [lifecycle, SessionCall.reply, hsession, Option.map_some, Option.some.injEq,
            Prod.mk.injEq] at hstep
          obtain ⟨rfl, rfl⟩ := hstep
          exact ⟨rfl, by simp, rfl, by simpa [Observation.fired] using hcalls⟩
      | _ =>
          obtain ⟨rfl, rfl⟩ := Prod.mk.inj (Option.some.inj hstep)
          exact ⟨rfl, by simp, rfl, by simp [Observation.fired, SessionCall.reply,
            opencdmSessionLoad, opencdmSessionRemove, opencdmSessionClose]⟩
  | _ =>
      obtain ⟨rfl, rfl⟩ := Prod.mk.inj (Option.some.inj hstep)
      exact ⟨rfl, by simp [opencdmSessionId], rfl, by simp [Observation.fired]⟩

theorem belongs_run {s s' : OpenCDMSession} {calls : List LifecycleCall} {o : List Observation}
    (hrun : lifecycle.run s calls = some (s', o)) : Belongs s s' o := by
  have hbelongs : ∀ t o₁ a t' o₂, Belongs s t o₁ → lifecycle.step t a = some (t', o₂) →
      Belongs s t' (o₁ ++ o₂) := by
    intro t o₁ a t' o₂ hbelongs hstep
    have hnext := belongs_step hstep
    refine ⟨hnext.sessionId.trans hbelongs.sessionId, ?_,
      hnext.userData.trans hbelongs.userData, ?_⟩
    · intro id hid
      rcases List.mem_append.1 hid with hid | hid
      · exact hbelongs.named id hid
      · rw [hnext.named id hid, hbelongs.sessionId]
    · intro call hcall
      rw [List.flatMap_append, List.mem_append] at hcall
      rcases hcall with hcall | hcall
      · exact hbelongs.fired call hcall
      · exact (hnext.fired call hcall).trans hbelongs.userData
  have := Machine.run_induction (o := []) hbelongs ⟨rfl, by simp, rfl, by simp⟩ hrun
  rwa [List.nil_append] at this

/-- **Sessions do not interfere with each other.**  In any run in which a session is not destroyed,
the calls on it do and show what they would do and show with no other session around, it gives the
id that it had for its id, and every callback they fire is given the user data of this session. -/
theorem isolated {b b' : Backend} {as : List BackendCall} {o : List BackendObservation} {p : ℕ}
    {s : OpenCDMSession} (hrun : backend.run b as = some (b', o)) (hs : b.sessions p = some s)
    (hspare : ∀ a ∈ as, a ≠ .destructSession (some p)) :
    ∃ s', lifecycle.run s (callsOn p as) = some (s', seenOn p o) ∧ b'.sessions p = some s' ∧
      Belongs s s' (seenOn p o) := by
  obtain ⟨s', hlife, hs'⟩ := (backend_projects p).run hspare hrun hs
  exact ⟨s', hlife, hs', belongs_run hlife⟩

def twoSessions : Backend where
  sessionCounter := 2
  systems := fun _ => none
  sessions := Function.update (Function.update (fun _ => none) 1
    (some (newSession 1 (some ⟨true, true, true⟩) 7 [[1]]))) 2
    (some (newSession 2 (some ⟨true, true, true⟩) 8 [[1]]))

/-- The second session gets a key and is destroyed; the first is queried before and behind. -/
def interleavedCalls : List BackendCall :=
  [.onSession (some 1) (.call .load), .onSystem none .supportsServerCertificate,
    .onSession (some 2) (.call (.update (some (oneEntryResponse (ascii "AQ"))) 32)),
    .onSession (some 1) (.status (some [1]) 1), .onSession (some 2) .sessionId,
    .destructSession (some 2), .onSession (some 1) .sessionId, .onSession (some 1) (.call .close)]

/-- The key of the second session is none of the first. -/
theorem isolated_twoSessions : ∃ b' o s', backend.run twoSessions interleavedCalls = some (b', o) ∧
    lifecycle.run (newSession 1 (some ⟨true, true, true⟩) 7 [[1]]) (callsOn 1 interleavedCalls) =
      some (s', seenOn 1 o) ∧ b'.sessions 1 = some s' ∧
      Belongs (newSession 1 (some ⟨true, true, true⟩) 7 [[1]]) s' (seenOn 1 o) := by
  have hrun : backend.run twoSessions interleavedCalls = some (_, _) := rfl
  have hspare : ∀ a ∈ interleavedCalls, a ≠ .destructSession (some 1) := by
    simp [interleavedCalls]
  obtain ⟨s', hlife, hs', hbelongs⟩ := isolated hrun rfl hspare
  exact ⟨_, _, s', hrun, hlife, hs', hbelongs⟩

/-! ### The ids of the sessions -/

/-- How many sessions have been constructed, and the number of the one at an address. -/
structure Numbering where
  count : ℕ
  number : ℕ → ℕ

/-- A session constructed gets the next number. -/
def Numbering.note (r : Numbering) : BackendObservation → Numbering
  | .constructed (some address) _ _ => ⟨r.count + 1, Function.update r.number address r.count⟩
  | _ => r

/-- **The sessions of a history, numbered as they are constructed.** -/
def numbering (h : List BackendObservation) : Numbering := h.foldl Numbering.note ⟨0, fun _ => 0⟩

def numberedId (number : ℕ) : String := "clearkey-session-" ++ toString ((number + 1) % 2 ^ 32)

/-- Two numbers give the same id exactly when they differ by a multiple of `2 ^ 32`. -/
theorem numberedId_inj {m n : ℕ} : numberedId m = numberedId n ↔ m ≡ n [MOD 2 ^ 32] := by
  refine (String.append_right_inj "clearkey-session-").trans ?_
  constructor
  · intro h
    exact Nat.ModEq.add_right_cancel' 1 (Nat.repr_inj.1 h)
  · intro h
    exact congrArg toString (h.add_right 1)

/-- **What the numbers say of the sessions that are there.** -/
structure Numbered (b : Backend) (r : Numbering) : Prop where
  counter : b.sessionCounter.toNat = r.count % 2 ^ 32
  sessionId : ∀ p s, b.sessions p = some s → s.sessionId = numberedId (r.number p)
  lt_count : ∀ p s, b.sessions p = some s → r.number p < r.count
  injective : ∀ p q s t, b.sessions p = some s → b.sessions q = some t →
    r.number p = r.number q → p = q

theorem Numbered.of_sessions {b b' : Backend} {r : Numbering} (h : Numbered b r)
    (hcounter : b'.sessionCounter = b.sessionCounter) (hsessions : ∀ p s', b'.sessions p = some s' →
      ∃ s, b.sessions p = some s ∧ s'.sessionId = s.sessionId) : Numbered b' r := by
  refine ⟨by rw [hcounter, h.counter], ?_, ?_, ?_⟩
  · intro p s' hs'
    obtain ⟨s, hs, hid⟩ := hsessions p s' hs'
    rw [hid, h.sessionId p s hs]
  · intro p s' hs'
    obtain ⟨s, hs, -⟩ := hsessions p s' hs'
    exact h.lt_count p s hs
  · intro p q s' t' hs' ht' heq
    obtain ⟨s, hs, -⟩ := hsessions p s' hs'
    obtain ⟨t, ht, -⟩ := hsessions q t' ht'
    exact h.injective p q s t hs ht heq

theorem Numbered.construct {b b' : Backend} {r : Numbering} (h : Numbered b r) {address : ℕ}
    {callbacks : Option OpenCDMSessionCallbacks} {userData : ℕ} {kids : List Bytes}
    (hcounter : b'.sessionCounter = b.sessionCounter + 1)
    (hsessions : b'.sessions = Function.update b.sessions address
      (some (newSession (b.sessionCounter + 1) callbacks userData kids))) :
    Numbered b' ⟨r.count + 1, Function.update r.number address r.count⟩ := by
  have hnext : (b.sessionCounter + 1).toNat = (r.count + 1) % 2 ^ 32 := by
    rw [UInt32.toNat_add, h.counter]
    exact Nat.mod_add_mod _ _ _
  -- the sessions at other addresses are those that were there
  have hother : ∀ p s, p ≠ address → b'.sessions p = some s → b.sessions p = some s := by
    intro p s hp hs
    rwa [hsessions, Function.update_of_ne hp] at hs
  have hlt : ∀ p s, p ≠ address → b'.sessions p = some s →
      Function.update r.number address r.count p = r.number p ∧ r.number p < r.count :=
    fun p s hp hs => ⟨Function.update_of_ne hp _ _, h.lt_count p s (hother p s hp hs)⟩
  refine ⟨by rw [hcounter, hnext], ?_, ?_, ?_⟩
  · intro p s hs
    by_cases hp : p = address
    · subst hp
      rw [hsessions, Function.update_self, Option.some.injEq] at hs
      subst hs
      have hid : (newSession (b.sessionCounter + 1) callbacks userData kids).sessionId =
          numberedId r.count :=
        congrArg (fun counter : ℕ => "clearkey-session-" ++ toString counter) hnext
      exact hid.trans (congrArg numberedId (Function.update_self p r.count r.number).symm)
    · exact (h.sessionId p s (hother p s hp hs)).trans
        (congrArg numberedId (hlt p s hp hs).1.symm)
  · intro p s hs
    by_cases hp : p = address
    · subst hp
      simp only [Function.update_self]
      omega
    · obtain ⟨heq, hbound⟩ := hlt p s hp hs
      simp only [heq]
      omega
  · intro p q s t hs ht heq
    simp only at heq
    by_cases hp : p = address
    · by_cases hq : q = address
      · rw [hp, hq]
      · obtain ⟨heq', hbound⟩ := hlt q t hq ht
        rw [hp, Function.update_self, heq'] at heq
        omega
    · obtain ⟨heq', hbound⟩ := hlt p s hp hs
      by_cases hq : q = address
      · rw [hq, Function.update_self, heq'] at heq
        omega
      · rw [heq', (hlt q t hq ht).1] at heq
        exact h.injective p q s t (hother p s hp hs) (hother q t hq ht) heq

/-- **Every call keeps the numbers.** -/
theorem numbered_step {b b' : Backend} {h o : List BackendObservation} {a : BackendCall}
    (hnumbered : Numbered b (numbering h)) (hstep : backend.step b a = some (b', o)) :
    Numbered b' (numbering (h ++ o)) := by
  rw [numbering, List.foldl_append]
  cases invoked_of_step hstep with
  | constructed hsystem hkids hfresh => exact hnumbered.construct rfl rfl
  | destructedSession session =>
      refine hnumbered.of_sessions rfl fun p s' hs' => ⟨s', ?_, rfl⟩
      cases session with
      | none => exact hs'
      | some address =>
          have hne : p ≠ address := by
            rintro rfl
            simp [release] at hs'
          exact (Function.update_of_ne hne _ _).symm.trans hs'
  | @onSession address s s' call hs hreply =>
      refine hnumbered.of_sessions rfl fun p t' ht' => ?_
      by_cases hp : p = address
      · subst hp
        have hbelongs : lifecycle.step s call = some (s', [(call.reply (some s)).2]) := by
          rw [lifecycle_step, hreply]
          rfl
        simp only [Function.update_self, Option.some.injEq] at ht'
        subst ht'
        exact ⟨s, hs, (belongs_step hbelongs).sessionId⟩
      · simp only [Function.update_of_ne hp] at ht'
        exact ⟨t', ht', rfl⟩
  | _ => exact hnumbered.of_sessions rfl fun p s' hs' => ⟨s', hs', rfl⟩

/-- **When two sessions have the same id.**  The ids are the numbers in which sessions are
constructed, counted in 32 bits: of the sessions that are there, no two have the same number, and
two have the same id exactly when a multiple of `2 ^ 32` lies between their numbers. -/
theorem sessionId_eq_iff {as : List BackendCall} {b : Backend} {h : List BackendObservation}
    (hrun : backend.run Backend.init as = some (b, h)) {p q : ℕ} {s t : OpenCDMSession}
    (hp : b.sessions p = some s) (hq : b.sessions q = some t) :
    (s.sessionId = t.sessionId ↔
      (numbering h).number p ≡ (numbering h).number q [MOD 2 ^ 32]) ∧
        (p ≠ q → (numbering h).number p ≠ (numbering h).number q) := by
  have hinit : Numbered Backend.init (numbering []) :=
    ⟨rfl, fun _ _ h => absurd h (by simp [Backend.init]),
      fun _ _ h => absurd h (by simp [Backend.init]),
      fun _ _ _ _ h => absurd h (by simp [Backend.init])⟩
  have hnumbered := Machine.run_induction (P := fun b h => Numbered b (numbering h))
    (fun _ _ _ _ _ hnumbered hstep => numbered_step hnumbered hstep) hinit hrun
  rw [List.nil_append] at hnumbered
  refine ⟨?_, fun hne heq => hne (hnumbered.injective p q s t hp hq heq)⟩
  rw [hnumbered.sessionId p s hp, hnumbered.sessionId q t hq, numberedId_inj]

def constructCalls : List BackendCall :=
  [.createSystem (some "org.w3.clearkey") (some 0),
    .constructSession (some 0) (some "keyids") sampleInitData 15 none 7 true (some 1),
    .constructSession (some 0) (some "keyids") sampleInitData 15 none 8 true (some 2)]

/-- The two have different ids. -/
theorem sessionId_ne_constructCalls : ∃ b h s t,
    backend.run Backend.init constructCalls = some (b, h) ∧ b.sessions 1 = some s ∧
      b.sessions 2 = some t ∧ s.sessionId ≠ t.sessionId := by
  have hkids : initKids sampleInitData 15 ≠ [] := by decide +kernel
  have hsystem : backend.step Backend.init (.createSystem (some "org.w3.clearkey") (some 0)) =
      some (_, _) := rfl
  have hrun : backend.run Backend.init constructCalls = some (_, _) :=
    Machine.run_cons.2 ⟨_, _, _, hsystem, Machine.run_cons.2 ⟨_, _, _,
      step_construct none 7 rfl rfl hkids, Machine.run_cons.2 ⟨_, _, _,
        step_construct none 8 rfl rfl hkids, rfl, rfl⟩, rfl⟩, rfl⟩
  refine ⟨_, _, _, _, hrun, rfl, rfl, ?_⟩
  rw [Ne, (sessionId_eq_iff (p := 1) (q := 2) hrun rfl rfl).1]
  decide

/-! ### Other key systems -/

/-- What the queries of a system answer to a null pointer: there is no version, and the others look
at no pointer and say that there is no time, no certificate, no level and no metric. -/
def SystemReply.Refuses : SystemReply → Prop
  | .version error _ => error = .errorInvalidArg
  | .drmTime error time => error = .errorNone ∧ ∀ t ∈ time, t = 0
  | .serverCertificate supported => supported = false
  | .robustness error levels count =>
      error = .errorNone ∧ (∀ l ∈ levels, l = none) ∧ ∀ n ∈ count, n = 0
  | .metrics error bufferLength _ => error = .errorNone ∧ ∀ n ∈ bufferLength, n = 0

/-- What the calls on a session answer to a null pointer: all that look at it refuse it, and none
fires a callback. -/
def Observation.Refuses : Observation → Prop
  | .replied call error calls =>
      error = (match call with
        | .load => .errorNone
        | _ => .errorInvalidArg) ∧ calls = []
  | .status _ _ result => result = .internalError
  | .hasKeyId _ _ result => result = 0
  | .sessionId id => id = none
  | .drmHeaderSet error => error = .errorNone
  | .systemError error => error = .errorNone

/-- **Nothing is given out**: no system and no session, and no callback is fired; to free a null
pointer succeeds. -/
def BackendObservation.Refuses : BackendObservation → Prop
  | .createdSystem _ system => system = none
  | .typeSupported keySystem error => error = .errorNone ↔ keySystem = some clearKeySystem
  | .onSystem system reply => system = none ∧ reply.Refuses
  | .constructed session error calls => session = none ∧ error = .errorInvalidArg ∧ calls = []
  | .destructed error => error = .errorNone
  | .onSession session observation => session = none ∧ observation.Refuses

/-- Nothing is there. -/
structure Backend.Vacant (b : Backend) : Prop where
  systems : ∀ p, b.systems p = none
  sessions : ∀ p, b.sessions p = none

theorem release_eq_none {α : Type} {heap : Heap α} (h : ∀ p, heap p = none) (pointer : Option ℕ)
    (p : ℕ) : release heap pointer p = none := by
  cases pointer with
  | none => exact h p
  | some address =>
      by_cases hp : p = address
      · rw [hp, release, Function.update_self]
      · rw [release, Function.update_of_ne hp]
        exact h p

theorem deref_eq_some {α : Type} {heap : Heap α} (h : ∀ p, heap p = none) {pointer : Option ℕ}
    {target : Option α} (hderef : deref heap pointer = some target) :
    pointer = none ∧ target = none := by
  cases pointer with
  | none => exact ⟨rfl, (Option.some.inj hderef).symm⟩
  | some address => simp [deref, h address] at hderef

theorem refuses_reply_none (call : LifecycleCall) : (call.reply none).2.Refuses := by
  cases call with
  | call call =>
      cases call with
      | update keyMessage keyLength => exact ⟨rfl, rfl⟩
      | load => exact ⟨rfl, rfl⟩
      | remove => exact ⟨rfl, rfl⟩
      | close => exact ⟨rfl, rfl⟩
  | _ => exact rfl

theorem refuses_system_reply_none (call : SystemCall) : (call.reply none).Refuses := by
  cases call with
  | getVersion versionStr => exact rfl
  | getDrmTime time => exact ⟨rfl, by simp [opencdmSystemGetDrmTime]⟩
  | supportsServerCertificate => exact rfl
  | supportedRobustness robustness count =>
      exact ⟨rfl, by simp [opencdmSystemSupportedRobustness],
        by simp [opencdmSystemSupportedRobustness]⟩
  | getMetricSystemData bufferLength buffer =>
      exact ⟨rfl, by simp [opencdmGetMetricSystemData]⟩

theorem opencdmIsTypeSupported_eq_errorNone_iff {keySystem : Option String} :
    opencdmIsTypeSupported keySystem = .errorNone ↔ keySystem = some clearKeySystem := by
  simp [opencdmIsTypeSupported, isClearKeySystem]

/-- What asks for no key system that is supported finds and leaves nothing there. -/
theorem refuses_step {b b' : Backend} {a : BackendCall} {o : List BackendObservation}
    (hvacant : b.Vacant) (hasked : ∀ keySystem allocated, a = .createSystem keySystem allocated →
      opencdmIsTypeSupported keySystem ≠ .errorNone)
    (hstep : backend.step b a = some (b', o)) : b'.Vacant ∧ ∀ x ∈ o, x.Refuses := by
  cases invoked_of_step hstep with
  | created hsystem =>
      exact absurd (opencdmCreateSystem_eq_some hsystem).1 (hasked _ _ rfl)
  | notCreated keySystem allocated =>
      exact ⟨hvacant, List.forall_mem_singleton.2 rfl⟩
  | destructedSystem system =>
      exact ⟨⟨release_eq_none hvacant.systems system, hvacant.sessions⟩,
        List.forall_mem_singleton.2 rfl⟩
  | typeSupported keySystem =>
      exact ⟨hvacant, List.forall_mem_singleton.2 opencdmIsTypeSupported_eq_errorNone_iff⟩
  | onSystem call htarget =>
      obtain ⟨rfl, rfl⟩ := deref_eq_some hvacant.systems htarget
      exact ⟨hvacant, List.forall_mem_singleton.2 ⟨rfl, refuses_system_reply_none call⟩⟩
  | constructed hsystem hkids hfresh =>
      rw [hvacant.systems] at hsystem
      exact absurd hsystem (by simp)
  | notConstructed _ _ _ _ _ _ _ _ hthere herror hinvalid =>
      obtain ⟨target, htarget⟩ := Option.isSome_iff_exists.1 hthere
      obtain ⟨hnull, -⟩ := deref_eq_some hvacant.systems htarget
      exact ⟨hvacant, List.forall_mem_singleton.2 ⟨rfl, hinvalid hnull, rfl⟩⟩
  | destructedSession session =>
      exact ⟨⟨hvacant.systems, release_eq_none hvacant.sessions session⟩,
        List.forall_mem_singleton.2 rfl⟩
  | onNull call => exact ⟨hvacant, List.forall_mem_singleton.2 ⟨rfl, refuses_reply_none call⟩⟩
  | onSession hs hreply =>
      rw [hvacant.sessions] at hs
      exact absurd hs (by simp)

theorem refuses_run : ∀ {as : List BackendCall} {b b' : Backend} {h : List BackendObservation},
    b.Vacant → (∀ keySystem allocated, .createSystem keySystem allocated ∈ as →
      opencdmIsTypeSupported keySystem ≠ .errorNone) → backend.run b as = some (b', h) →
        b'.Vacant ∧ ∀ o ∈ h, o.Refuses := by
  intro as
  induction as with
  | nil =>
      intro b b' h hvacant _ hrun
      obtain ⟨rfl, rfl⟩ := Prod.mk.inj (Option.some.inj hrun)
      exact ⟨hvacant, by simp⟩
  | cons a as ih =>
      intro b b' h hvacant hasked hrun
      obtain ⟨b₁, o₁, o₂, hstep, hrest, rfl⟩ := Machine.run_cons.1 hrun
      obtain ⟨hvacant₁, hrefuses⟩ := refuses_step hvacant
        (fun keySystem allocated ha => hasked keySystem allocated (ha ▸ List.mem_cons_self)) hstep
      obtain ⟨hvacant', hlater⟩ := ih hvacant₁
        (fun keySystem allocated ha => hasked keySystem allocated (List.mem_cons_of_mem _ ha)) hrest
      refine ⟨hvacant', fun o ho => ?_⟩
      rcases List.mem_append.1 ho with ho | ho
      · exact hrefuses o ho
      · exact hlater o ho

/-- **A client of other key systems gets nothing.**  As long as every system it asks for is of a
key system that is not supported, in whatever order it calls and with whatever arguments, nothing
is ever there: every creation gives null, every construction fails for its null system, whatever
looks at a system or a session finds a null pointer and refuses it, and no callback is fired. -/
theorem unsupported {as : List BackendCall} {b : Backend} {h : List BackendObservation}
    (hrun : backend.run Backend.init as = some (b, h))
    (hasked : ∀ keySystem allocated, .createSystem keySystem allocated ∈ as →
      opencdmIsTypeSupported keySystem ≠ .errorNone) :
    b.Vacant ∧ ∀ o ∈ h, o.Refuses :=
  refuses_run ⟨fun _ => rfl, fun _ => rfl⟩ hasked hrun

/-- A client of another key system, which goes on without its system. -/
def otherSystemCalls : List BackendCall :=
  [.createSystem (some "com.widevine.alpha") (some 4),
    .constructSession none (some "keyids") sampleInitData 15 none 0 true (some 5),
    .onSession none (.call .close), .onSession none (.call .load), .onSession none .sessionId,
    .onSystem none (.getVersion (some [])), .onSystem none (.getDrmTime (some 5)),
    .isTypeSupported (some "com.widevine.alpha"), .destructSession none]

theorem unsupported_otherSystemCalls : ∃ b h,
    backend.run Backend.init otherSystemCalls = some (b, h) ∧ b.Vacant ∧ ∀ o ∈ h, o.Refuses := by
  have hrun : backend.run Backend.init otherSystemCalls = some (_, _) := rfl
  refine ⟨_, _, hrun, unsupported hrun ?_⟩
  intro keySystem allocated hmem
  simp only [otherSystemCalls, List.mem_cons, BackendCall.createSystem.injEq, reduceCtorEq,
    List.not_mem_nil, or_false] at hmem
  rw [hmem.1]
  decide

end ClearKey
