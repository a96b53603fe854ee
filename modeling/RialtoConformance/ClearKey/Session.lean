/-
**The session of the ClearKey backend.**

The C entry points of the backend as functions from the arguments and the state before the call to
the return value, the state after it and the callbacks fired.  A pointer argument that may be null
is an `Option`; a pointer with a length is the buffer behind it and the length, of which the code
reads the first `length` bytes; a callback slot is whether it is set.

Main definitions:

* `ClearKey.OpenCDMSession`, `ClearKey.KeyMap` — a session and its stored keys;
* `ClearKey.opencdmConstructSession`, `ClearKey.licenceRequest` — construction from `keyids` init
  data, and the challenge it delivers;
* `ClearKey.opencdmSessionUpdate`, `ClearKey.applyEntries` — a licence response, and the loop that
  stores its keys;
* `ClearKey.opencdmSessionRemove`, `ClearKey.opencdmSessionClose`, `ClearKey.opencdmSessionStatus`,
  `ClearKey.opencdmSessionHasKeyId` — the rest of the lifecycle and the queries.

Main results:

* `ClearKey.applyEntries_eq` — **what the loop of an update stores**: the entries before the first
  one that does not decode;
* `ClearKey.opencdmSessionUpdate_of_entries`, `ClearKey.opencdmSessionUpdate_of_refused` — an
  update that reaches the loop, and one that does not;
* `ClearKey.opencdmSessionStatus_eq_usable_iff`, `ClearKey.opencdmSessionHasKeyId_eq_one_iff` —
  what the queries say.
-/
import RialtoConformance.Lib.Override
import RialtoConformance.Lib.Runs
import RialtoConformance.ClearKey.JsonScan

set_option relaxedAutoImplicit false
set_option autoImplicit false

namespace ClearKey

open Override Runs

/-! ### The data of a session -/

/-- The `OpenCDMError` values the backend returns. -/
inductive OpenCDMError
  | errorNone
  | errorInvalidArg
  | errorKeySystemNotSupported
  | errorInvalidSession
  | errorFail
  | errorOutOfMemory
  deriving DecidableEq, Repr

/-- The `KeyStatus` values the backend returns. -/
inductive KeyStatus
  | usable
  | statusPending
  | internalError
  deriving DecidableEq, Repr

/-- Which callbacks of an `OpenCDMSessionCallbacks` are set. -/
structure OpenCDMSessionCallbacks where
  processChallengeCallback : Bool
  keyUpdateCallback : Bool
  keysUpdatedCallback : Bool
  deriving DecidableEq, Repr

/-- A callback fired, with what it is given.  Byte arguments are the buffer behind the pointer. -/
inductive CallbackCall
  | processChallenge (userData : ℕ) (url challenge : Bytes) (challengeLength : UInt16)
  | keyUpdate (userData : ℕ) (keyId : Bytes) (length : UInt8)
  | keysUpdated (userData : ℕ)
  deriving DecidableEq, Repr

/-- `std::map<std::vector<uint8_t>, std::vector<uint8_t>>`: kid to key. -/
abbrev KeyMap := Std.ExtTreeMap Bytes Bytes compare

/-- `OpenCDMSession`. -/
structure OpenCDMSession where
  sessionId : String
  callbacks : Option OpenCDMSessionCallbacks
  userData : ℕ
  /-- From the init data. -/
  requestedKeyIds : List Bytes
  /-- From the licence responses. -/
  keys : KeyMap
  closed : Bool

/-- `OpenCDMSystem`. -/
structure OpenCDMSystem where
  keySystem : String

/-! ### Construction -/

/-- The key ids of `keyids` init data: the members of the `"kids"` array that decode to at least
one byte. -/
def decodeKeyIds (values : List Bytes) : List Bytes :=
  values.filterMap fun kidB64 =>
    let kid := base64UrlDecode kidB64
    if kid.1 && !kid.2.isEmpty then some kid.2 else none

/-- `"\"" + base64UrlEncode(kid) + "\""`. -/
def quotedKid (kid : Bytes) : Bytes := quote :: (base64UrlEncode kid ++ [quote])

/-- The members of the request's array, separated by commas. -/
def joinKids : List Bytes → Bytes
  | [] => []
  | [kid] => quotedKid kid
  | kid :: kid' :: kids => quotedKid kid ++ ascii "," ++ joinKids (kid' :: kids)

/-- **The licence request** naming the key ids. -/
def licenceRequest (kids : List Bytes) : Bytes :=
  ascii "\x7b\"kids\":[" ++ joinKids kids ++ ascii "],\"type\":\"temporary\"\x7d"

/-- What `opencdm_construct_session` leaves behind: the return value, the counter of sessions, the
session stored through the out-parameter, and the callbacks fired. -/
structure Constructed where
  error : OpenCDMError
  sessionCounter : UInt32
  session : Option OpenCDMSession
  calls : List CallbackCall

/-- **`opencdm_construct_session`.**  `allocated` is whether `new (std::nothrow)` succeeds,
`sessionOut` whether the out-parameter is not null. -/
def opencdmConstructSession (sessionCounter : UInt32) (system : Option OpenCDMSystem)
    (initDataType : Option String) (initData : Bytes) (initDataLength : UInt16)
    (callbacks : Option OpenCDMSessionCallbacks) (userData : ℕ) (sessionOut allocated : Bool) :
    Constructed :=
  if system.isNone || !sessionOut then ⟨.errorInvalidArg, sessionCounter, none, []⟩
  else if initDataType ≠ some "keyids" then ⟨.errorFail, sessionCounter, none, []⟩
  else
    let initJson := initData.take initDataLength.toNat
    let kids := decodeKeyIds (jsonStringValues initJson (ascii "kids"))
    if kids.isEmpty then ⟨.errorFail, sessionCounter, none, []⟩
    else if !allocated then ⟨.errorOutOfMemory, sessionCounter, none, []⟩
    else
      let counter := sessionCounter + 1
      let session : OpenCDMSession :=
        { sessionId := "clearkey-session-" ++ toString counter.toNat
          callbacks := callbacks
          userData := userData
          requestedKeyIds := kids
          keys := ∅
          closed := false }
      let calls :=
        if callbacks.any (·.processChallengeCallback) then
          let request := licenceRequest kids
          [.processChallenge userData [] request (UInt16.ofNat request.length)]
        else []
      ⟨.errorNone, counter, some session, calls⟩

/-! ### The session lifecycle -/

/-- What a call on a session leaves behind. -/
structure Reply where
  error : OpenCDMError
  session : Option OpenCDMSession
  calls : List CallbackCall

/-- `opencdm_session_load`. -/
def opencdmSessionLoad (session : Option OpenCDMSession) : Reply := ⟨.errorNone, session, []⟩

/-- The loop of `opencdm_session_update` over the `(kid, k)` texts: the keys stored, and the key
ids updated unless an entry did not decode. -/
def applyEntries : List (Bytes × Bytes) → KeyMap → List Bytes → KeyMap × Option (List Bytes)
  | [], keys, updatedKids => (keys, some updatedKids)
  | (kidText, keyText) :: rest, keys, updatedKids =>
      let kid := base64UrlDecode kidText
      let key := base64UrlDecode keyText
      if !kid.1 || !key.1 || kid.2.isEmpty || key.2.isEmpty then (keys, none)
      else applyEntries rest (keys.insert kid.2 key.2) (updatedKids ++ [kid.2])

/-- The callbacks of a successful update: one status update per key, then the batch signal. -/
def updateCalls (session : OpenCDMSession) (updatedKids : List Bytes) : List CallbackCall :=
  match session.callbacks with
  | none => []
  | some callbacks =>
      (if callbacks.keyUpdateCallback then
        updatedKids.map fun kid => .keyUpdate session.userData kid (UInt8.ofNat kid.length)
      else []) ++
      (if callbacks.keysUpdatedCallback then [.keysUpdated session.userData] else [])

/-- **`opencdm_session_update`.** -/
def opencdmSessionUpdate (session : Option OpenCDMSession) (keyMessage : Option Bytes)
    (keyLength : UInt16) : Reply :=
  match session, keyMessage with
  | some s, some message =>
      if keyLength = 0 then ⟨.errorInvalidArg, session, []⟩
      else if s.closed then ⟨.errorInvalidSession, session, []⟩
      else
        let response := message.take keyLength.toNat
        let kids := jsonStringValues response (ascii "kid")
        let keys := jsonStringValues response (ascii "k")
        if kids.isEmpty || kids.length ≠ keys.length then ⟨.errorFail, session, []⟩
        else
          match applyEntries (kids.zip keys) s.keys [] with
          | (stored, none) => ⟨.errorFail, some { s with keys := stored }, []⟩
          | (stored, some updatedKids) =>
              ⟨.errorNone, some { s with keys := stored }, updateCalls s updatedKids⟩
  | _, _ => ⟨.errorInvalidArg, session, []⟩

/-- `opencdm_session_remove`. -/
def opencdmSessionRemove (session : Option OpenCDMSession) : Reply :=
  match session with
  | none => ⟨.errorInvalidArg, none, []⟩
  | some s => ⟨.errorNone, some { s with keys := ∅ }, []⟩

/-- `opencdm_session_close`. -/
def opencdmSessionClose (session : Option OpenCDMSession) : Reply :=
  match session with
  | none => ⟨.errorInvalidArg, none, []⟩
  | some s => ⟨.errorNone, some { s with closed := true }, []⟩

/-- `opencdm_session_status`. -/
def opencdmSessionStatus (session : Option OpenCDMSession) (keyId : Option Bytes)
    (length : UInt8) : KeyStatus :=
  match session, keyId with
  | some s, some keyId =>
      if length = 0 then .internalError
      else if s.keys.contains (keyId.take length.toNat) then .usable else .statusPending
  | _, _ => .internalError

/-- `opencdm_session_has_key_id`. -/
def opencdmSessionHasKeyId (session : Option OpenCDMSession) (length : UInt8)
    (keyId : Option Bytes) : UInt32 :=
  match session, keyId with
  | some s, some keyId =>
      if length = 0 then 0 else if s.keys.contains (keyId.take length.toNat) then 1 else 0
  | _, _ => 0

/-! ### A message with its length -/

theorem take_toNat_length {message : Bytes} (h : message.length ≤ 65535) :
    message.take (UInt16.ofNat message.length).toNat = message := by
  rw [UInt16.toNat_ofNat', Nat.mod_eq_of_lt (by omega), List.take_length]

theorem ofNat_length_ne_zero {message : Bytes} (hne : message ≠ [])
    (h : message.length ≤ 65535) : UInt16.ofNat message.length ≠ 0 := by
  intro hzero
  have htake := take_toNat_length h
  rw [hzero] at htake
  exact hne htake.symm

/-! ### Runs of a session -/

/-- The calls that may change a session. -/
inductive SessionCall
  | load
  | update (keyMessage : Option Bytes) (keyLength : UInt16)
  | remove
  | close

def SessionCall.reply (session : Option OpenCDMSession) : SessionCall → Reply
  | .load => opencdmSessionLoad session
  | .update keyMessage keyLength => opencdmSessionUpdate session keyMessage keyLength
  | .remove => opencdmSessionRemove session
  | .close => opencdmSessionClose session

/-- **A session as a machine**: its calls, and the callbacks they fire. -/
def sessionMachine : Machine OpenCDMSession SessionCall CallbackCall where
  step s call :=
    let reply := call.reply (some s)
    reply.session.map fun s' => (s', reply.calls)

/-- A session that some construction and some calls lead to. -/
def Reachable (s : OpenCDMSession) : Prop :=
  ∃ counter system type data length callbacks userData s₀,
    (opencdmConstructSession counter system type data length callbacks userData true true).session =
      some s₀ ∧ sessionMachine.Reachable s₀ s

theorem Reachable.of_construct {counter : UInt32} {system : Option OpenCDMSystem}
    {type : Option String} {data : Bytes} {length : UInt16}
    {callbacks : Option OpenCDMSessionCallbacks} {userData : ℕ} {s : OpenCDMSession}
    (h : (opencdmConstructSession counter system type data length callbacks userData true
      true).session = some s) : Reachable s :=
  ⟨counter, system, type, data, length, callbacks, userData, s, h, [], [], rfl⟩

/-! ### What an update stores -/

/-- A `(kid, k)` entry of a response, decoded: both texts decode, to at least one byte each. -/
def decodeEntry (entry : Bytes × Bytes) : Option (Bytes × Bytes) :=
  let kid := base64UrlDecode entry.1
  let key := base64UrlDecode entry.2
  if !kid.1 || !key.1 || kid.2.isEmpty || key.2.isEmpty then none else some (kid.2, key.2)

/-- The entries before the first one that does not decode. -/
def decodedEntries : List (Bytes × Bytes) → List (Bytes × Bytes)
  | [] => []
  | entry :: rest =>
      match decodeEntry entry with
      | none => []
      | some pair => pair :: decodedEntries rest

def AllDecode (entries : List (Bytes × Bytes)) : Prop := ∀ e ∈ entries, (decodeEntry e).isSome

instance (entries : List (Bytes × Bytes)) : Decidable (AllDecode entries) :=
  inferInstanceAs (Decidable (∀ e ∈ entries, (decodeEntry e).isSome))

theorem allDecode_cons_of_some {entry pair : Bytes × Bytes} {rest : List (Bytes × Bytes)}
    (h : decodeEntry entry = some pair) : AllDecode (entry :: rest) ↔ AllDecode rest := by
  simp [AllDecode, h]

theorem not_allDecode_cons_of_none {entry : Bytes × Bytes} {rest : List (Bytes × Bytes)}
    (h : decodeEntry entry = none) : ¬ AllDecode (entry :: rest) := by
  simp [AllDecode, h]

/-- **What the loop of an update stores**: the entries before the first one that does not decode;
it succeeds when there is none. -/
theorem applyEntries_eq : ∀ (entries : List (Bytes × Bytes)) (keys : KeyMap)
    (updatedKids : List Bytes),
    applyEntries entries keys updatedKids =
      (override keys (decodedEntries entries),
        if AllDecode entries then some (updatedKids ++ (decodedEntries entries).map Prod.fst)
        else none) := by
  intro entries
  induction entries with
  | nil => intro keys updatedKids; simp [applyEntries, decodedEntries, AllDecode]
  | cons entry rest ih =>
      intro keys updatedKids
      obtain ⟨kidText, keyText⟩ := entry
      rw [applyEntries]
      by_cases hbad : (!(base64UrlDecode kidText).1 || !(base64UrlDecode keyText).1 ||
          (base64UrlDecode kidText).2.isEmpty || (base64UrlDecode keyText).2.isEmpty) = true
      · have hnone : decodeEntry (kidText, keyText) = none := if_pos hbad
        simp only [if_pos hbad, decodedEntries, hnone, override_nil,
          if_neg (not_allDecode_cons_of_none hnone)]
      · have hsome : decodeEntry (kidText, keyText) =
            some ((base64UrlDecode kidText).2, (base64UrlDecode keyText).2) := if_neg hbad
        simp only [if_neg hbad, ih, decodedEntries, hsome, override_cons, List.map_cons,
          allDecode_cons_of_some hsome, List.append_assoc, List.singleton_append]

/-- The entries of a response that the loop of an update runs over: the values of `"kid"` and of
`"k"`, paired by position, unless there are none or their numbers differ. -/
def responseEntries (response : Bytes) : Option (List (Bytes × Bytes)) :=
  let kids := jsonStringValues response (ascii "kid")
  let keys := jsonStringValues response (ascii "k")
  if kids.isEmpty || kids.length ≠ keys.length then none else some (kids.zip keys)

def responseKids (response : Bytes) : List Bytes :=
  (jsonStringValues response (ascii "kid")).map fun kidText => (base64UrlDecode kidText).2

theorem decodedEntries_eq_map : ∀ {entries : List (Bytes × Bytes)}, AllDecode entries →
    decodedEntries entries =
      entries.map fun e => ((base64UrlDecode e.1).2, (base64UrlDecode e.2).2) := by
  intro entries
  induction entries with
  | nil => intro _; rfl
  | cons entry rest ih =>
      intro hall
      obtain ⟨pair, hpair⟩ := Option.isSome_iff_exists.1 (hall entry (by simp))
      have hpair' : ((base64UrlDecode entry.1).2, (base64UrlDecode entry.2).2) = pair := by
        simp only [decodeEntry] at hpair
        split at hpair
        · simp at hpair
        · exact Option.some.inj hpair
      rw [decodedEntries, hpair, List.map_cons, hpair',
        ih ((allDecode_cons_of_some hpair).1 hall)]

theorem ne_nil_of_mem_decodedEntries : ∀ {entries : List (Bytes × Bytes)},
    ∀ p ∈ decodedEntries entries, p.1 ≠ [] ∧ p.2 ≠ [] := by
  intro entries
  induction entries with
  | nil => intro p hp; simp [decodedEntries] at hp
  | cons entry rest ih =>
      intro p hp
      rw [decodedEntries] at hp
      cases hentry : decodeEntry entry with
      | none => simp [hentry] at hp
      | some pair =>
          rw [hentry, List.mem_cons] at hp
          rcases hp with rfl | hp
          · simp only [decodeEntry] at hentry
            split at hentry
            · simp at hentry
            · rename_i hgood
              rw [← Option.some.inj hentry]
              simpa using And.intro (fun h => hgood (by simp [h])) (fun h => hgood (by simp [h]))
          · exact ih p hp

/-- The entries of a response pair its `"kid"` and its `"k"` values, of which there are as many. -/
theorem responseEntries_eq_some {response : Bytes} {entries : List (Bytes × Bytes)}
    (h : responseEntries response = some entries) :
    (jsonStringValues response (ascii "kid")).length =
        (jsonStringValues response (ascii "k")).length ∧
      entries = (jsonStringValues response (ascii "kid")).zip
        (jsonStringValues response (ascii "k")) := by
  simp only [responseEntries] at h
  split at h
  · simp at h
  · rename_i hcount
    simp only [Bool.or_eq_true, decide_eq_true_eq, not_or, ne_eq, not_not] at hcount
    exact ⟨hcount.2, (Option.some.inj h).symm⟩

theorem map_fst_responseEntries {response : Bytes} {entries : List (Bytes × Bytes)}
    (h : responseEntries response = some entries) :
    entries.map Prod.fst = jsonStringValues response (ascii "kid") := by
  obtain ⟨hcount, rfl⟩ := responseEntries_eq_some h
  exact List.map_fst_zip hcount.le

theorem map_fst_decodedEntries {response : Bytes} {entries : List (Bytes × Bytes)}
    (hentries : responseEntries response = some entries) (hall : AllDecode entries) :
    (decodedEntries entries).map Prod.fst = responseKids response := by
  rw [decodedEntries_eq_map hall, responseKids, ← map_fst_responseEntries hentries, List.map_map,
    List.map_map]
  rfl

/-- **An update that reaches its loop.** -/
theorem opencdmSessionUpdate_of_entries {s : OpenCDMSession} {message : Bytes} {keyLength : UInt16}
    {entries : List (Bytes × Bytes)} (hlen : keyLength ≠ 0) (hopen : s.closed = false)
    (hentries : responseEntries (message.take keyLength.toNat) = some entries) :
    opencdmSessionUpdate (some s) (some message) keyLength =
      { error := if AllDecode entries then .errorNone else .errorFail
        session := some { s with keys := override s.keys (decodedEntries entries) }
        calls := if AllDecode entries then updateCalls s ((decodedEntries entries).map Prod.fst)
          else [] } := by
  simp only [responseEntries] at hentries
  simp only [opencdmSessionUpdate, if_neg hlen, hopen, Bool.false_eq_true, if_false]
  split at hentries
  · simp at hentries
  · rename_i hcount
    obtain rfl := Option.some.inj hentries
    rw [if_neg hcount, applyEntries_eq, List.nil_append]
    by_cases hall : AllDecode ((jsonStringValues (message.take keyLength.toNat) (ascii "kid")).zip
        (jsonStringValues (message.take keyLength.toNat) (ascii "k")))
    · simp only [if_pos hall]
    · simp only [if_neg hall]

/-- An update gets to its loop: the arguments are there, the session is open and the response has
as many `"k"` values as `"kid"` values. -/
def ReachesLoop (session : Option OpenCDMSession) (keyMessage : Option Bytes)
    (keyLength : UInt16) : Prop :=
  ∃ s message entries, session = some s ∧ keyMessage = some message ∧ keyLength ≠ 0 ∧
    s.closed = false ∧ responseEntries (message.take keyLength.toNat) = some entries

/-- **An update that does not reach its loop** fails and does nothing. -/
theorem opencdmSessionUpdate_of_refused {session : Option OpenCDMSession}
    {keyMessage : Option Bytes} {keyLength : UInt16}
    (h : ¬ ReachesLoop session keyMessage keyLength) :
    (opencdmSessionUpdate session keyMessage keyLength).error ≠ .errorNone ∧
      (opencdmSessionUpdate session keyMessage keyLength).session = session ∧
      (opencdmSessionUpdate session keyMessage keyLength).calls = [] := by
  cases session with
  | none => simp [opencdmSessionUpdate]
  | some s =>
      cases keyMessage with
      | none => simp [opencdmSessionUpdate]
      | some message =>
          by_cases hlen : keyLength = 0
          · simp [opencdmSessionUpdate, hlen]
          · cases hclosed : s.closed with
            | true => simp [opencdmSessionUpdate, hlen, hclosed]
            | false =>
                -- only the two counts are left to refuse the response
                have hnone : responseEntries (message.take keyLength.toNat) = none := by
                  cases hes : responseEntries (message.take keyLength.toNat) with
                  | none => rfl
                  | some entries =>
                      exact absurd ⟨s, message, entries, rfl, rfl, hlen, hclosed, hes⟩ h
                simp only [responseEntries] at hnone
                split at hnone
                · rename_i hcount
                  simp only [opencdmSessionUpdate, if_neg hlen, hclosed, Bool.false_eq_true,
                    if_false, if_pos hcount]
                  simp
                · simp at hnone

/-- **A successful update**: every entry decodes and is stored. -/
theorem opencdmSessionUpdate_of_errorNone {s : OpenCDMSession} {message : Bytes}
    {keyLength : UInt16}
    (h : (opencdmSessionUpdate (some s) (some message) keyLength).error = .errorNone) :
    ∃ entries, responseEntries (message.take keyLength.toNat) = some entries ∧
      AllDecode entries ∧
      opencdmSessionUpdate (some s) (some message) keyLength =
        { error := .errorNone
          session := some { s with keys := override s.keys (decodedEntries entries) }
          calls := updateCalls s (responseKids (message.take keyLength.toNat)) } := by
  by_cases hloop : ReachesLoop (some s) (some message) keyLength
  · obtain ⟨s', message', entries, hs, hm, hlen, hopen, hentries⟩ := hloop
    obtain rfl := Option.some.inj hs
    obtain rfl := Option.some.inj hm
    have heq := opencdmSessionUpdate_of_entries hlen hopen hentries
    by_cases hall : AllDecode entries
    · refine ⟨entries, hentries, hall, ?_⟩
      rw [heq, if_pos hall, if_pos hall, map_fst_decodedEntries hentries hall]
    · rw [heq, if_neg hall] at h
      simp at h
  · exact absurd h (opencdmSessionUpdate_of_refused hloop).1

/-! ### What a construction does -/

/-- The key ids of the init data of a construction. -/
def initKids (initData : Bytes) (initDataLength : UInt16) : List Bytes :=
  decodeKeyIds (jsonStringValues (initData.take initDataLength.toNat) (ascii "kids"))

/-- **A construction from `keyids` init data** that names a key id. -/
theorem opencdmConstructSession_of_kids {counter : UInt32} {system : OpenCDMSystem}
    {initData : Bytes} {initDataLength : UInt16} {callbacks : Option OpenCDMSessionCallbacks}
    {userData : ℕ} (h : initKids initData initDataLength ≠ []) :
    opencdmConstructSession counter (some system) (some "keyids") initData initDataLength callbacks
        userData true true =
      { error := .errorNone
        sessionCounter := counter + 1
        session := some
          { sessionId := "clearkey-session-" ++ toString (counter + 1).toNat
            callbacks := callbacks
            userData := userData
            requestedKeyIds := initKids initData initDataLength
            keys := ∅
            closed := false }
        calls :=
          if callbacks.any (·.processChallengeCallback) then
            [.processChallenge userData [] (licenceRequest (initKids initData initDataLength))
              (UInt16.ofNat (licenceRequest (initKids initData initDataLength)).length)]
          else [] } := by
  have hempty : (initKids initData initDataLength).isEmpty = false := by
    simpa using h
  simp only [initKids] at hempty ⊢
  simp [opencdmConstructSession, hempty]

theorem of_opencdmConstructSession_errorNone {counter : UInt32} {system : Option OpenCDMSystem}
    {initDataType : Option String} {initData : Bytes} {initDataLength : UInt16}
    {callbacks : Option OpenCDMSessionCallbacks} {userData : ℕ} {sessionOut allocated : Bool}
    (h : (opencdmConstructSession counter system initDataType initData initDataLength callbacks
      userData sessionOut allocated).error = .errorNone) :
    system.isSome ∧ sessionOut = true ∧ initDataType = some "keyids" ∧ allocated = true ∧
      initKids initData initDataLength ≠ [] := by
  simp only [opencdmConstructSession] at h
  split at h
  · simp at h
  · rename_i hargs
    split at h
    · simp at h
    · rename_i htype
      split at h
      · simp at h
      · rename_i hkids
        split at h
        · simp at h
        · rename_i halloc
          refine ⟨?_, ?_, ?_, ?_, ?_⟩
          · cases system <;> simp_all
          · simp_all
          · simpa using htype
          · simpa using halloc
          · simpa [initKids] using hkids

/-! ### The queries -/

/-- A key id is reported usable exactly when it is stored. -/
theorem opencdmSessionStatus_eq_usable_iff {s : OpenCDMSession} {keyId : Bytes} {length : UInt8} :
    opencdmSessionStatus (some s) (some keyId) length = .usable ↔
      length ≠ 0 ∧ s.keys.contains (keyId.take length.toNat) = true := by
  by_cases hlen : length = 0
  · simp [opencdmSessionStatus, hlen]
  · simp [opencdmSessionStatus, hlen]

/-- A session has a key id exactly when it is stored. -/
theorem opencdmSessionHasKeyId_eq_one_iff {s : OpenCDMSession} {keyId : Bytes} {length : UInt8} :
    opencdmSessionHasKeyId (some s) length (some keyId) = 1 ↔
      length ≠ 0 ∧ s.keys.contains (keyId.take length.toNat) = true := by
  by_cases hlen : length = 0
  · simp [opencdmSessionHasKeyId, hlen]
  · simp [opencdmSessionHasKeyId, hlen]

end ClearKey
