/-
**Licence responses.**

What a call of `opencdm_session_update` leaves behind, for every response: whether a call that
fails has changed anything, and whether the key ids a call announces are the ones the queries
answer for.

Main definitions:

* `ClearKey.Intact` — a call that did nothing;
* `ClearKey.AlreadyHeld` — storing the pairs changes nothing;
* `ClearKey.responseKids` — the key ids of a response;
* `ClearKey.Truthful` — the announcements of an update are those of its entries, and the queries
  agree with them.

Main results:

* `ClearKey.opencdmSessionUpdate_intact_iff` — **when a failed update does nothing**;
* `ClearKey.opencdmSessionUpdate_truthful_iff` — **when the announcements of an update are
  truthful**.
-/
import RialtoConformance.ClearKey.Session

set_option relaxedAutoImplicit false
set_option autoImplicit false

namespace ClearKey

open Override

/-! ### Failed updates -/

/-- A call on a session did nothing: the session and the answers of the queries are what they were,
and no callback has been fired. -/
structure Intact (before : Option OpenCDMSession) (reply : Reply) : Prop where
  /-- The stored keys, the closed flag and everything else. -/
  session : reply.session = before
  /-- `opencdm_session_status`. -/
  status : ∀ keyId length, opencdmSessionStatus reply.session keyId length =
    opencdmSessionStatus before keyId length
  /-- `opencdm_session_has_key_id`. -/
  hasKeyId : ∀ keyId length, opencdmSessionHasKeyId reply.session length keyId =
    opencdmSessionHasKeyId before length keyId
  /-- Neither `key_update` nor `keys_updated` has been fired. -/
  calls : reply.calls = []

theorem Intact.of_eq {before : Option OpenCDMSession} {reply : Reply}
    (hsession : reply.session = before) (hcalls : reply.calls = []) : Intact before reply where
  session := hsession
  status := by rw [hsession]; exact fun _ _ => rfl
  hasKeyId := by rw [hsession]; exact fun _ _ => rfl
  calls := hcalls

/-- Every key id of the pairs is stored already, with the key the pairs give it last. -/
def AlreadyHeld (keys : KeyMap) (pairs : List (Bytes × Bytes)) : Prop :=
  ∀ kid key, lastValue kid pairs = some key → keys[kid]? = some key

/-- An update that reaches its loop does nothing when it fails, exactly when every entry decodes or
the entries before the first one that does not are stored already. -/
theorem intact_of_entries_iff {s : OpenCDMSession} {message : Bytes} {keyLength : UInt16}
    {entries : List (Bytes × Bytes)} (hlen : keyLength ≠ 0) (hopen : s.closed = false)
    (hentries : responseEntries (message.take keyLength.toNat) = some entries) :
    ((opencdmSessionUpdate (some s) (some message) keyLength).error ≠ .errorNone →
        Intact (some s) (opencdmSessionUpdate (some s) (some message) keyLength)) ↔
      AllDecode entries ∨ AlreadyHeld s.keys (decodedEntries entries) := by
  rw [opencdmSessionUpdate_of_entries hlen hopen hentries]
  by_cases hall : AllDecode entries
  · simp [hall]
  · -- the callbacks are not reached, so only the stored keys can differ
    have hkeys : some { s with keys := override s.keys (decodedEntries entries) } = some s ↔
        override s.keys (decodedEntries entries) = s.keys := by
      rw [Option.some.injEq]
      constructor
      · intro h
        exact congrArg OpenCDMSession.keys h
      · intro h
        rw [h]
    simp only [hall, false_or]
    constructor
    · intro h
      exact override_eq_self_iff.1 (hkeys.1 (h (by simp)).session)
    · intro h _
      exact Intact.of_eq (hkeys.2 (override_eq_self_iff.2 h)) rfl

/-- **When a failed update does nothing**: the loop stores each entry as it goes, so an update that
fails has done nothing exactly when it fails before its loop, or when the entries before the first
one that does not decode are stored already. -/
theorem opencdmSessionUpdate_intact_iff (session : Option OpenCDMSession)
    (keyMessage : Option Bytes) (keyLength : UInt16) :
    ((opencdmSessionUpdate session keyMessage keyLength).error ≠ .errorNone →
        Intact session (opencdmSessionUpdate session keyMessage keyLength)) ↔
      ∀ s message entries, session = some s → keyMessage = some message → keyLength ≠ 0 →
        s.closed = false → responseEntries (message.take keyLength.toNat) = some entries →
        AllDecode entries ∨ AlreadyHeld s.keys (decodedEntries entries) := by
  constructor
  · rintro h s message entries rfl rfl hlen hopen hentries
    exact (intact_of_entries_iff hlen hopen hentries).1 h
  · intro h
    by_cases hloop : ReachesLoop session keyMessage keyLength
    · obtain ⟨s, message, entries, rfl, rfl, hlen, hopen, hentries⟩ := hloop
      exact (intact_of_entries_iff hlen hopen hentries).2
        (h s message entries rfl rfl hlen hopen hentries)
    · obtain ⟨-, hsession, hcalls⟩ := opencdmSessionUpdate_of_refused hloop
      exact fun _ => Intact.of_eq hsession hcalls

/-- The `keyids` init data `\x7b"kids":["AQ"]\x7d`. -/
def sampleInitData : Bytes := ascii "\x7b\"kids\":[\"AQ\"]\x7d"

/-- A session fresh from `opencdm_construct_session`, with all callbacks set. -/
def sampleSession : OpenCDMSession where
  sessionId := "clearkey-session-1"
  callbacks := some ⟨true, true, true⟩
  userData := 0
  requestedKeyIds := [[1]]
  keys := ∅
  closed := false

theorem sampleSession_reachable : Reachable sampleSession := by
  have hkids : decodeKeyIds (jsonStringValues (sampleInitData.take (15 : UInt16).toNat)
      (ascii "kids")) = [[1]] := by decide +kernel
  have hconstruct : (opencdmConstructSession 0 (some ⟨"org.w3.clearkey"⟩) (some "keyids")
      sampleInitData 15 (some ⟨true, true, true⟩) 0 true true).session = some sampleSession := by
    simp only [opencdmConstructSession, hkids]
    rfl
  exact Reachable.of_construct hconstruct

/-- A response whose first entry decodes and whose second does not. -/
def halfGoodResponse : Bytes :=
  ascii "\x7b\"keys\":[\x7b\"kid\":\"AQ\",\"k\":\"Ag\"\x7d,\x7b\"kid\":\"Aw\",\"k\":\"!\"\x7d]\x7d"

/-- A failed update of a reachable session that stores a key nevertheless. -/
theorem opencdmSessionUpdate_not_atomic :
    ¬ ∀ (s : OpenCDMSession) (message : Bytes) (keyLength : UInt16), Reachable s →
      (opencdmSessionUpdate (some s) (some message) keyLength).error ≠ .errorNone →
      Intact (some s) (opencdmSessionUpdate (some s) (some message) keyLength) := by
  intro h
  have := (h sampleSession halfGoodResponse (UInt16.ofNat halfGoodResponse.length)
    sampleSession_reachable (by decide +kernel)).status (some [1]) 1
  revert this
  decide +kernel

/-! ### Announcements -/

/-- The announcements of an update are truthful: one per key id of the response in its order, then
the batch signal, and the queries answer for each announced `(bytes, length)`. -/
structure Truthful (userData : ℕ) (kids : List Bytes) (reply : Reply) : Prop where
  /-- One `key_update` per entry, then one `keys_updated`. -/
  sequence : reply.calls = (kids.map fun kid =>
    .keyUpdate userData kid (UInt8.ofNat kid.length)) ++ [.keysUpdated userData]
  /-- What is announced is usable and held. -/
  usable : ∀ u keyId length, .keyUpdate u keyId length ∈ reply.calls →
    opencdmSessionStatus reply.session (some keyId) length = .usable ∧
      opencdmSessionHasKeyId reply.session length (some keyId) = 1

theorem toNat_announcedLength (kid : Bytes) :
    (UInt8.ofNat kid.length).toNat = kid.length % 256 := UInt8.toNat_ofNat'

/-- A key id is found under the announced length exactly when that length is not zero and that much
of it is stored. -/
theorem usable_announced_iff {s : OpenCDMSession} {kid : Bytes} :
    (opencdmSessionStatus (some s) (some kid) (UInt8.ofNat kid.length) = .usable ∧
        opencdmSessionHasKeyId (some s) (UInt8.ofNat kid.length) (some kid) = 1) ↔
      kid.length % 256 ≠ 0 ∧ s.keys.contains (kid.take (kid.length % 256)) = true := by
  have hzero : UInt8.ofNat kid.length ≠ 0 ↔ kid.length % 256 ≠ 0 := by
    rw [← toNat_announcedLength, ne_eq, ne_eq, ← UInt8.toNat_inj]
    rfl
  rw [opencdmSessionStatus_eq_usable_iff, opencdmSessionHasKeyId_eq_one_iff, and_self, hzero,
    toNat_announcedLength]

theorem usable_announced_of_lt {s : OpenCDMSession} {kid : Bytes} (hkid : kid ≠ [])
    (hlt : kid.length < 256) (hmem : s.keys.contains kid = true) :
    kid.length % 256 ≠ 0 ∧ s.keys.contains (kid.take (kid.length % 256)) = true := by
  have hpos := List.length_pos_iff.2 hkid
  rw [Nat.mod_eq_of_lt hlt, List.take_length]
  exact ⟨by omega, hmem⟩

/-- **When the announcements of an update are truthful**: the announced length is the length modulo
256, so a key id of 256 bytes or more is announced truthfully exactly when the part of it that the
announced length leaves is not empty and is stored as well. -/
theorem opencdmSessionUpdate_truthful_iff {s : OpenCDMSession} {message : Bytes}
    {keyLength : UInt16} {processChallenge : Bool}
    (hcallbacks : s.callbacks = some ⟨processChallenge, true, true⟩)
    (hok : (opencdmSessionUpdate (some s) (some message) keyLength).error = .errorNone) :
    Truthful s.userData (responseKids (message.take keyLength.toNat))
        (opencdmSessionUpdate (some s) (some message) keyLength) ↔
      ∀ kid ∈ responseKids (message.take keyLength.toNat), 256 ≤ kid.length →
        kid.length % 256 ≠ 0 ∧
          (kid.take (kid.length % 256) ∈ responseKids (message.take keyLength.toNat) ∨
            s.keys.contains (kid.take (kid.length % 256)) = true) := by
  obtain ⟨entries, hentries, hall, heq⟩ := opencdmSessionUpdate_of_errorNone hok
  rw [heq]
  set kids := responseKids (message.take keyLength.toNat)
  have hpairs : (decodedEntries entries).map Prod.fst = kids :=
    map_fst_decodedEntries hentries hall
  have hcalls : updateCalls s kids = (kids.map fun kid =>
      .keyUpdate s.userData kid (UInt8.ofNat kid.length)) ++ [.keysUpdated s.userData] := by
    simp [updateCalls, hcallbacks]
  have hheld : ∀ kid : Bytes, (override s.keys (decodedEntries entries)).contains kid = true ↔
      kid ∈ kids ∨ s.keys.contains kid = true := by
    intro kid
    rw [contains_override, hpairs]
  constructor
  · intro h kid hkid _
    have hcall : .keyUpdate s.userData kid (UInt8.ofNat kid.length) ∈ updateCalls s kids := by
      rw [hcalls]
      exact List.mem_append_left _ (List.mem_map_of_mem hkid)
    have := usable_announced_iff.1 (h.usable _ _ _ hcall)
    rwa [hheld] at this
  · intro h
    refine ⟨hcalls, fun u keyId length hcall => ?_⟩
    simp only [hcalls] at hcall
    rw [List.mem_append, List.mem_singleton, List.mem_map] at hcall
    rcases hcall with ⟨kid, hkid, hcall⟩ | hcall
    · obtain ⟨-, rfl, rfl⟩ := CallbackCall.keyUpdate.inj hcall
      rw [usable_announced_iff]
      -- up to 255 bytes the announced length is the length
      by_cases hlt : kid.length < 256
      · have hne : kid ≠ [] := by
          rw [← hpairs, List.mem_map] at hkid
          obtain ⟨p, hp, rfl⟩ := hkid
          exact (ne_nil_of_mem_decodedEntries p hp).1
        exact usable_announced_of_lt hne hlt ((hheld kid).2 (Or.inl hkid))
      · rw [hheld]
        exact h kid hkid (by omega)
    · simp at hcall

/-- A response with one entry, whose key id is `a`, in base64url. -/
def oneEntryResponse (a : Bytes) : Bytes :=
  ascii "\x7b\"keys\":[\x7b\"kid\":\"" ++ a ++ ascii "\",\"k\":\"Ag\"\x7d]\x7d"

/-- A response with three entries, the key ids of which are short, and the last that of the first. -/
def threeEntryResponse : Bytes :=
  ascii "\x7b\"keys\":[\x7b\"kid\":\"AQ\",\"k\":\"Ag\"\x7d,\x7b\"kid\":\"AgM\",\"k\":\"BA\"\x7d," ++
    ascii "\x7b\"kid\":\"AQ\",\"k\":\"BQ\"\x7d]\x7d"

/-- The announcements of that update are truthful. -/
theorem opencdmSessionUpdate_truthful_short :
    Truthful 0 [[1], [2, 3], [1]] (opencdmSessionUpdate (some sampleSession)
      (some threeEntryResponse) (UInt16.ofNat threeEntryResponse.length)) := by
  have hkids : responseKids (threeEntryResponse.take (UInt16.ofNat
      threeEntryResponse.length).toNat) = [[1], [2, 3], [1]] := by decide +kernel
  have hiff := opencdmSessionUpdate_truthful_iff (s := sampleSession) rfl
    (show (opencdmSessionUpdate (some sampleSession) (some threeEntryResponse)
      (UInt16.ofNat threeEntryResponse.length)).error = .errorNone by decide +kernel)
  rw [hkids] at hiff
  exact hiff.2 (by decide)

/-- A key id of 256 bytes is announced with length 0, for which the queries know no key. -/
theorem opencdmSessionUpdate_not_truthful :
    ¬ ∀ (s : OpenCDMSession) (message : Bytes) (keyLength : UInt16), Reachable s →
      s.callbacks = some ⟨true, true, true⟩ →
      (opencdmSessionUpdate (some s) (some message) keyLength).error = .errorNone →
      Truthful s.userData (responseKids (message.take keyLength.toNat))
        (opencdmSessionUpdate (some s) (some message) keyLength) := by
  intro h
  have hcall : .keyUpdate 0 (List.replicate 256 0) 0 ∈ (opencdmSessionUpdate (some sampleSession)
      (some (oneEntryResponse (List.replicate 342 65))) 372).calls := by decide +kernel
  have := ((h sampleSession (oneEntryResponse (List.replicate 342 65)) 372
    sampleSession_reachable rfl (by decide +kernel)).usable _ _ _ hcall).1
  revert this
  decide +kernel

end ClearKey
