/-
**Licence requests.**

The request `opencdm_construct_session` builds from its key ids, read back with the reader it uses
on `keyids` init data, and the length it is delivered with.

Main definitions:

* `ClearKey.kidsToks`, `ClearKey.requestToks` — a `"kids"` document, and the request, as tokens;
* `ClearKey.ReadsBack` — the reader takes exactly the key ids out of the request;
* `ClearKey.requestLength` — the length of the request, from the key ids;
* `ClearKey.DeliveredWhole` — the challenge is delivered once, with its full length.

Main results:

* `ClearKey.jsonStringValues_request` — **what the reader takes out of a request**;
* `ClearKey.readsBack_iff` — **when a request reads back**;
* `ClearKey.opencdmConstructSession_deliveredWhole_iff` — **when the challenge is delivered
  whole**.
-/
import RialtoConformance.ClearKey.Documents
import RialtoConformance.ClearKey.Session

set_option relaxedAutoImplicit false
set_option autoImplicit false

namespace ClearKey

open Text Quoted

/-! ### Documents with an array of strings -/

def wordToks (ws : List Bytes) : List (Tok UInt8) := commaSep (ws.map fun w => [str w])

/-- `\x7b"kids":[word,...]` and the rest of the document. -/
def kidsToks (ws : List Bytes) (rest : List (Tok UInt8)) : List (Tok UInt8) :=
  punct 123 :: str (ascii "kids") :: punct colon :: punct bracket ::
    (wordToks ws ++ punct endBracket :: rest)

theorem wordToks_cons (w : Bytes) (ws : List Bytes) :
    wordToks (w :: ws) = str w :: ws.flatMap fun w => [punct 44, str w] := by
  rw [wordToks, List.map_cons, commaSep_cons, List.flatMap_map]
  rfl

theorem mem_wordToks {ws : List Bytes} {t : Tok UInt8} (h : t ∈ wordToks ws) :
    t = punct 44 ∨ ∃ w ∈ ws, t = str w := by
  cases ws with
  | nil => simp [wordToks, commaSep] at h
  | cons w ws =>
      rw [wordToks_cons, List.mem_cons, List.mem_flatMap] at h
      rcases h with rfl | ⟨w', hw', h⟩
      · exact Or.inr ⟨w, by simp, rfl⟩
      · simp only [List.mem_cons, List.not_mem_nil, or_false] at h
        rcases h with rfl | rfl
        · exact Or.inl rfl
        · exact Or.inr ⟨w', List.mem_cons_of_mem _ hw', rfl⟩

private theorem arrayWords_flatMap : ∀ (ws : List Bytes) (rest : List (Tok UInt8)) (pos : ℕ),
    (arrayWords ((ws.flatMap fun w => [punct 44, str w]) ++ punct endBracket :: rest) pos).map
      Prod.snd = ws := by
  intro ws
  induction ws with
  | nil => intro rest pos; rw [List.flatMap_nil, List.nil_append, arrayWords, if_pos rfl]; rfl
  | cons w ws ih =>
      intro rest pos
      rw [List.flatMap_cons, List.append_assoc, List.cons_append, List.cons_append, arrayWords,
        if_neg (by decide), arrayWords, List.map_cons, List.nil_append, ih]

/-- **The words of an array are its members.** -/
theorem arrayWords_wordToks (ws : List Bytes) (rest : List (Tok UInt8)) (pos : ℕ) :
    (arrayWords (wordToks ws ++ punct endBracket :: rest) pos).map Prod.snd = ws := by
  cases ws with
  | nil => exact arrayWords_flatMap [] rest pos
  | cons w ws =>
      rw [wordToks_cons, List.cons_append, arrayWords, List.map_cons, arrayWords_flatMap]

theorem isDocumentTok_of_mem_kidsToks {ws : List Bytes} {rest : List (Tok UInt8)}
    (hws : ∀ w ∈ ws, ∀ c ∈ w, IsBase64Url c) (hrest : ∀ t ∈ rest, IsDocumentTok t) :
    ∀ t ∈ kidsToks ws rest, IsDocumentTok t := by
  intro t ht
  simp only [kidsToks, List.mem_cons, List.mem_append] at ht
  rcases ht with rfl | rfl | rfl | rfl | ht | rfl | ht
  · exact isDocumentTok_punct.2 (by simp)
  · exact (by decide +kernel : ∀ c ∈ ascii "kids", IsBase64Url c)
  · exact isDocumentTok_punct.2 (by simp)
  · exact isDocumentTok_punct.2 (by simp)
  · rcases mem_wordToks ht with rfl | ⟨w, hw, rfl⟩
    · exact isDocumentTok_punct.2 (by simp)
    · exact hws w hw
  · exact isDocumentTok_punct.2 (by simp)
  · exact hrest t ht

/-- What the reader takes out of a `"kids"` document: the members of the array, and what it finds
when it searches on, inside the array. -/
theorem jsonStringValues_kidsToks {ws : List Bytes} {rest : List (Tok UInt8)}
    (hws : ∀ w ∈ ws, ∀ c ∈ w, IsAlphabet c) (hrest : ∀ t ∈ rest, IsDocumentTok t) :
    jsonStringValues (text (kidsToks ws rest)) (ascii "kids") =
      ws ++ (scanToks (ascii "kids") (wordToks ws ++ punct endBracket :: rest) 9).map
        Prod.snd := by
  have hwords : ∀ w ∈ ws, ∀ c ∈ w, IsBase64Url c := fun w hw c hc => Or.inl (hws w hw c hc)
  have hread : ∀ t ∈ kidsToks ws rest, Readable (ascii "kids") t := fun t ht =>
    (isDocumentTok_of_mem_kidsToks hwords hrest t ht).readable (by decide +kernel)
  rw [jsonStringValues_render (by decide) (by decide) hread, kidsToks,
    scanToks_cons_of_ne (by simp), scanToks_array, List.map_append, arrayWords_wordToks]
  rfl

theorem jsonStringValues_kidsToks_of_not_mem {ws : List Bytes} {rest : List (Tok UInt8)}
    (hws : ∀ w ∈ ws, ∀ c ∈ w, IsAlphabet c) (hrest : ∀ t ∈ rest, IsDocumentTok t)
    (hkids : ascii "kids" ∉ ws) (hname : str (ascii "kids") ∉ rest) :
    jsonStringValues (text (kidsToks ws rest)) (ascii "kids") = ws := by
  have hnone : ∀ t ∈ wordToks ws ++ punct endBracket :: rest, t ≠ .word (ascii "kids") := by
    rintro t ht rfl
    rw [List.mem_append, List.mem_cons] at ht
    rcases ht with ht | ht | ht
    · rcases mem_wordToks ht with h | ⟨w, hw, h⟩
      · simp at h
      · obtain rfl := Tok.word.inj h
        exact hkids hw
    · simp at ht
    · exact hname ht
  rw [jsonStringValues_kidsToks hws hrest, scanToks_of_forall_ne hnone, List.map_nil,
    List.append_nil]

/-! ### The request -/

/-- What stands behind the array of a request: `,"type":"temporary"\x7d`. -/
def requestTail : List (Tok UInt8) :=
  [punct 44, str (ascii "type"), punct colon, str (ascii "temporary"), punct 125]

theorem isDocumentTok_of_mem_requestTail : ∀ t ∈ requestTail, IsDocumentTok t := by
  intro t ht
  simp only [requestTail, List.mem_cons, List.not_mem_nil, or_false] at ht
  rcases ht with rfl | rfl | rfl | rfl | rfl
  · exact isDocumentTok_punct.2 (by simp)
  · exact (by decide +kernel : ∀ c ∈ ascii "type", IsBase64Url c)
  · exact isDocumentTok_punct.2 (by simp)
  · exact (by decide +kernel : ∀ c ∈ ascii "temporary", IsBase64Url c)
  · exact isDocumentTok_punct.2 (by simp)

theorem joinKids_eq : ∀ kids : List Bytes,
    joinKids kids = text (wordToks (kids.map base64UrlEncode)) := by
  intro kids
  fun_induction joinKids kids with
  | case1 => rfl
  | case2 kid => simp [wordToks, commaSep, quotedKid, render_cons_word]
  | case3 kid kid' kids ih =>
      rw [ih, List.map_cons, List.map_cons, wordToks_cons, wordToks_cons]
      simp [quotedKid, ascii, render_cons_word, render_cons_sym]

/-- **The request is a `"kids"` document.** -/
theorem licenceRequest_eq (kids : List Bytes) :
    licenceRequest kids = text (kidsToks (kids.map base64UrlEncode) requestTail) := by
  rw [licenceRequest, joinKids_eq, kidsToks, requestTail]
  simp [ascii, colon, bracket, endBracket, render_cons_word, render_cons_sym, render_append]
  rfl

/-! ### Reading a request back -/

/-- The next colon behind the words of an array is the one of the `"type"` member. -/
private theorem nextTok_colon_tail (ws : List Bytes) (pos : ℕ) :
    ∃ s, nextTok (.sym colon)
      ((ws.flatMap fun w => [punct 44, str w]) ++ punct endBracket :: requestTail) pos =
        some (s, [str (ascii "temporary"), punct 125]) := by
  have hmem : Tok.sym colon ∉ (ws.flatMap fun w => [punct 44, str w]) ++
      [punct endBracket, punct 44, str (ascii "type")] := by
    rw [List.mem_append, List.mem_flatMap]
    rintro (⟨w, -, hw⟩ | h)
    · revert hw
      simp [colon]
    · revert h
      simp [colon, endBracket]
  have h := nextTok_append [punct colon, str (ascii "temporary"), punct 125] pos hmem
  rw [nextTok, if_pos rfl, List.append_assoc] at h
  exact ⟨_, h⟩

/-- Searching behind a key id that is encoded as `kids` finds the value of the `"type"` member. -/
private theorem scanToks_kids_tail (ws : List Bytes) (pos : ℕ) :
    (scanToks (ascii "kids") (str (ascii "kids") ::
      ((ws.flatMap fun w => [punct 44, str w]) ++ punct endBracket :: requestTail)) pos).map
        Prod.snd = [ascii "temporary"] := by
  obtain ⟨s, hsep⟩ := nextTok_colon_tail ws (pos + ((ascii "kids").length + 2))
  have hname : nextTok (.word (ascii "kids")) (str (ascii "kids") ::
      ((ws.flatMap fun w => [punct 44, str w]) ++ punct endBracket :: requestTail)) pos =
        some (pos, (ws.flatMap fun w => [punct 44, str w]) ++ punct endBracket :: requestTail) := by
    rw [nextTok, if_pos rfl]
  have hend : ∀ t ∈ [punct 125], t ≠ .word (ascii "kids") := by simp
  rw [scanToks_of_string hname hsep rfl, scanToks_of_forall_ne hend]
  rfl

private theorem scanToks_flatMap_tail : ∀ (ws : List Bytes) (pos : ℕ),
    (scanToks (ascii "kids")
      ((ws.flatMap fun w => [punct 44, str w]) ++ punct endBracket :: requestTail) pos).map
        Prod.snd = if ascii "kids" ∈ ws then [ascii "temporary"] else [] := by
  intro ws
  induction ws with
  | nil =>
      intro pos
      have hnone : ∀ t ∈ punct endBracket :: requestTail, t ≠ .word (ascii "kids") := by
        decide +kernel
      rw [List.flatMap_nil, List.nil_append, scanToks_of_forall_ne hnone]
      rfl
  | cons w ws ih =>
      intro pos
      rw [List.flatMap_cons, List.append_assoc, List.cons_append, List.cons_append,
        List.nil_append, scanToks_cons_of_ne (by simp)]
      by_cases hw : w = ascii "kids"
      · rw [hw, scanToks_kids_tail, if_pos (by simp)]
      · rw [scanToks_cons_of_ne (by simpa using hw), ih]
        simp only [List.mem_cons, Ne.symm hw, false_or]

/-- **What the reader takes out of a request**: the encoded key ids, and the value of the `"type"`
member if one of them is encoded as `kids`. -/
theorem jsonStringValues_request (kids : List Bytes) :
    jsonStringValues (licenceRequest kids) (ascii "kids") =
      kids.map base64UrlEncode ++
        if ascii "kids" ∈ kids.map base64UrlEncode then [ascii "temporary"] else [] := by
  have hws : ∀ w ∈ kids.map base64UrlEncode, ∀ c ∈ w, IsAlphabet c := by
    intro w hw c hc
    obtain ⟨kid, -, rfl⟩ := List.mem_map.1 hw
    exact isAlphabet_of_mem_encode hc
  rw [licenceRequest_eq, jsonStringValues_kidsToks hws isDocumentTok_of_mem_requestTail]
  refine congrArg _ ?_
  cases kids with
  | nil => exact scanToks_flatMap_tail [] 9
  | cons kid kids =>
      rw [List.map_cons, wordToks_cons, List.cons_append]
      by_cases hkid : base64UrlEncode kid = ascii "kids"
      · rw [hkid, scanToks_kids_tail, if_pos (by simp)]
      · rw [scanToks_cons_of_ne (by simpa using hkid), scanToks_flatMap_tail]
        simp only [List.mem_cons, Ne.symm hkid, false_or]

theorem decodeKeyIds_encode : ∀ {kids : List Bytes} (values : List Bytes),
    (∀ kid ∈ kids, kid ≠ []) →
      decodeKeyIds (kids.map base64UrlEncode ++ values) = kids ++ decodeKeyIds values := by
  intro kids
  induction kids with
  | nil => intro values _; rfl
  | cons kid kids ih =>
      intro values h
      have hkid := h kid (by simp)
      have ih := ih values fun kid hk => h kid (List.mem_cons_of_mem _ hk)
      rw [decodeKeyIds] at ih ⊢
      rw [List.map_cons, List.cons_append, List.filterMap_cons_some (b := kid), ih]
      · rfl
      · simp [base64UrlDecode_encode, hkid]

/-- The key id that is encoded as `kids`. -/
def namesake : Bytes := [0x92, 0x27, 0x6C]

theorem encode_eq_kids_iff {kid : Bytes} : base64UrlEncode kid = ascii "kids" ↔ kid = namesake := by
  have hnamesake : base64UrlEncode namesake = ascii "kids" := by decide +kernel
  constructor
  · intro h
    have hdecode := base64UrlDecode_encode kid
    rw [h, ← hnamesake, base64UrlDecode_encode] at hdecode
    exact (Prod.mk.inj hdecode).2.symm
  · rintro rfl
    exact hnamesake

/-- **The key ids read out of a request**: those it names, and the bytes of `temporary` if one of
them is the namesake. -/
theorem decodeKeyIds_request {kids : List Bytes} (hkids : ∀ kid ∈ kids, kid ≠ []) :
    decodeKeyIds (jsonStringValues (licenceRequest kids) (ascii "kids")) =
      kids ++ if namesake ∈ kids then [(base64UrlDecode (ascii "temporary")).2] else [] := by
  have hmem : ascii "kids" ∈ kids.map base64UrlEncode ↔ namesake ∈ kids := by
    rw [List.mem_map]
    constructor
    · rintro ⟨kid, hkid, h⟩
      rwa [encode_eq_kids_iff.1 h] at hkid
    · intro h
      exact ⟨namesake, h, encode_eq_kids_iff.2 rfl⟩
  rw [jsonStringValues_request, decodeKeyIds_encode _ hkids]
  refine congrArg _ ?_
  simp only [hmem]
  split
  · decide +kernel
  · rfl

/-- The request of a list of key ids reads back: the reader takes exactly the key ids out of it,
and so does a session constructed from it. -/
structure ReadsBack (kids : List Bytes) : Prop where
  /-- The reader. -/
  values : decodeKeyIds (jsonStringValues (licenceRequest kids) (ascii "kids")) = kids
  /-- A session. -/
  session : ∀ counter system callbacks userData,
    (opencdmConstructSession counter (some system) (some "keyids") (licenceRequest kids)
      (UInt16.ofNat (licenceRequest kids).length) callbacks userData true true).session.map
        (·.requestedKeyIds) = some kids

/-- **When a request reads back**: exactly when the namesake is not among its key ids.  Behind an
array the reader searches on inside it, finds the namesake's encoding, and takes the value of the
`"type"` member for a key id. -/
theorem readsBack_iff {kids : List Bytes} (hne : kids ≠ []) (hkids : ∀ kid ∈ kids, kid ≠ [])
    (hlen : (licenceRequest kids).length ≤ 65535) : ReadsBack kids ↔ namesake ∉ kids := by
  constructor
  · intro h hmem
    have hvalues := h.values
    rw [decodeKeyIds_request hkids, if_pos hmem] at hvalues
    simp at hvalues
  · intro hmem
    have hvalues : decodeKeyIds (jsonStringValues (licenceRequest kids) (ascii "kids")) = kids := by
      rw [decodeKeyIds_request hkids, if_neg hmem, List.append_nil]
    have hinit : initKids (licenceRequest kids) (UInt16.ofNat (licenceRequest kids).length) =
        kids := by
      rw [initKids, take_toNat_length hlen, hvalues]
    refine ⟨hvalues, fun counter system callbacks userData => ?_⟩
    rw [opencdmConstructSession_of_kids (by rwa [hinit]), hinit]
    rfl

/-- The request of three key ids of different lengths, one of them twice. -/
theorem readsBack_four : ReadsBack [[1], [2, 255, 0], [3, 4], [1]] :=
  (readsBack_iff (by decide) (by decide) (by decide +kernel)).2 (by decide)

/-- A request that does not read back. -/
theorem not_readsBack :
    ¬ ∀ kids : List Bytes, kids ≠ [] → (∀ kid ∈ kids, kid ≠ []) →
      (licenceRequest kids).length ≤ 65535 → ReadsBack kids := by
  intro h
  have hvalues := (h [namesake] (by decide) (by decide) (by decide +kernel)).values
  revert hvalues
  decide +kernel

/-! ### Delivering the challenge -/

/-- The length of a request: 29 characters of framing, and for each key id its encoding, two
quotation marks and a separator. -/
def requestLength (kids : List Bytes) : ℕ :=
  29 + (kids.map fun kid => (4 * kid.length + 2) / 3 + 3).sum

theorem length_joinKids : ∀ {kids : List Bytes}, kids ≠ [] →
    (joinKids kids).length + 1 = (kids.map fun kid => (4 * kid.length + 2) / 3 + 3).sum := by
  intro kids
  fun_induction joinKids kids with
  | case1 => intro h; exact absurd rfl h
  | case2 kid => intro _; simp [quotedKid]
  | case3 kid kid' kids ih =>
      intro _
      have ih := ih (by simp)
      have hcomma : (ascii ",").length = 1 := rfl
      rw [List.map_cons, List.sum_cons, ← ih]
      simp only [List.length_append, quotedKid, List.length_cons, List.length_nil, hcomma,
        length_base64UrlEncode]
      omega

/-- **The length of a request.** -/
theorem length_licenceRequest {kids : List Bytes} (hne : kids ≠ []) :
    (licenceRequest kids).length = requestLength kids := by
  have hopen : (ascii "\x7b\"kids\":[").length = 9 := rfl
  have hclose : (ascii "],\"type\":\"temporary\"\x7d").length = 21 := rfl
  have hjoin := length_joinKids hne
  rw [licenceRequest, List.length_append, List.length_append, hopen, hclose, requestLength]
  omega

/-- The challenge of a construction is delivered whole: once, and the length it is given is the
length of the request for the session's key ids. -/
def DeliveredWhole (userData : ℕ) (constructed : Constructed) : Prop :=
  ∃ s length, constructed.session = some s ∧
    constructed.calls = [.processChallenge userData [] (licenceRequest s.requestedKeyIds) length] ∧
    length.toNat = (licenceRequest s.requestedKeyIds).length

/-- **When the challenge is delivered whole**: the length is given modulo 65536, so exactly when
the request for the key ids of the init data has at most 65535 characters. -/
theorem opencdmConstructSession_deliveredWhole_iff {counter : UInt32}
    {system : Option OpenCDMSystem} {initDataType : Option String} {initData : Bytes}
    {initDataLength : UInt16} {callbacks : Option OpenCDMSessionCallbacks} {userData : ℕ}
    {sessionOut allocated : Bool}
    (hcallback : callbacks.any (·.processChallengeCallback) = true)
    (hok : (opencdmConstructSession counter system initDataType initData initDataLength callbacks
      userData sessionOut allocated).error = .errorNone) :
    DeliveredWhole userData (opencdmConstructSession counter system initDataType initData
        initDataLength callbacks userData sessionOut allocated) ↔
      requestLength (initKids initData initDataLength) ≤ 65535 := by
  obtain ⟨hsystem, rfl, rfl, rfl, hkids⟩ := of_opencdmConstructSession_errorNone hok
  obtain ⟨system, rfl⟩ := Option.isSome_iff_exists.1 hsystem
  have hlength := length_licenceRequest hkids
  rw [opencdmConstructSession_of_kids hkids, if_pos hcallback, ← hlength]
  constructor
  · rintro ⟨s, length, hs, hcalls, hwhole⟩
    obtain rfl := Option.some.inj hs
    obtain ⟨-, -, -, rfl⟩ := CallbackCall.processChallenge.inj (List.cons.inj hcalls).1
    rw [← hwhole]
    have := UInt16.toNat_lt (UInt16.ofNat
      (licenceRequest (initKids initData initDataLength)).length)
    omega
  · intro hle
    refine ⟨_, _, rfl, rfl, ?_⟩
    rw [UInt16.toNat_ofNat', Nat.mod_eq_of_lt (by omega)]

/-- The challenge for two short key ids. -/
theorem opencdmConstructSession_deliveredWhole_two :
    DeliveredWhole 0 (opencdmConstructSession 0 (some ⟨"org.w3.clearkey"⟩) (some "keyids")
      (ascii "\x7b\"kids\":[\"AQ\",\"AgM\"]\x7d") 21 (some ⟨true, true, true⟩) 0 true true) := by
  have hkids : initKids (ascii "\x7b\"kids\":[\"AQ\",\"AgM\"]\x7d") 21 = [[1], [2, 3]] := by
    decide +kernel
  have hiff := @opencdmConstructSession_deliveredWhole_iff 0 (some ⟨"org.w3.clearkey"⟩)
    (some "keyids") (ascii "\x7b\"kids\":[\"AQ\",\"AgM\"]\x7d") 21 (some ⟨true, true, true⟩) 0 true
    true rfl (by decide +kernel)
  rw [hkids] at hiff
  exact hiff.2 (by decide)

/-- Init data of one key id, written without a `"type"` member. -/
def compactInitData (kid : Bytes) : Bytes := text (kidsToks [base64UrlEncode kid] [punct 125])

theorem length_compactInitData (kid : Bytes) :
    (compactInitData kid).length = 13 + (4 * kid.length + 2) / 3 := by
  simp [compactInitData, kidsToks, wordToks, commaSep, render_cons_word, render_cons_sym, ascii]
  omega

theorem initKids_compact {kid : Bytes} (hne : kid ≠ []) (hkid : kid ≠ namesake)
    (hlen : (compactInitData kid).length ≤ 65535) :
    initKids (compactInitData kid) (UInt16.ofNat (compactInitData kid).length) = [kid] := by
  have hws : ∀ w ∈ [base64UrlEncode kid], ∀ c ∈ w, IsAlphabet c := by
    simpa using fun c hc => isAlphabet_of_mem_encode (c := c) hc
  have htail : ∀ t ∈ [punct 125], IsDocumentTok t := by
    intro t ht
    rw [List.mem_singleton.1 ht]
    exact isDocumentTok_punct.2 (by simp)
  have hname : ascii "kids" ∉ [base64UrlEncode kid] := by
    simpa using fun h => hkid (encode_eq_kids_iff.1 h.symm)
  have hone : ∀ k ∈ [kid], k ≠ [] := by simpa using hne
  have hread := decodeKeyIds_encode [] hone
  rw [initKids, take_toNat_length hlen, compactInitData,
    jsonStringValues_kidsToks_of_not_mem hws htail hname (by simp)]
  rw [List.append_nil] at hread
  exact hread

/-- Init data of 65535 bytes whose challenge is delivered with a length of 18. -/
theorem opencdmConstructSession_not_deliveredWhole :
    ¬ ∀ (counter : UInt32) (system : Option OpenCDMSystem) (initDataType : Option String)
        (initData : Bytes) (initDataLength : UInt16)
        (callbacks : Option OpenCDMSessionCallbacks) (userData : ℕ) (sessionOut allocated : Bool),
      callbacks.any (·.processChallengeCallback) = true →
      (opencdmConstructSession counter system initDataType initData initDataLength callbacks
        userData sessionOut allocated).error = .errorNone →
      DeliveredWhole userData (opencdmConstructSession counter system initDataType initData
        initDataLength callbacks userData sessionOut allocated) := by
  intro h
  set kid : Bytes := List.replicate 49141 0 with hkid
  -- without a "type" member the init data fits, while the request does not
  have hlen : (compactInitData kid).length = 65535 := by
    rw [length_compactInitData, hkid, List.length_replicate]
  have hnamesake : kid ≠ namesake := by
    intro heq
    have := congrArg List.length heq
    rw [hkid, List.length_replicate] at this
    simp [namesake] at this
  have hne : kid ≠ [] := by
    intro heq
    have := congrArg List.length heq
    rw [hkid, List.length_replicate] at this
    simp at this
  have hkids := initKids_compact hne hnamesake hlen.le
  have hsome : initKids (compactInitData kid) (UInt16.ofNat (compactInitData kid).length) ≠ [] := by
    simp [hkids]
  have hconstruct := @opencdmConstructSession_of_kids 0 ⟨"org.w3.clearkey"⟩ _ _
    (some ⟨true, true, true⟩) 0 hsome
  have hwhole := h 0 (some ⟨"org.w3.clearkey"⟩) (some "keyids") (compactInitData kid)
    (UInt16.ofNat (compactInitData kid).length) (some ⟨true, true, true⟩) 0 true true rfl
    (by rw [hconstruct])
  rw [hconstruct, hkids] at hwhole
  obtain ⟨s, length, hs, hcalls, hlength⟩ := hwhole
  obtain rfl := Option.some.inj hs
  have hbound := UInt16.toNat_lt length
  have hrequest := @length_licenceRequest [kid] (by simp)
  rw [hlength, hrequest, requestLength, List.map_singleton, List.sum_singleton, hkid,
    List.length_replicate] at hbound
  omega

end ClearKey
