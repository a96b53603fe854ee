/-
**JWK-set licences.**

What an update does with a response that is a JWK set: the licence of well-formed pairs is applied
exactly, and the keys of a set of incomplete objects go under key ids of their own objects exactly
when the two scans stay aligned.

Main definitions:

* `ClearKey.WellFormed` — the values of a set are genuine base64url texts;
* `ClearKey.associations`, `ClearKey.stored` — the associations an update stores, as stretches of
  the response;
* `ClearKey.OfOneObject` — an association is the `"kid"` and the `"k"` of one object;
* `ClearKey.Aligned` — the objects are complete and no `"k"` value is mistaken for a `"kid"`.

Main results:

* `ClearKey.opencdmSessionUpdate_pairs` — **the licence of a list of pairs is applied exactly**;
* `ClearKey.opencdmSessionUpdate_ofOneObject_iff` — **when every key is stored under a key id of
  its own object**.
-/
import RialtoConformance.ClearKey.Canonical
import RialtoConformance.ClearKey.JwkScan
import RialtoConformance.ClearKey.Licence

set_option relaxedAutoImplicit false
set_option autoImplicit false

namespace ClearKey

open Text Override

/-! ### Members of a set -/

/-- A member of a set: the `"type"` member, or a member of an object with its value there. -/
theorem mem_members {jwks : List Jwk} {typed : Bool} {m : Member} (hm : m ∈ members jwks typed) :
    m = typeMember jwks ∨
      ∃ o, jwks[m.owner]? = some o ∧ m.field ∈ o.order ∧ m.value = o.value m.field := by
  rw [members, List.mem_append] at hm
  rcases hm with hm | hm
  · obtain ⟨i, o, ho, howner, hfield, hvalue⟩ := mem_objects_flatten.1 hm
    rw [Nat.zero_add] at howner
    exact Or.inr ⟨o, by rw [howner, ho], hfield, hvalue⟩
  · cases typed with
    | false => simp at hm
    | true => exact Or.inl (by simpa using hm)

/-- A value that is the name `kid` or `k` is the value of a `"kid"` or a `"k"` member. -/
theorem field_of_value_eq {jwks : List Jwk} {typed : Bool} {m : Member} {f : Field}
    (hm : m ∈ members jwks typed) (hf : f = .kid ∨ f = .k) (hvalue : m.value = f.name) :
    m.field = .kid ∨ m.field = .k := by
  rcases mem_members hm with rfl | ⟨o, -, hfield, hval⟩
  · rcases hf with rfl | rfl <;> exact absurd hvalue (by simp only [typeMember]; decide)
  · cases hmf : m.field with
    | kid => exact Or.inl rfl
    | k => exact Or.inr rfl
    | kty =>
        rw [hmf] at hval
        rw [hval] at hvalue
        rcases hf with rfl | rfl <;> exact absurd hvalue (by simp only [Jwk.value]; decide)
    | type =>
        rw [hmf, o.order_perm.mem_iff] at hfield
        revert hfield
        cases o.kid <;> cases o.k <;> simp

theorem object_of_mem_members {jwks : List Jwk} {typed : Bool} {m : Member}
    (hm : m ∈ members jwks typed) (hf : m.field ≠ .type) :
    ∃ o, jwks[m.owner]? = some o ∧ m.field ∈ o.order ∧ m.value = o.value m.field := by
  rcases mem_members hm with rfl | hobject
  · exact absurd rfl hf
  · exact hobject

theorem kid_of_mem_members {jwks : List Jwk} {typed : Bool} {m : Member}
    (hm : m ∈ members jwks typed) (hf : m.field = .kid) :
    ∃ o, jwks[m.owner]? = some o ∧ o.kid = some m.value := by
  obtain ⟨o, ho, hfield, hvalue⟩ := object_of_mem_members hm (by simp [hf])
  rw [hf] at hfield hvalue
  obtain ⟨v, hv⟩ := Option.isSome_iff_exists.1 (o.kid_mem_order.1 hfield)
  refine ⟨o, ho, ?_⟩
  rw [hvalue, Jwk.value, hv, Option.getD_some]

theorem k_of_mem_members {jwks : List Jwk} {typed : Bool} {m : Member}
    (hm : m ∈ members jwks typed) (hf : m.field = .k) :
    ∃ o, jwks[m.owner]? = some o ∧ o.k = some m.value := by
  obtain ⟨o, ho, hfield, hvalue⟩ := object_of_mem_members hm (by simp [hf])
  rw [hf] at hfield hvalue
  obtain ⟨v, hv⟩ := Option.isSome_iff_exists.1 (o.k_mem_order.1 hfield)
  refine ⟨o, ho, ?_⟩
  rw [hvalue, Jwk.value, hv, Option.getD_some]

theorem jwkSet_ne_nil {jwks : List Jwk} {typed : Bool} : jwkSet jwks typed ≠ [] := by
  rw [jwkSet, jwkSetToks_eq]
  exact List.cons_ne_nil _ _

/-! ### Genuine values are no names -/

/-- **A well-formed set**: the values of its objects are genuine base64url texts. -/
def WellFormed (jwks : List Jwk) : Prop :=
  ∀ o ∈ jwks, ∀ v, o.kid = some v ∨ o.k = some v → Genuine v

/-- No name is a genuine text: bits of `kid`, and the one character of `k`, are left over. -/
theorem not_genuine_name {f : Field} (hf : f = .kid ∨ f = .k) : ¬ Genuine f.name := by
  intro h
  rcases hf with rfl | rfl
  · exact absurd h.leftover (by decide +kernel)
  · exact absurd h.dangling (by decide +kernel)

theorem value_ne_name {jwks : List Jwk} {typed : Bool} (h : WellFormed jwks) {f : Field}
    (hf : f = .kid ∨ f = .k) {m : Member} (hm : m ∈ members jwks typed) : m.value ≠ f.name := by
  intro hvalue
  have hgenuine : Genuine m.value := by
    rcases field_of_value_eq hm hf hvalue with hkid | hk
    · obtain ⟨o, ho, hv⟩ := kid_of_mem_members hm hkid
      exact h o (List.mem_of_getElem? ho) _ (Or.inl hv)
    · obtain ⟨o, ho, hv⟩ := k_of_mem_members hm hk
      exact h o (List.mem_of_getElem? ho) _ (Or.inr hv)
  rw [hvalue] at hgenuine
  exact not_genuine_name hf hgenuine

theorem wellFormed_pairs (pairs : List (Bytes × Bytes)) : WellFormed (pairs.map Jwk.ofPair) := by
  intro o ho v hv
  obtain ⟨p, -, rfl⟩ := List.mem_map.1 ho
  rcases hv with hv | hv
  · obtain rfl := Option.some.inj hv
    exact genuine_encode p.1
  · obtain rfl := Option.some.inj hv
    exact genuine_encode p.2

/-! ### Well-formed licences -/

theorem order_ofPair {p : Bytes × Bytes} {f : Field} (hf : f ≠ .type) :
    f ∈ (Jwk.ofPair p).order := by
  cases f
  · simp [Jwk.ofPair]
  · simp [Jwk.ofPair]
  · simp [Jwk.ofPair]
  · exact absurd rfl hf

theorem map_value_owned_pairs {f : Field} (hf : f ≠ .type) : ∀ (pairs : List (Bytes × Bytes))
    (j : ℕ), (owned f (pairs.map Jwk.ofPair) j).map Member.value =
      pairs.map fun p => (Jwk.ofPair p).value f := by
  intro pairs
  induction pairs with
  | nil => intro j; rfl
  | cons p pairs ih =>
      intro j
      rw [List.map_cons, owned, if_pos (order_ofPair hf), List.map_append, ih, List.map_cons]
      rfl

theorem unmistaken_pairs {pairs : List (Bytes × Bytes)} {typed : Bool} {f : Field}
    (hf : f = .kid ∨ f = .k) : Unmistaken f.name (members (pairs.map Jwk.ofPair) typed) :=
  unmistaken_of_forall_ne fun _ hm _ => value_ne_name (wellFormed_pairs pairs) hf hm

theorem responseEntries_pairs {pairs : List (Bytes × Bytes)} (hne : pairs ≠ []) :
    responseEntries (jwkSet (pairs.map Jwk.ofPair) true) =
      some (pairs.map fun p => (base64UrlEncode p.1, base64UrlEncode p.2)) := by
  have hkids : jsonStringValues (jwkSet (pairs.map Jwk.ofPair) true) (ascii "kid") =
      pairs.map fun p => base64UrlEncode p.1 := by
    have h := jsonStringValues_of_unmistaken (f := .kid) (by decide)
      (@unmistaken_pairs pairs true _ (Or.inl rfl))
    rw [map_value_owned_pairs (by decide)] at h
    exact h
  have hkeys : jsonStringValues (jwkSet (pairs.map Jwk.ofPair) true) (ascii "k") =
      pairs.map fun p => base64UrlEncode p.2 := by
    have h := jsonStringValues_of_unmistaken (f := .k) (by decide)
      (@unmistaken_pairs pairs true _ (Or.inr rfl))
    rw [map_value_owned_pairs (by decide)] at h
    exact h
  simp only [responseEntries, hkids, hkeys]
  rw [if_neg (by simp [hne]), List.zip_map']

theorem decodeEntry_encode {p : Bytes × Bytes} (h : p.1 ≠ [] ∧ p.2 ≠ []) :
    decodeEntry (base64UrlEncode p.1, base64UrlEncode p.2) = some p := by
  simp [decodeEntry, base64UrlDecode_encode, h]

theorem decodedEntries_pairs : ∀ {pairs : List (Bytes × Bytes)},
    (∀ p ∈ pairs, p.1 ≠ [] ∧ p.2 ≠ []) →
      AllDecode (pairs.map fun p => (base64UrlEncode p.1, base64UrlEncode p.2)) ∧
        decodedEntries (pairs.map fun p => (base64UrlEncode p.1, base64UrlEncode p.2)) = pairs := by
  intro pairs
  induction pairs with
  | nil => intro _; exact ⟨by simp [AllDecode], rfl⟩
  | cons p pairs ih =>
      intro h
      have hp := decodeEntry_encode (h p (by simp))
      obtain ⟨hall, heq⟩ := ih fun q hq => h q (List.mem_cons_of_mem _ hq)
      rw [List.map_cons, allDecode_cons_of_some hp]
      refine ⟨hall, ?_⟩
      rw [decodedEntries, hp]
      exact congrArg _ heq

/-- **The licence of a list of pairs is applied exactly**: the update succeeds and the stored keys
are the prior ones overridden by the pairs in order. -/
theorem opencdmSessionUpdate_pairs {s : OpenCDMSession} {pairs : List (Bytes × Bytes)}
    (hopen : s.closed = false) (hne : pairs ≠ []) (hpairs : ∀ p ∈ pairs, p.1 ≠ [] ∧ p.2 ≠ [])
    (hlen : (jwkSet (pairs.map Jwk.ofPair) true).length ≤ 65535) :
    let licence := jwkSet (pairs.map Jwk.ofPair) true
    let reply := opencdmSessionUpdate (some s) (some licence) (UInt16.ofNat licence.length)
    reply.error = .errorNone ∧
      ∃ s', reply.session = some s' ∧ s' = { s with keys := override s.keys pairs } ∧
        ∀ kid, s'.keys[kid]? = (lastValue kid pairs).or s.keys[kid]? := by
  intro licence reply
  have hentries : responseEntries (licence.take (UInt16.ofNat licence.length).toNat) =
      some (pairs.map fun p => (base64UrlEncode p.1, base64UrlEncode p.2)) := by
    rw [take_toNat_length hlen, responseEntries_pairs hne]
  obtain ⟨hall, hdecoded⟩ := decodedEntries_pairs hpairs
  have heq : reply = _ := opencdmSessionUpdate_of_entries
    (ofNat_length_ne_zero jwkSet_ne_nil hlen) hopen hentries
  rw [if_pos hall, if_pos hall, hdecoded] at heq
  rw [heq]
  exact ⟨rfl, _, rfl, rfl, fun kid => getElem?_override⟩

def keyedSession : OpenCDMSession :=
  { sampleSession with keys := override ∅ [([1], [9]), ([3], [4])] }

/-- Three pairs, of which the last repeats the key id of the first. -/
def repeatedPairs : List (Bytes × Bytes) := [([1], [2]), ([5], [6, 7]), ([1], [8])]

/-- The licence of these pairs: the last one is stored in the place of the first, and of the key
that was there; the other key stays. -/
theorem opencdmSessionUpdate_pairs_repeated :
    let licence := jwkSet (repeatedPairs.map Jwk.ofPair) true
    let reply := opencdmSessionUpdate (some keyedSession) (some licence)
      (UInt16.ofNat licence.length)
    reply.error = .errorNone ∧ ∃ s', reply.session = some s' ∧ s'.keys[[(1 : UInt8)]]? = some [8] ∧
      s'.keys[[(5 : UInt8)]]? = some [6, 7] ∧ s'.keys[[(3 : UInt8)]]? = some [4] ∧
        s'.keys[[(7 : UInt8)]]? = none := by
  obtain ⟨herror, s', hs', -, hkeys⟩ := @opencdmSessionUpdate_pairs keyedSession repeatedPairs rfl
    (by decide) (by decide) (by decide +kernel)
  have hprior : ∀ kid : Bytes, keyedSession.keys[kid]? = lastValue kid [([1], [9]), ([3], [4])] := by
    intro kid
    rw [keyedSession, getElem?_override, Std.ExtTreeMap.getElem?_empty, Option.or_none]
  refine ⟨herror, s', hs', ?_, ?_, ?_, ?_⟩ <;> rw [hkeys, hprior] <;> decide

/-! ### Keys and their objects -/

/-- The associations an update stores, as stretches of the response: the `"kid"` and the `"k"`
values paired by position. -/
def associations (response : Bytes) : List (Span × Span) :=
  (jsonStringSpans response (ascii "kid")).zip (jsonStringSpans response (ascii "k"))

/-- The key id and the key an association stores. -/
def stored (response : Bytes) (a : Span × Span) : Bytes × Bytes :=
  ((base64UrlDecode (Span.of response a.1)).2, (base64UrlDecode (Span.of response a.2)).2)

/-- The value of a member stands at a stretch of the set. -/
structure Stands (jwks : List Jwk) (typed : Bool) (m : Member) (a : Span) : Prop where
  /-- It starts where the member's value does. -/
  start : (a.start, m) ∈ places (entries jwks typed) headerLength
  /-- It is the member's value. -/
  text : Span.of (jwkSet jwks typed) a = m.value

/-- **An association is the `"kid"` and the `"k"` of one object** of the set. -/
def OfOneObject (jwks : List Jwk) (typed : Bool) (a : Span × Span) : Prop :=
  ∃ j o kid key, jwks[j]? = some o ∧ o.kid = some kid ∧ o.k = some key ∧
    Stands jwks typed ⟨j, .kid, kid⟩ a.1 ∧ Stands jwks typed ⟨j, .k, key⟩ a.2

/-- **The two scans stay aligned.** -/
structure Aligned (jwks : List Jwk) (typed : Bool) : Prop where
  /-- Every object has both a `"kid"` and a `"k"`, or neither. -/
  complete : ∀ o ∈ jwks, o.kid.isSome ↔ o.k.isSome
  /-- A `"k"` that is the text `kid` is followed, if at all, by a `"kid"` member. -/
  unmistaken : (members jwks typed).IsChain fun m m' =>
    m.field = .k ∧ m.value = ascii "kid" → m'.field = .kid

/-- A `"k"` that is the text `kid` is the only value that can be mistaken for a `"kid"`. -/
theorem unmistaken_kid_iff {jwks : List Jwk} {typed : Bool} :
    Unmistaken Field.kid.name (members jwks typed) ↔
      (members jwks typed).IsChain fun m m' =>
        m.field = .k ∧ m.value = ascii "kid" → m'.field = .kid := by
  have hname : ∀ f : Field, f.name = Field.kid.name ↔ f = .kid := fun f =>
    Field.name_injective.eq_iff
  simp only [Unmistaken, hname]
  refine List.IsChain.iff_of_mem_imp fun m m' hm _ => ?_
  constructor
  · rintro h ⟨hfield, hvalue⟩
    rcases h hvalue with hk | hk
    · rw [hk] at hfield
      simp at hfield
    · exact hk
  · intro h hvalue
    rcases field_of_value_eq hm (Or.inl rfl) hvalue with hk | hk
    · exact Or.inl hk
    · exact Or.inr (h ⟨hk, hvalue⟩)

/-- In complete objects the `"kid"` and the `"k"` members of a name pair up by object. -/
theorem owner_eq_of_mem_zip_owned : ∀ {jwks : List Jwk} {j : ℕ},
    (∀ o ∈ jwks, o.kid.isSome ↔ o.k.isSome) →
      ∀ p ∈ (owned .kid jwks j).zip (owned .k jwks j), p.1.owner = p.2.owner := by
  intro jwks
  induction jwks with
  | nil => intro j _ p hp; simp [owned] at hp
  | cons o jwks ih =>
      intro j hcomplete p hp
      have ho : .kid ∈ o.order ↔ .k ∈ o.order := by
        rw [o.kid_mem_order, o.k_mem_order]
        exact hcomplete o (by simp)
      have ih := @ih (j + 1) fun o ho => hcomplete o (List.mem_cons_of_mem _ ho)
      rw [owned, owned] at hp
      by_cases hkid : .kid ∈ o.order
      · rw [if_pos hkid, if_pos (ho.1 hkid), List.singleton_append, List.singleton_append,
          List.zip_cons_cons, List.mem_cons] at hp
        rcases hp with rfl | hp
        · rfl
        · exact ih p hp
      · rw [if_neg hkid, if_neg (fun h => hkid (ho.2 h)), List.nil_append, List.nil_append] at hp
        exact ih p hp

theorem stands_of_mem_readMembers {jwks : List Jwk} {typed : Bool} {f : Field}
    {w : ℕ × Member} (hw : w ∈ readMembers f.name false (entries jwks typed) headerLength) :
    Stands jwks typed w.2 ⟨w.1, w.2.value.length⟩ where
  start := readMembers_sublist.mem hw
  text := span_of_mem_readMembers w hw

theorem mem_members_of_mem_readMembers {jwks : List Jwk} {typed : Bool} {key : Bytes}
    {w : ℕ × Member} (hw : w ∈ readMembers key false (entries jwks typed) headerLength) :
    w.2 ∈ members jwks typed := by
  rw [← map_snd_entries, ← map_snd_places _ headerLength]
  exact List.mem_map_of_mem (readMembers_sublist.mem hw)

/-- When no value is mistaken for a name, what was taken is a member of that name. -/
theorem field_of_mem_readMembers {jwks : List Jwk} {typed : Bool} {f : Field} {w : ℕ × Member}
    (h : Unmistaken f.name (members jwks typed))
    (hw : w ∈ readMembers f.name false (entries jwks typed) headerLength) : w.2.field = f := by
  rw [← map_snd_entries] at h
  exact Field.name_injective (readMembers_only_iff.2 ⟨by simp, h⟩ w hw)

theorem exists_mem_readMembers {jwks : List Jwk} {typed : Bool} {m : Member}
    (hm : m ∈ members jwks typed) :
    ∃ start, (start, m) ∈ readMembers m.field.name false (entries jwks typed) headerLength := by
  rw [← map_snd_entries, ← map_snd_places _ headerLength, List.mem_map] at hm
  obtain ⟨w, hw, rfl⟩ := hm
  refine ⟨w.1, filter_sublist_readMembers.mem (List.mem_filter.2 ⟨hw, ?_⟩)⟩
  simp

theorem mem_members_of_order {jwks : List Jwk} {typed : Bool} {j : ℕ} {o : Jwk} {f : Field}
    (ho : jwks[j]? = some o) (hf : f ∈ o.order) :
    (⟨j, f, o.value f⟩ : Member) ∈ members jwks typed :=
  List.mem_append_left _ (mem_objects_flatten.2 ⟨j, o, ho, by simp, hf, rfl⟩)

/-- When every entry decodes, no value is mistaken for a `"k"`: only a `"kid"` could be, and the
text `k` decodes to nothing. -/
theorem unmistaken_k_of_allDecode {jwks : List Jwk} {typed : Bool}
    {entries : List (Bytes × Bytes)} (hentries : responseEntries (jwkSet jwks typed) = some entries)
    (hall : AllDecode entries) : Unmistaken Field.k.name (members jwks typed) := by
  refine unmistaken_of_forall_ne fun m hm hname hvalue => ?_
  rcases field_of_value_eq hm (Or.inr rfl) hvalue with hkid | hk
  · obtain ⟨start, hread⟩ := exists_mem_readMembers hm
    have htaken : Field.k.name ∈ jsonStringValues (jwkSet jwks typed) (ascii "kid") := by
      have h := jsonStringValues_jwkSet jwks typed .kid
      rw [hkid] at hread
      rw [show ascii "kid" = Field.kid.name from rfl, h, ← hvalue]
      exact List.mem_map.2 ⟨_, hread, rfl⟩
    rw [← map_fst_responseEntries hentries, List.mem_map] at htaken
    obtain ⟨e, he, hfst⟩ := htaken
    have hstored : ((base64UrlDecode e.1).2, (base64UrlDecode e.2).2) ∈ decodedEntries entries := by
      rw [decodedEntries_eq_map hall]
      exact List.mem_map_of_mem he
    -- one character is six bits, too few for a byte
    have hempty : (base64UrlDecode Field.k.name).2 = [] := by decide +kernel
    rw [hfst, hempty] at hstored
    exact (ne_nil_of_mem_decodedEntries _ hstored).1 rfl
  · exact hname (by rw [hk])

/-- **Aligned scans pair the members of one object.** -/
theorem ofOneObject_of_aligned {jwks : List Jwk} {typed : Bool}
    (hk : Unmistaken Field.k.name (members jwks typed)) (h : Aligned jwks typed) :
    ∀ a ∈ associations (jwkSet jwks typed), OfOneObject jwks typed a := by
  have hkid : Unmistaken Field.kid.name (members jwks typed) := unmistaken_kid_iff.2 h.unmistaken
  intro a ha
  have hspans : associations (jwkSet jwks typed) =
      ((readMembers Field.kid.name false (entries jwks typed) headerLength).zip
        (readMembers Field.k.name false (entries jwks typed) headerLength)).map
          (Prod.map (fun w => ⟨w.1, w.2.value.length⟩) fun w => ⟨w.1, w.2.value.length⟩) := by
    rw [← List.zip_map, ← jsonStringSpans_jwkSet, ← jsonStringSpans_jwkSet]
    rfl
  rw [hspans, List.mem_map] at ha
  obtain ⟨⟨w, v⟩, hwv, rfl⟩ := ha
  obtain ⟨hw, hv⟩ := List.of_mem_zip hwv
  -- both scans take one member from each complete object, object by object
  have howner : w.2.owner = v.2.owner := by
    rw [← map_snd_entries] at hkid hk
    rw [readMembers_eq_filter hkid, readMembers_eq_filter hk] at hwv
    have hmem := List.mem_map_of_mem (f := Prod.map Prod.snd Prod.snd) hwv
    rw [← List.zip_map, map_snd_filter_places, map_snd_filter_places, map_snd_entries,
      filter_members (by decide), filter_members (by decide)] at hmem
    exact owner_eq_of_mem_zip_owned h.complete _ hmem
  obtain ⟨o, ho, hokid⟩ :=
    kid_of_mem_members (mem_members_of_mem_readMembers hw) (field_of_mem_readMembers hkid hw)
  obtain ⟨o', ho', hok⟩ :=
    k_of_mem_members (mem_members_of_mem_readMembers hv) (field_of_mem_readMembers hk hv)
  rw [← howner, ho, Option.some.injEq] at ho'
  subst ho'
  have hwfield : w.2 = ⟨w.2.owner, .kid, w.2.value⟩ := by
    rw [← field_of_mem_readMembers hkid hw]
  have hvfield : v.2 = ⟨w.2.owner, .k, v.2.value⟩ := by
    rw [← field_of_mem_readMembers hk hv, howner]
  refine ⟨w.2.owner, o, w.2.value, v.2.value, ho, hokid, hok, ?_, ?_⟩
  · rw [← hwfield]
    exact stands_of_mem_readMembers hw
  · rw [← hvfield]
    exact stands_of_mem_readMembers hv

/-- As many `"kid"` as `"k"` values: every stretch that was taken is in an association. -/
theorem map_fst_associations {response : Bytes} {entries : List (Bytes × Bytes)}
    (hentries : responseEntries response = some entries) :
    (associations response).map Prod.fst = jsonStringSpans response (ascii "kid") ∧
      (associations response).map Prod.snd = jsonStringSpans response (ascii "k") := by
  have hcount := (responseEntries_eq_some hentries).1
  simp only [jsonStringValues, List.length_map] at hcount
  exact ⟨List.map_fst_zip hcount.le, List.map_snd_zip hcount.ge⟩

theorem Stands.eq {jwks : List Jwk} {typed : Bool} {m m' : Member} {a : Span}
    (h : Stands jwks typed m a) (h' : Stands jwks typed m' a) : m = m' :=
  eq_of_mem_places h.start h'.start

/-- When every association is of one object, what the scan for a name takes is a member of that
name, of an object that has both. -/
theorem complete_of_mem_readMembers {jwks : List Jwk} {typed : Bool}
    {entries : List (Bytes × Bytes)} (hentries : responseEntries (jwkSet jwks typed) = some entries)
    (h : ∀ a ∈ associations (jwkSet jwks typed), OfOneObject jwks typed a) {f : Field}
    (hf : f = .kid ∨ f = .k) {w : ℕ × Member}
    (hw : w ∈ readMembers f.name false (ClearKey.entries jwks typed) headerLength) :
    w.2.field = f ∧ ∃ o, jwks[w.2.owner]? = some o ∧ o.kid.isSome ∧ o.k.isSome := by
  obtain ⟨hfst, hsnd⟩ := map_fst_associations hentries
  have hstands := stands_of_mem_readMembers hw
  have hspan : (⟨w.1, w.2.value.length⟩ : Span) ∈ jsonStringSpans (jwkSet jwks typed) f.name := by
    rw [jsonStringSpans_jwkSet]
    exact List.mem_map_of_mem hw
  -- the stretch that was taken is one side of an association, and stands for one member only
  rcases hf with rfl | rfl
  · rw [show Field.kid.name = ascii "kid" from rfl, ← hfst] at hspan
    obtain ⟨a, ha, heq⟩ := List.mem_map.1 hspan
    obtain ⟨j, o, kid, key, ho, hokid, hok, hkid, -⟩ := h a ha
    rw [heq] at hkid
    rw [hstands.eq hkid]
    exact ⟨rfl, o, ho, by rw [hokid]; rfl, by rw [hok]; rfl⟩
  · rw [show Field.k.name = ascii "k" from rfl, ← hsnd] at hspan
    obtain ⟨a, ha, heq⟩ := List.mem_map.1 hspan
    obtain ⟨j, o, kid, key, ho, hokid, hok, -, hk⟩ := h a ha
    rw [heq] at hk
    rw [hstands.eq hk]
    exact ⟨rfl, o, ho, by rw [hokid]; rfl, by rw [hok]; rfl⟩

/-- **Scans that pair the members of one object are aligned.** -/
theorem aligned_of_ofOneObject {jwks : List Jwk} {typed : Bool} {entries : List (Bytes × Bytes)}
    (hentries : responseEntries (jwkSet jwks typed) = some entries)
    (h : ∀ a ∈ associations (jwkSet jwks typed), OfOneObject jwks typed a) :
    Aligned jwks typed := by
  have hboth : ∀ {j : ℕ} {o : Jwk} {f : Field}, jwks[j]? = some o → f = .kid ∨ f = .k →
      f ∈ o.order → o.kid.isSome ∧ o.k.isSome := by
    intro j o f ho hf hmem
    obtain ⟨start, hread⟩ := exists_mem_readMembers (@mem_members_of_order jwks typed _ _ _ ho hmem)
    obtain ⟨-, o', ho', hsome⟩ := complete_of_mem_readMembers hentries h hf hread
    rw [ho] at ho'
    obtain rfl := Option.some.inj ho'
    exact hsome
  constructor
  · intro o ho
    obtain ⟨j, hj, rfl⟩ := List.getElem_of_mem ho
    have hget : jwks[j]? = some jwks[j] := List.getElem?_eq_getElem hj
    constructor
    · intro hsome
      exact (hboth hget (Or.inl rfl) (jwks[j].kid_mem_order.2 hsome)).2
    · intro hsome
      exact (hboth hget (Or.inr rfl) (jwks[j].k_mem_order.2 hsome)).1
  · rw [← unmistaken_kid_iff, ← map_snd_entries]
    refine ((@readMembers_only_iff _ _ false headerLength).1 fun w hw => ?_).2
    rw [(complete_of_mem_readMembers hentries h (Or.inl rfl) hw).1]

/-- **When every key is stored under a key id of its own object**: an update that succeeds on a set
stores the associations of the two scans, and each of them is the `"kid"` and the `"k"` of one
object exactly when the scans stay aligned. -/
theorem opencdmSessionUpdate_ofOneObject_iff {s : OpenCDMSession} {jwks : List Jwk} {typed : Bool}
    (hlen : (jwkSet jwks typed).length ≤ 65535)
    (hok : (opencdmSessionUpdate (some s) (some (jwkSet jwks typed))
      (UInt16.ofNat (jwkSet jwks typed).length)).error = .errorNone) :
    let response := jwkSet jwks typed
    let pairs := (associations response).map (stored response)
    (opencdmSessionUpdate (some s) (some response) (UInt16.ofNat response.length)).session =
        some { s with keys := override s.keys pairs } ∧
      ((∀ a ∈ associations response, OfOneObject jwks typed a) ↔ Aligned jwks typed) := by
  intro response pairs
  obtain ⟨entries, hentries, hall, heq⟩ := opencdmSessionUpdate_of_errorNone hok
  rw [take_toNat_length hlen] at hentries
  have hstored : pairs = decodedEntries entries := by
    rw [decodedEntries_eq_map hall, (responseEntries_eq_some hentries).2, jsonStringValues,
      jsonStringValues, List.zip_map, List.map_map]
    rfl
  constructor
  · rw [heq, hstored]
  · constructor
    · exact aligned_of_ofOneObject hentries
    · exact ofOneObject_of_aligned (unmistaken_k_of_allDecode hentries hall)

/-- Two complete objects, with a key each. -/
def completeObjects : List Jwk := [Jwk.ofPair ([1], [2]), Jwk.ofPair ([3, 4], [5])]

/-- Each of the two keys is stored under the key id of its own object. -/
theorem opencdmSessionUpdate_ofOneObject_two :
    (associations (jwkSet completeObjects false)).map (stored (jwkSet completeObjects false)) =
        [([1], [2]), ([3, 4], [5])] ∧
      ∀ a ∈ associations (jwkSet completeObjects false), OfOneObject completeObjects false a := by
  have haligned : Aligned completeObjects false := by
    refine ⟨?_, ?_⟩
    · simp [completeObjects, Jwk.ofPair]
    · decide +kernel
  refine ⟨by decide +kernel, ?_⟩
  exact (@opencdmSessionUpdate_ofOneObject_iff sampleSession completeObjects false
    (by decide +kernel) (by decide +kernel)).2.2 haligned

/-- Two incomplete objects: the first has only a `"kid"`, the second only a `"k"`. -/
def incompleteObjects : List Jwk :=
  [{ kid := some (ascii "AQ")
     k := none
     order := [.kty, .kid]
     order_perm := List.Perm.refl _
     kid_text := by rintro v ⟨⟩; decide +kernel
     k_text := by simp },
   { kid := none
     k := some (ascii "Ag")
     order := [.kty, .k]
     order_perm := List.Perm.refl _
     kid_text := by simp
     k_text := by rintro v ⟨⟩; decide +kernel }]

/-- The key of the second object is stored under the key id of the first. -/
theorem opencdmSessionUpdate_mispairs :
    ¬ ∀ (s : OpenCDMSession) (jwks : List Jwk) (typed : Bool), Reachable s →
      (jwkSet jwks typed).length ≤ 65535 →
      (opencdmSessionUpdate (some s) (some (jwkSet jwks typed))
        (UInt16.ofNat (jwkSet jwks typed).length)).error = .errorNone →
      ∀ kid key, ((opencdmSessionUpdate (some s) (some (jwkSet jwks typed))
        (UInt16.ofNat (jwkSet jwks typed).length)).session.bind fun s' => s'.keys[kid]?) =
          some key →
        s.keys[kid]? = some key ∨ ∃ o ∈ jwks, ∃ kidText keyText, o.kid = some kidText ∧
          o.k = some keyText ∧ (base64UrlDecode kidText).2 = kid ∧
            (base64UrlDecode keyText).2 = key := by
  intro h
  rcases h sampleSession incompleteObjects true sampleSession_reachable (by decide +kernel)
    (by decide +kernel) [1] [2] (by decide +kernel) with hprior | ⟨o, ho, a, b, ha, hb, -⟩
  · revert hprior
    decide +kernel
  · simp only [incompleteObjects, List.mem_cons, List.not_mem_nil, or_false] at ho
    rcases ho with rfl | rfl
    · simp at hb
    · simp at ha

end ClearKey
