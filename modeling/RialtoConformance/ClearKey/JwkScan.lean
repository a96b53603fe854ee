/-
**What the field scanner takes from a JWK set.**

The scanner searches for a quoted name wherever it stands, so a value that is the name itself makes
it take the value of the member behind.  This module says which members' values it takes, where
they stand, and when these are exactly the members of the name.

Main definitions:

* `ClearKey.places` — where the values of the members stand;
* `ClearKey.readMembers` — the members whose values the scanner takes for a field name;
* `ClearKey.Unmistaken` — no value is mistaken for a field name.

Main results:

* `ClearKey.jsonStringSpans_jwkSet`, `ClearKey.jsonStringValues_jwkSet` — **the scanner takes the
  values of the members `readMembers` names**;
* `ClearKey.readMembers_sublist` — it takes each place at most once and in order;
* `ClearKey.readMembers_only_iff`, `ClearKey.readMembers_eq_filter` — it takes exactly the members
  of that name when no value is mistaken for the name, and only then.
-/
import RialtoConformance.ClearKey.Documents

set_option relaxedAutoImplicit false
set_option autoImplicit false

namespace ClearKey

open Text Quoted

/-! ### What the scanner takes -/

/-- Where the value of a member starts whose punctuation starts at `pos`. -/
def Entry.start (e : Entry) (pos : ℕ) : ℕ := pos + e.1.length + e.2.field.name.length + 4

/-- Where the punctuation behind a member starts. -/
def Entry.next (e : Entry) (pos : ℕ) : ℕ := e.start pos + e.2.value.length + 1

/-- **Where the values of the members stand.** -/
def places : List Entry → ℕ → List (ℕ × Member)
  | [], _ => []
  | e :: es, pos => (e.start pos, e.2) :: places es (e.next pos)

/-- **The members whose values the scanner takes** for the field `key`: those of that name, and
the one behind a value that is the name itself (`hit`). -/
def readMembers (key : Bytes) : Bool → List Entry → ℕ → List (ℕ × Member)
  | _, [], _ => []
  | hit, e :: es, pos =>
      if hit = true ∨ e.2.field.name = key then
        (e.start pos, e.2) :: readMembers key false es (e.next pos)
      else readMembers key (decide (e.2.value = key)) es (e.next pos)

/-- A sequence of members the scanner can be read off: no colon in the punctuation. -/
def NoColon (es : List Entry) : Prop := ∀ e ∈ es, colon ∉ e.1

private theorem sizes_punct (cs : Bytes) : ((cs.map punct).map Tok.size).sum = cs.length := by
  induction cs with
  | nil => rfl
  | cons c cs ih => simp only [List.map_cons, List.sum_cons, ih, List.length_cons, Tok.size]; omega

private theorem word_not_mem_punct (s cs : Bytes) : Tok.word s ∉ cs.map punct := by simp [punct]

theorem scanToks_punct {key : Bytes} (cs : Bytes) (ts : List (Tok UInt8)) (pos : ℕ) :
    scanToks key (cs.map punct ++ ts) pos = scanToks key ts (pos + cs.length) := by
  refine scanToks_congr ?_
  rw [nextTok_append _ _ (word_not_mem_punct key cs), sizes_punct]

/-- A value that is the name itself makes the scanner take the value of the next member. -/
private theorem scanToks_value_is_name {key name v : Bytes} {lead : Bytes} (hlead : colon ∉ lead)
    (ts : List (Tok UInt8)) (pos : ℕ) :
    scanToks key (str key :: (lead.map punct ++ str name :: punct colon :: str v :: ts)) pos =
      (pos + key.length + lead.length + name.length + 6, v) ::
        scanToks key ts (pos + key.length + lead.length + name.length + v.length + 7) := by
  have hname : nextTok (.word key)
      (str key :: (lead.map punct ++ str name :: punct colon :: str v :: ts)) pos =
      some (pos, lead.map punct ++ str name :: punct colon :: str v :: ts) := by
    rw [nextTok, if_pos rfl]
  have hmem : Tok.sym colon ∉ lead.map punct := by simpa [punct] using hlead
  have hsep : nextTok (.sym colon) (lead.map punct ++ str name :: punct colon :: str v :: ts)
      (pos + (key.length + 2)) =
      some (pos + key.length + lead.length + name.length + 4, str v :: ts) := by
    rw [nextTok_append _ _ hmem, sizes_punct, nextTok, if_neg (by simp), nextTok, if_pos rfl]
    simp only [Tok.size, Option.some.injEq, Prod.mk.injEq, and_true]
    omega
  rw [scanToks_of_string hname hsep rfl]
  refine congrArg₂ _ (by rfl) (congrArg _ ?_)
  omega

private theorem scanToks_value_is_name_last {key lead : Bytes} (hlead : colon ∉ lead) (pos : ℕ) :
    scanToks key (str key :: lead.map punct) pos = [] := by
  have hname : nextTok (.word key) (str key :: lead.map punct) pos =
      some (pos, lead.map punct) := by rw [nextTok, if_pos rfl]
  have hmem : Tok.sym colon ∉ lead.map punct := by simpa [punct] using hlead
  exact scanToks_of_no_colon hname (nextTok_of_not_mem _ hmem)

/-- **The scanner reads the members**, from their start and from a value that is the name. -/
theorem scanToks_fieldToks {key fin : Bytes} (hfin : colon ∉ fin) :
    ∀ {es : List Entry}, NoColon es → ∀ pos : ℕ,
      (scanToks key (fieldToks es ++ fin.map punct) pos =
        (readMembers key false es pos).map fun w => (w.1, w.2.value)) ∧
      (scanToks key (str key :: (fieldToks es ++ fin.map punct)) pos =
        (readMembers key true es (pos + key.length + 2)).map fun w => (w.1, w.2.value)) := by
  intro es
  induction es with
  | nil =>
      intro _ pos
      refine ⟨?_, scanToks_value_is_name_last hfin pos⟩
      have hpunct : scanToks key (fin.map punct ++ []) pos = _ := scanToks_punct fin [] pos
      rw [List.append_nil] at hpunct
      rw [fieldToks, List.flatMap_nil, List.nil_append, hpunct, scanToks_of_no_name rfl]
      rfl
  | cons e es ih =>
      intro hcolon pos
      obtain ⟨lead, m⟩ := e
      have hlead : colon ∉ lead := hcolon (lead, m) (by simp)
      have ih := ih fun e he => hcolon e (List.mem_cons_of_mem _ he)
      have hsplit : fieldToks ((lead, m) :: es) ++ fin.map punct =
          lead.map punct ++ (str m.field.name :: punct colon :: str m.value ::
            (fieldToks es ++ fin.map punct)) := by
        rw [fieldToks_cons, Member.toks]
        simp
      rw [hsplit]
      constructor
      · rw [scanToks_punct, readMembers]
        by_cases hname : m.field.name = key
        · subst hname
          rw [if_pos (Or.inr rfl), scanToks_member, (ih _).1, List.map_cons]
          simp only [Entry.start, Entry.next]
          refine congrArg₂ _ rfl (congrArg _ (congrArg (readMembers m.field.name false es) ?_))
          omega
        · -- a member of another name: its value may still be taken for the name
          rw [if_neg (by simpa using hname), scanToks_cons_of_ne (by simpa using hname),
            scanToks_cons_of_ne (by simp)]
          by_cases hval : m.value = key
          · rw [hval, (ih _).2, decide_eq_true rfl]
            refine congrArg _ (congrArg _ ?_)
            simp only [Entry.start, Entry.next, Tok.size, hval]
            omega
          · rw [scanToks_cons_of_ne (by simpa using hval), (ih _).1, decide_eq_false hval]
            refine congrArg _ (congrArg _ ?_)
            simp only [Entry.start, Entry.next, Tok.size]
            omega
      · rw [scanToks_value_is_name hlead, readMembers, if_pos (Or.inl rfl), (ih _).1,
          List.map_cons]
        simp only [Entry.start, Entry.next]
        refine congrArg₂ _ (congrArg₂ _ ?_ rfl) (congrArg _ (congrArg _ ?_))
        · omega
        · omega

/-! ### The scanner reads a set -/

theorem Field.isAlphabet_name (f : Field) : ∀ c ∈ f.name, IsAlphabet c := by
  cases f <;> decide +kernel

theorem Field.name_ne_keys (f : Field) : f.name ≠ ascii "keys" := by cases f <;> decide

theorem Jwk.isBase64Url_value (o : Jwk) (f : Field) : ∀ c ∈ o.value f, IsBase64Url c := by
  cases f with
  | kty => exact fun c hc => Or.inl ((by decide +kernel : ∀ c ∈ ascii "oct", IsAlphabet c) c hc)
  | kid =>
      cases h : o.kid with
      | none => simp [Jwk.value, h]
      | some v => simpa [Jwk.value, h] using o.kid_text v h
  | k =>
      cases h : o.k with
      | none => simp [Jwk.value, h]
      | some v => simpa [Jwk.value, h] using o.k_text v h
  | type => simp [Jwk.value]

/-- The punctuation that separates members: no colon and no opening bracket. -/
abbrev separators : Bytes := ascii "\x7b\x7d],"

theorem separators_of_mem_leadObjects : ∀ {objs : List (List Member)} {lead : Bytes},
    (∀ c ∈ lead, c ∈ separators) → ∀ e ∈ leadObjects lead objs, ∀ c ∈ e.1, c ∈ separators := by
  intro objs
  induction objs with
  | nil => intro lead _ e he; simp [leadObjects] at he
  | cons ms rest ih =>
      intro lead hlead e he
      rw [leadObjects, List.mem_append] at he
      rcases he with he | he
      · cases ms with
        | nil => simp [withLead] at he
        | cons m ms =>
            rw [withLead, List.mem_cons, List.mem_map] at he
            rcases he with rfl | ⟨m', -, rfl⟩
            · intro c hc
              rcases List.mem_append.1 hc with hc | hc
              · exact hlead c hc
              · exact (show _ ⊆ separators by decide) hc
            · exact fun c hc => (show ascii "," ⊆ separators by decide) hc
      · exact ih (by decide +kernel) e he

theorem separators_of_mem_closing {jwks : List Jwk} : ∀ c ∈ closing jwks, c ∈ separators := by
  rw [closing]
  split
  · simp
  · exact fun c hc => (show ascii "\x7d" ⊆ separators by decide) hc

theorem separators_of_mem_entries {jwks : List Jwk} {typed : Bool} :
    ∀ e ∈ entries jwks typed, ∀ c ∈ e.1, c ∈ separators := by
  intro e he
  rw [entries, List.mem_append] at he
  rcases he with he | he
  · exact separators_of_mem_leadObjects (by simp) e he
  · cases typed with
    | false => simp at he
    | true =>
        simp only [if_true, List.mem_singleton] at he
        subst he
        intro c hc
        rcases List.mem_append.1 hc with hc | hc
        · exact separators_of_mem_closing c hc
        · exact (show ascii "]," ⊆ separators by decide) hc

theorem separators_of_mem_final {jwks : List Jwk} {typed : Bool} :
    ∀ c ∈ final jwks typed, c ∈ separators := by
  intro c hc
  rw [final] at hc
  split at hc
  · exact (show ascii "\x7d" ⊆ separators by decide) hc
  · rcases List.mem_append.1 hc with hc | hc
    · exact separators_of_mem_closing c hc
    · exact (show ascii "]\x7d" ⊆ separators by decide) hc

theorem isBase64Url_of_mem_members {jwks : List Jwk} {typed : Bool} {m : Member}
    (hm : m ∈ members jwks typed) : ∀ c ∈ m.value, IsBase64Url c := by
  rw [members, List.mem_append] at hm
  rcases hm with hm | hm
  · obtain ⟨i, o, -, -, -, hvalue⟩ := mem_objects_flatten.1 hm
    rw [hvalue]
    exact o.isBase64Url_value m.field
  · cases typed with
    | false => simp at hm
    | true =>
        simp only [if_true, List.mem_singleton] at hm
        subst hm
        exact fun c hc =>
          Or.inl ((by decide +kernel : ∀ c ∈ ascii "temporary", IsAlphabet c) c hc)

theorem isDocumentTok_of_mem_jwkSetToks {jwks : List Jwk} {typed : Bool} :
    ∀ t ∈ jwkSetToks jwks typed, IsDocumentTok t := by
  have hsym : ∀ c, c ∈ separators → IsDocumentTok (punct c) := fun c hc =>
    (show separators ⊆ ascii "\x7b\x7d[],:" by decide) hc
  have hword : ∀ s : Bytes, (∀ c ∈ s, IsAlphabet c) → IsDocumentTok (str s) := fun s hs c hc =>
    Or.inl (hs c hc)
  intro t ht
  rw [jwkSetToks_eq, List.mem_append, List.mem_append] at ht
  rcases ht with ht | ht | ht
  · simp only [List.mem_cons, List.not_mem_nil, or_false] at ht
    rcases ht with rfl | rfl | rfl | rfl
    · exact isDocumentTok_punct.2 (by simp)
    · exact hword _ (by decide +kernel)
    · exact isDocumentTok_punct.2 (by simp)
    · exact isDocumentTok_punct.2 (by simp)
  · obtain ⟨e, he, ht⟩ := List.mem_flatMap.1 ht
    rcases List.mem_append.1 ht with ht | ht
    · obtain ⟨c, hc, rfl⟩ := List.mem_map.1 ht
      exact hsym c (separators_of_mem_entries e he c hc)
    · have hmem : e.2 ∈ members jwks typed := by
        rw [← map_snd_entries]
        exact List.mem_map_of_mem he
      simp only [Member.toks, List.mem_cons, List.not_mem_nil, or_false] at ht
      rcases ht with rfl | rfl | rfl
      · exact hword _ e.2.field.isAlphabet_name
      · exact isDocumentTok_punct.2 (by simp)
      · exact isBase64Url_of_mem_members hmem
  · obtain ⟨c, hc, rfl⟩ := List.mem_map.1 ht
    exact hsym c (separators_of_mem_final c hc)

/-- The length of `{"keys":[`. -/
def headerLength : ℕ := 9

theorem readable_of_mem_jwkSetToks {jwks : List Jwk} {typed : Bool} {f : Field} :
    ∀ t ∈ jwkSetToks jwks typed, Readable f.name t := fun t ht =>
  (isDocumentTok_of_mem_jwkSetToks t ht).readable f.isAlphabet_name

theorem scanToks_jwkSetToks (jwks : List Jwk) (typed : Bool) (f : Field) :
    scanToks f.name (jwkSetToks jwks typed) 0 =
      (readMembers f.name false (entries jwks typed) headerLength).map fun w =>
        (w.1, w.2.value) := by
  have hcolon : ∀ c ∈ separators, c ≠ colon := by decide +kernel
  have hlead : NoColon (entries jwks typed) := fun e he hc =>
    hcolon colon (separators_of_mem_entries e he colon hc) rfl
  have hfin : colon ∉ final jwks typed := fun hc =>
    hcolon colon (separators_of_mem_final colon hc) rfl
  have hkeys := f.name_ne_keys
  rw [jwkSetToks_eq]
  simp only [List.cons_append, List.nil_append]
  rw [scanToks_cons_of_ne (by simp), scanToks_cons_of_ne (by simpa using hkeys.symm),
    scanToks_cons_of_ne (by simp), scanToks_cons_of_ne (by simp),
    (scanToks_fieldToks hfin hlead _).1]
  rfl

theorem Field.name_ne_nil (f : Field) : f.name ≠ [] := by cases f <;> decide

theorem Field.quote_not_mem_name (f : Field) : quote ∉ f.name := by cases f <;> decide

/-- **The scanner takes the values of the members `readMembers` names**, where they stand. -/
theorem jsonStringSpans_jwkSet (jwks : List Jwk) (typed : Bool) (f : Field) :
    jsonStringSpans (jwkSet jwks typed) f.name =
      (readMembers f.name false (entries jwks typed) headerLength).map fun w =>
        ⟨w.1, w.2.value.length⟩ := by
  rw [jwkSet, jsonStringSpans_render f.name_ne_nil f.quote_not_mem_name
    readable_of_mem_jwkSetToks, scanToks_jwkSetToks, List.map_map]
  rfl

/-- The values the scanner takes. -/
theorem jsonStringValues_jwkSet (jwks : List Jwk) (typed : Bool) (f : Field) :
    jsonStringValues (jwkSet jwks typed) f.name =
      (readMembers f.name false (entries jwks typed) headerLength).map fun w => w.2.value := by
  rw [jwkSet, jsonStringValues_render f.name_ne_nil f.quote_not_mem_name
    readable_of_mem_jwkSetToks, scanToks_jwkSetToks, List.map_map]
  rfl

/-! ### Which members are taken -/

@[simp] theorem map_snd_places : ∀ (es : List Entry) (pos : ℕ),
    (places es pos).map Prod.snd = es.map Prod.snd := by
  intro es
  induction es with
  | nil => intro pos; rfl
  | cons e es ih => intro pos; rw [places, List.map_cons, List.map_cons, ih]

theorem lt_of_mem_places : ∀ {es : List Entry} {pos : ℕ} {w : ℕ × Member},
    w ∈ places es pos → pos < w.1 := by
  intro es
  induction es with
  | nil => intro pos w hw; simp [places] at hw
  | cons e es ih =>
      intro pos w hw
      rw [places, List.mem_cons] at hw
      rcases hw with rfl | hw
      · simp only [Entry.start]
        omega
      · have := ih hw
        simp only [Entry.next, Entry.start] at this
        omega

theorem places_pairwise : ∀ {es : List Entry} {pos : ℕ},
    (places es pos).Pairwise fun a b => a.1 < b.1 := by
  intro es
  induction es with
  | nil => intro pos; exact List.Pairwise.nil
  | cons e es ih =>
      intro pos
      refine List.Pairwise.cons (fun w hw => ?_) ih
      have := lt_of_mem_places hw
      simp only [Entry.next] at this
      simp only
      omega

/-- **A value stands in one place**: a position belongs to one member. -/
theorem eq_of_mem_places {es : List Entry} {pos start : ℕ} {m m' : Member}
    (h : (start, m) ∈ places es pos) (h' : (start, m') ∈ places es pos) : m = m' := by
  obtain ⟨i, hi, hget⟩ := List.getElem_of_mem h
  obtain ⟨i', hi', hget'⟩ := List.getElem_of_mem h'
  have hlt := List.pairwise_iff_getElem.1 (@places_pairwise es pos)
  rcases Nat.lt_trichotomy i i' with hii | rfl | hii
  · have := hlt i i' hi hi' hii
    rw [hget, hget'] at this
    exact absurd this (Nat.lt_irrefl start)
  · exact congrArg Prod.snd (hget.symm.trans hget')
  · have := hlt i' i hi' hi hii
    rw [hget, hget'] at this
    exact absurd this (Nat.lt_irrefl start)

/-- **The scanner takes a place at most once, and in order.** -/
theorem readMembers_sublist {key : Bytes} : ∀ {es : List Entry} {hit : Bool} {pos : ℕ},
    (readMembers key hit es pos).Sublist (places es pos) := by
  intro es
  induction es with
  | nil => intro hit pos; exact List.Sublist.refl _
  | cons e es ih =>
      intro hit pos
      rw [readMembers, places]
      split
      · exact ih.cons_cons _
      · exact ih.cons _

theorem filter_sublist_readMembers {key : Bytes} : ∀ {es : List Entry} {hit : Bool} {pos : ℕ},
    ((places es pos).filter fun w => w.2.field.name = key).Sublist
      (readMembers key hit es pos) := by
  intro es
  induction es with
  | nil => intro hit pos; exact List.Sublist.refl _
  | cons e es ih =>
      intro hit pos
      rw [readMembers, places]
      by_cases hname : e.2.field.name = key
      · rw [List.filter_cons_of_pos (by simpa using hname), if_pos (Or.inr hname)]
        exact ih.cons_cons _
      · rw [List.filter_cons_of_neg (by simpa using hname)]
        split
        · exact ih.cons _
        · exact ih

/-- No value is mistaken for the name: a member of another name whose value is `key` is followed,
if at all, by a member of that name. -/
def Unmistaken (key : Bytes) (ms : List Member) : Prop :=
  ms.IsChain fun m m' => m.value = key → m.field.name = key ∨ m'.field.name = key

/-- **The scanner takes members of the name only** exactly when no value is mistaken for it. -/
theorem readMembers_only_iff {key : Bytes} : ∀ {es : List Entry} {hit : Bool} {pos : ℕ},
    (∀ w ∈ readMembers key hit es pos, w.2.field.name = key) ↔
      (hit = true → ∀ e ∈ es.head?, e.2.field.name = key) ∧ Unmistaken key (es.map Prod.snd) := by
  intro es
  induction es with
  | nil => intro hit pos; simp [readMembers, Unmistaken]
  | cons e es ih =>
      intro hit pos
      have hchain : Unmistaken key ((e :: es).map Prod.snd) ↔
          (e.2.value = key → e.2.field.name = key ∨ ∀ e' ∈ es.head?, e'.2.field.name = key) ∧
            Unmistaken key (es.map Prod.snd) := by
        cases es with
        | nil => simp [Unmistaken]
        | cons e' es => simp [Unmistaken]
      rw [hchain, readMembers]
      by_cases hname : e.2.field.name = key
      · rw [if_pos (Or.inr hname), List.forall_mem_cons, ih]
        simp [hname]
      · cases hit with
        | true =>
            -- the member is taken although it has another name
            rw [if_pos (Or.inl rfl), List.forall_mem_cons]
            simp [hname]
        | false =>
            rw [if_neg (by simpa using hname), ih]
            simp [hname]

/-- **The scanner takes exactly the members of the name** when no value is mistaken for it. -/
theorem readMembers_eq_filter {key : Bytes} {es : List Entry} {pos : ℕ}
    (h : Unmistaken key (es.map Prod.snd)) :
    readMembers key false es pos = (places es pos).filter fun w => w.2.field.name = key := by
  have honly := (@readMembers_only_iff key es false pos).2 ⟨by simp, h⟩
  have hself : (readMembers key false es pos).filter (fun w => w.2.field.name = key) =
      readMembers key false es pos :=
    List.filter_eq_self.2 fun w hw => by simpa using honly w hw
  refine List.Sublist.antisymm ?_ filter_sublist_readMembers
  rw [← hself]
  exact readMembers_sublist.filter _

theorem unmistaken_of_forall_ne {key : Bytes} {ms : List Member}
    (h : ∀ m ∈ ms, m.field.name ≠ key → m.value ≠ key) : Unmistaken key ms := by
  refine (List.pairwise_of_forall_mem_list fun m hm m' _ hvalue => ?_).isChain
  by_contra hnot
  exact h m hm (fun hname => hnot (Or.inl hname)) hvalue

theorem map_snd_filter_places (key : Bytes) (es : List Entry) (pos : ℕ) :
    ((places es pos).filter fun w => w.2.field.name = key).map Prod.snd =
      (es.map Prod.snd).filter fun m => m.field.name = key := by
  rw [← map_snd_places es pos, List.filter_map]
  rfl

theorem span_of_mem_readMembers {jwks : List Jwk} {typed : Bool} {f : Field} :
    ∀ w ∈ readMembers f.name false (entries jwks typed) headerLength,
      Span.of (jwkSet jwks typed) ⟨w.1, w.2.value.length⟩ = w.2.value := by
  intro w hw
  have hmem : (w.1, w.2.value) ∈ scanToks f.name (jwkSetToks jwks typed) 0 := by
    rw [scanToks_jwkSetToks]
    exact List.mem_map_of_mem hw
  exact span_of_mem_scanToks (At.start _) _ hmem

theorem jsonStringValues_of_unmistaken {jwks : List Jwk} {typed : Bool} {f : Field}
    (hf : f ≠ .type) (h : Unmistaken f.name (members jwks typed)) :
    jsonStringValues (jwkSet jwks typed) f.name = (owned f jwks 0).map Member.value := by
  rw [← map_snd_entries] at h
  calc jsonStringValues (jwkSet jwks typed) f.name
      = (((places (entries jwks typed) headerLength).filter fun w =>
          w.2.field.name = f.name).map Prod.snd).map Member.value := by
        rw [jsonStringValues_jwkSet, readMembers_eq_filter h, List.map_map]
        rfl
    _ = (owned f jwks 0).map Member.value := by
        rw [map_snd_filter_places, map_snd_entries, filter_members hf]

end ClearKey
