/-
**The documents of the ClearKey exchange.**

A JWK set, written from its objects as a token list.  An object may lack either of its members and
may have its members in any order; the set may or may not end in a `"type"` member.

Main definitions:

* `ClearKey.Jwk`, `ClearKey.jwkSet` — an object of a JWK set and the text of a set;
* `ClearKey.Member`, `ClearKey.members` — the members of a set in the order they are written;
* `ClearKey.entries` — the members with the punctuation written before them;
* `ClearKey.owned` — the members of one name.

Main results:

* `ClearKey.IsDocumentTok.readable` — the scanner can be read off a document;
* `ClearKey.jwkSetToks_eq` — **a set is a sequence of members** between punctuation;
* `ClearKey.map_snd_entries`, `ClearKey.filter_members` — which members these are.
-/
import RialtoConformance.ClearKey.JsonScan

set_option relaxedAutoImplicit false
set_option autoImplicit false

namespace ClearKey

open Quoted

/-! ### Writing documents -/

def commaSep : List (List (Tok UInt8)) → List (Tok UInt8)
  | [] => []
  | [item] => item
  | item :: item' :: items => item ++ punct 44 :: commaSep (item' :: items)

/-- The members that occur in a JWK set. -/
inductive Field
  | kty
  | kid
  | k
  | type
  deriving DecidableEq, Repr

def Field.name : Field → Bytes
  | .kty => ascii "kty"
  | .kid => ascii "kid"
  | .k => ascii "k"
  | .type => ascii "type"

theorem Field.name_injective : Function.Injective Field.name := by
  intro f g h
  cases f <;> cases g <;> first | rfl | exact absurd h (by decide)

/-- A character of a base64url string: the alphabet and the padding. -/
def IsBase64Url (c : UInt8) : Prop := IsAlphabet c ∨ c = 61

instance (c : UInt8) : Decidable (IsBase64Url c) :=
  inferInstanceAs (Decidable (IsAlphabet c ∨ c = 61))

/-- An object of a JWK set: `"kty":"oct"` and, optionally, a `"kid"` and a `"k"` member, in any
order. -/
structure Jwk where
  /-- The value of `"kid"`. -/
  kid : Option Bytes
  /-- The value of `"k"`. -/
  k : Option Bytes
  /-- The members in the order they are written. -/
  order : List Field
  /-- Every member is written once. -/
  order_perm : order.Perm (.kty :: ((if kid.isSome then [.kid] else []) ++
    if k.isSome then [.k] else []))
  /-- `"kid"` is a base64url string. -/
  kid_text : ∀ v, kid = some v → ∀ c ∈ v, IsBase64Url c
  /-- `"k"` is a base64url string. -/
  k_text : ∀ v, k = some v → ∀ c ∈ v, IsBase64Url c

/-- A member as it stands in a set: the position of its object, its field and its value. -/
structure Member where
  owner : ℕ
  field : Field
  value : Bytes
  deriving DecidableEq

def Jwk.value (o : Jwk) : Field → Bytes
  | .kty => ascii "oct"
  | .kid => o.kid.getD []
  | .k => o.k.getD []
  | .type => []

def Jwk.members (j : ℕ) (o : Jwk) : List Member := o.order.map fun f => ⟨j, f, o.value f⟩

/-- `"name":"value"`. -/
def Member.toks (m : Member) : List (Tok UInt8) := [str m.field.name, punct colon, str m.value]

/-- `{member,...}`. -/
def objectToks (ms : List Member) : List (Tok UInt8) :=
  punct 123 :: commaSep (ms.map Member.toks) ++ [punct 125]

/-- The members of the objects of a set, object by object. -/
def objects : List Jwk → ℕ → List (List Member)
  | [], _ => []
  | o :: jwks, j => o.members j :: objects jwks (j + 1)

/-- The member `"type":"temporary"` behind the objects. -/
def typeMember (jwks : List Jwk) : Member := ⟨jwks.length, .type, ascii "temporary"⟩

/-- `{"keys":[object,...],"type":"temporary"}`, or the same without the `"type"` member. -/
def jwkSetToks (jwks : List Jwk) (typed : Bool) : List (Tok UInt8) :=
  [punct 123, str (ascii "keys"), punct colon, punct bracket] ++
    commaSep ((objects jwks 0).map objectToks) ++ [punct endBracket] ++
    (if typed then punct 44 :: (typeMember jwks).toks else []) ++ [punct 125]

/-- **The text of a JWK set.** -/
def jwkSet (jwks : List Jwk) (typed : Bool) : Bytes := text (jwkSetToks jwks typed)

/-- The object `{"kty":"oct","kid":"<kid>","k":"<key>"}` of an encoded pair. -/
def Jwk.ofPair (p : Bytes × Bytes) : Jwk where
  kid := some (base64UrlEncode p.1)
  k := some (base64UrlEncode p.2)
  order := [.kty, .kid, .k]
  order_perm := List.Perm.refl _
  kid_text := by
    rintro v ⟨⟩ c hc
    exact Or.inl (isAlphabet_of_mem_encode hc)
  k_text := by
    rintro v ⟨⟩ c hc
    exact Or.inl (isAlphabet_of_mem_encode hc)

example : jwkSet [Jwk.ofPair ([1], [2]), Jwk.ofPair ([3, 4], [5])] true =
    ascii "\x7b\"keys\":[\x7b\"kty\":\"oct\",\"kid\":\"AQ\",\"k\":\"Ag\"\x7d," ++
      ascii "\x7b\"kty\":\"oct\",\"kid\":\"AwQ\",\"k\":\"BQ\"\x7d],\"type\":\"temporary\"\x7d" := by
  decide +kernel

/-! ### Reading documents -/

/-- A token of a document: a word over the base64url characters, or a punctuation character. -/
def IsDocumentTok : Tok UInt8 → Prop
  | .word s => ∀ c ∈ s, IsBase64Url c
  | .sym c => c ∈ ascii "\x7b\x7d[],:"

theorem isDocumentTok_punct {c : UInt8} : IsDocumentTok (punct c) ↔
    c = 123 ∨ c = 125 ∨ c = bracket ∨ c = endBracket ∨ c = 44 ∨ c = colon := by
  simp [IsDocumentTok, ascii, bracket, endBracket, colon]

theorem not_mem_of_isBase64Url {c : UInt8} (h : IsBase64Url c) :
    c ∉ ascii "\":,[]\x7b\x7d \t\n\r" := by
  rcases h with h | rfl
  · intro hc
    exact not_mem_of_isAlphabet h (List.mem_cons_of_mem _ hc)
  · decide

/-- The scanner can be read off a document, for a name over the alphabet. -/
theorem IsDocumentTok.readable {key : Bytes} (hkey : ∀ c ∈ key, IsAlphabet c) {t : Tok UInt8}
    (h : IsDocumentTok t) : Readable key t := by
  cases t with
  | word s =>
      have hfree : ∀ d ∈ ascii "\":,[]\x7b\x7d \t\n\r", d ∉ s := fun d hd hs =>
        not_mem_of_isBase64Url (h d hs) hd
      exact ⟨hfree quote (by decide), trivial, hfree colon (by decide),
        hfree endBracket (by decide)⟩
  | sym c =>
      have hc : c ∈ ascii "\x7b\x7d[],:" := h
      have hsub : ∀ d ∈ ascii "\x7b\x7d[],:", d ≠ quote ∧ ¬ IsAlphabet d := by decide +kernel
      exact ⟨(hsub c hc).1, fun hmem => (hsub c hc).2 (hkey c hmem), trivial, trivial⟩

/-! ### A set as a sequence of members -/

/-- A member with the punctuation written before it. -/
abbrev Entry := Bytes × Member

def fieldToks (es : List Entry) : List (Tok UInt8) :=
  es.flatMap fun e => e.1.map punct ++ e.2.toks

theorem fieldToks_cons (e : Entry) (es : List Entry) :
    fieldToks (e :: es) = e.1.map punct ++ e.2.toks ++ fieldToks es := rfl

theorem fieldToks_append (es fs : List Entry) :
    fieldToks (es ++ fs) = fieldToks es ++ fieldToks fs := List.flatMap_append ..

/-- The members of an object behind the punctuation `lead`. -/
def withLead (lead : Bytes) : List Member → List Entry
  | [] => []
  | m :: ms => (lead, m) :: ms.map fun m => (ascii ",", m)

/-- The members of a list of objects, the first object behind the punctuation `lead`. -/
def leadObjects : Bytes → List (List Member) → List Entry
  | _, [] => []
  | lead, ms :: rest => withLead (lead ++ ascii "\x7b") ms ++ leadObjects (ascii "\x7d,") rest

/-- The punctuation that closes the last object. -/
def closing (jwks : List Jwk) : Bytes := if jwks = [] then [] else ascii "\x7d"

/-- The members of a set with the punctuation between them. -/
def entries (jwks : List Jwk) (typed : Bool) : List Entry :=
  leadObjects [] (objects jwks 0) ++
    if typed then [(closing jwks ++ ascii "],", typeMember jwks)] else []

/-- The punctuation behind the last member. -/
def final (jwks : List Jwk) (typed : Bool) : Bytes :=
  if typed then ascii "\x7d" else closing jwks ++ ascii "]\x7d"

theorem commaSep_cons (item : List (Tok UInt8)) : ∀ items : List (List (Tok UInt8)),
    commaSep (item :: items) = item ++ items.flatMap fun i => punct 44 :: i := by
  intro items
  induction items generalizing item with
  | nil => simp [commaSep]
  | cons item' items ih => rw [commaSep, ih item', List.flatMap_cons, List.cons_append]

theorem objectToks_eq (lead : Bytes) : ∀ {ms : List Member}, ms ≠ [] →
    lead.map punct ++ objectToks ms = fieldToks (withLead (lead ++ ascii "\x7b") ms) ++ [punct 125] := by
  intro ms h
  obtain ⟨m, ms, rfl⟩ := List.exists_cons_of_ne_nil h
  have hrest : (ms.map Member.toks).flatMap (fun i => punct 44 :: i) =
      fieldToks (ms.map fun m => (ascii ",", m)) := by
    rw [fieldToks, List.flatMap_map, List.flatMap_map]
    rfl
  rw [objectToks, List.map_cons, commaSep_cons, withLead, fieldToks_cons, hrest]
  simp [ascii]

theorem closeObjects_eq : ∀ {objs : List (List Member)}, (∀ ms ∈ objs, ms ≠ []) →
    punct 125 :: (objs.map objectToks).flatMap (fun i => punct 44 :: i) =
      fieldToks (leadObjects (ascii "\x7d,") objs) ++ [punct 125] := by
  intro objs
  induction objs with
  | nil => intro _; rfl
  | cons ms rest ih =>
      intro h
      have hms := objectToks_eq (ascii "\x7d,") (h ms (by simp))
      have hrest := ih fun ms hms => h ms (List.mem_cons_of_mem _ hms)
      rw [leadObjects, fieldToks_append, List.append_assoc, ← hrest]
      calc punct 125 :: ((ms :: rest).map objectToks).flatMap (fun i => punct 44 :: i)
          = ((ascii "\x7d,").map punct ++ objectToks ms) ++
              (rest.map objectToks).flatMap (fun i => punct 44 :: i) := by simp [ascii]
        _ = fieldToks (withLead (ascii "\x7d," ++ ascii "\x7b") ms) ++
              punct 125 :: (rest.map objectToks).flatMap (fun i => punct 44 :: i) := by
            rw [hms]
            simp

theorem Jwk.members_ne_nil (j : ℕ) (o : Jwk) : o.members j ≠ [] := by
  intro h
  have horder : o.order = [] := List.map_eq_nil_iff.1 h
  have := o.order_perm
  rw [horder] at this
  simp at this

theorem ne_nil_of_mem_objects : ∀ {jwks : List Jwk} {j : ℕ}, ∀ ms ∈ objects jwks j, ms ≠ [] := by
  intro jwks
  induction jwks with
  | nil => intro j ms h; simp [objects] at h
  | cons o jwks ih =>
      intro j ms h
      rw [objects, List.mem_cons] at h
      rcases h with rfl | h
      · exact o.members_ne_nil j
      · exact ih ms h

/-- **A set is a sequence of members** between punctuation. -/
theorem jwkSetToks_eq (jwks : List Jwk) (typed : Bool) :
    jwkSetToks jwks typed =
      [punct 123, str (ascii "keys"), punct colon, punct bracket] ++
        (fieldToks (entries jwks typed) ++ (final jwks typed).map punct) := by
  have hobjs : commaSep ((objects jwks 0).map objectToks) =
      fieldToks (leadObjects [] (objects jwks 0)) ++ (closing jwks).map punct := by
    cases jwks with
    | nil => rfl
    | cons o jwks =>
        have hfirst := objectToks_eq [] (o.members_ne_nil 0)
        have hrest := @closeObjects_eq (objects jwks 1) ne_nil_of_mem_objects
        rw [List.map_nil, List.nil_append] at hfirst
        rw [objects, List.map_cons, commaSep_cons, hfirst, List.append_assoc,
          List.singleton_append, hrest, leadObjects, fieldToks_append, List.append_assoc]
        rfl
  rw [jwkSetToks, hobjs, entries, fieldToks_append]
  cases typed
  · simp [final, fieldToks, ascii, endBracket]
  · simp [final, fieldToks, ascii, endBracket]

/-! ### The members of a set -/

theorem map_snd_withLead (lead : Bytes) (ms : List Member) :
    (withLead lead ms).map Prod.snd = ms := by
  cases ms with
  | nil => rfl
  | cons m ms => simp [withLead, Function.comp_def]

theorem map_snd_leadObjects : ∀ (objs : List (List Member)) (lead : Bytes),
    (leadObjects lead objs).map Prod.snd = objs.flatten := by
  intro objs
  induction objs with
  | nil => intro lead; rfl
  | cons ms rest ih =>
      intro lead
      rw [leadObjects, List.map_append, map_snd_withLead, ih, List.flatten_cons]

/-- The members of the objects and the `"type"` member. -/
def members (jwks : List Jwk) (typed : Bool) : List Member :=
  (objects jwks 0).flatten ++ if typed then [typeMember jwks] else []

/-- **The members of a set**, in the order they are written. -/
theorem map_snd_entries (jwks : List Jwk) (typed : Bool) :
    (entries jwks typed).map Prod.snd = members jwks typed := by
  rw [entries, List.map_append, map_snd_leadObjects, members]
  cases typed <;> rfl

theorem mem_objects_flatten : ∀ {jwks : List Jwk} {j : ℕ} {m : Member},
    m ∈ (objects jwks j).flatten ↔
      ∃ i o, jwks[i]? = some o ∧ m.owner = j + i ∧ m.field ∈ o.order ∧
        m.value = o.value m.field := by
  intro jwks
  induction jwks with
  | nil => intro j m; simp [objects]
  | cons o jwks ih =>
      intro j m
      rw [objects, List.flatten_cons, List.mem_append, ih]
      constructor
      · rintro (h | ⟨i, o', ho', howner, hfield⟩)
        · obtain ⟨f, hf, rfl⟩ := List.mem_map.1 h
          exact ⟨0, o, rfl, rfl, hf, rfl⟩
        · exact ⟨i + 1, o', ho', by omega, hfield⟩
      · rintro ⟨i, o', ho', howner, hfield, hvalue⟩
        cases i with
        | zero =>
            simp only [List.getElem?_cons_zero, Option.some.injEq] at ho'
            subst ho'
            left
            refine List.mem_map.2 ⟨m.field, hfield, ?_⟩
            obtain ⟨owner, field, value⟩ := m
            simp only [Nat.add_zero] at howner
            simp only at hvalue
            rw [howner, hvalue]
        | succ i =>
            exact Or.inr ⟨i, o', by simpa using ho', by omega, hfield, hvalue⟩

/-! ### The members of each name -/

theorem Jwk.nodup_order (o : Jwk) : o.order.Nodup := by
  refine o.order_perm.nodup_iff.2 ?_
  cases o.kid <;> cases o.k <;> simp

theorem Jwk.kid_mem_order (o : Jwk) : .kid ∈ o.order ↔ o.kid.isSome := by
  rw [o.order_perm.mem_iff]
  cases o.kid <;> cases o.k <;> simp

theorem Jwk.k_mem_order (o : Jwk) : .k ∈ o.order ↔ o.k.isSome := by
  rw [o.order_perm.mem_iff]
  cases o.kid <;> cases o.k <;> simp

/-- The members with the field `f`, object by object. -/
def owned (f : Field) : List Jwk → ℕ → List Member
  | [], _ => []
  | o :: jwks, j => (if f ∈ o.order then [⟨j, f, o.value f⟩] else []) ++ owned f jwks (j + 1)

theorem Jwk.filter_members (o : Jwk) (j : ℕ) (f : Field) :
    (o.members j).filter (fun m => m.field.name = f.name) =
      if f ∈ o.order then [⟨j, f, o.value f⟩] else [] := by
  have hname : ∀ g : Field, g.name = f.name ↔ g = f := fun g => Field.name_injective.eq_iff
  rw [Jwk.members, List.filter_map]
  simp only [Function.comp_def, hname]
  rw [List.filter_eq, List.map_replicate]
  by_cases hf : f ∈ o.order
  · rw [if_pos hf, List.count_eq_one_of_mem o.nodup_order hf]
    rfl
  · rw [if_neg hf, List.count_eq_zero_of_not_mem hf]
    rfl

theorem filter_objects (f : Field) : ∀ (jwks : List Jwk) (j : ℕ),
    (objects jwks j).flatten.filter (fun m => m.field.name = f.name) = owned f jwks j := by
  intro jwks
  induction jwks with
  | nil => intro j; rfl
  | cons o jwks ih =>
      intro j
      rw [objects, List.flatten_cons, List.filter_append, o.filter_members, ih, owned]

/-- **The members of a name** stand object by object. -/
theorem filter_members {f : Field} (hf : f ≠ .type) (jwks : List Jwk) (typed : Bool) :
    (members jwks typed).filter (fun m => m.field.name = f.name) = owned f jwks 0 := by
  have htype : Field.type.name ≠ f.name := fun h => hf (Field.name_injective h).symm
  rw [members, List.filter_append, filter_objects]
  cases typed with
  | false => simp
  | true => simp [typeMember, htype]

end ClearKey
