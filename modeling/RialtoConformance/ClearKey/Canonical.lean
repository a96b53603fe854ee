/-
**The texts that are encodings.**

The encoder and the decoder are inverse in one direction: an encoding decodes to the data.  In the
other direction the decoder is generous.  It skips `'='` wherever it stands, and at the end it
leaves the bits that do not fill a byte where they are; so it accepts every text over the alphabet
and padding, and only some of these are encodings of what they decode to.

Main definitions:

* `ClearKey.stripPadding` — a text without the padding at its end;
* `ClearKey.Genuine` — a text that is an encoding, up to padding at its end.

Main results:

* `ClearKey.base64Url_roundTrip` — **an encoding decodes to the data**, and is over the alphabet;
* `ClearKey.base64UrlDecode_fst_iff` — the texts the decoder accepts;
* `ClearKey.encode_decode_eq_unpadded_iff` — when a text without padding is the encoding of what
  it decodes to;
* `ClearKey.base64UrlDecode_genuine` — **when re-encoding gives the text back**.
-/
import Mathlib.Data.List.DropRight
import RialtoConformance.ClearKey.Base64Url

set_option relaxedAutoImplicit false
set_option autoImplicit false

namespace ClearKey

theorem padding_not_mem_encode (data : Bytes) : 61 ∉ base64UrlEncode data := fun hmem =>
  not_mem_of_isAlphabet (isAlphabet_of_mem_encode hmem) (List.mem_cons_self ..)

/-- **An encoding decodes to the data**, and it is made of characters of the alphabet, without
padding. -/
theorem base64Url_roundTrip (data : Bytes) :
    base64UrlDecode (base64UrlEncode data) = (true, data) ∧
      ∀ c ∈ base64UrlEncode data, IsAlphabet c ∧ c ≠ 61 := by
  refine ⟨base64UrlDecode_encode data, fun c hc => ⟨isAlphabet_of_mem_encode hc, ?_⟩⟩
  rintro rfl
  exact padding_not_mem_encode data hc

/-! ### The texts the decoder accepts -/

private theorem alphabet_of_digit :
    ∀ n : Fin 256, 0 ≤ base64UrlValue (UInt8.ofNat n) → IsAlphabet (UInt8.ofNat n) := by
  decide +kernel

theorem base64UrlValue_nonneg_iff {c : UInt8} : 0 ≤ base64UrlValue c ↔ IsAlphabet c := by
  constructor
  · intro h
    have hfin := alphabet_of_digit ⟨c.toNat, c.toNat_lt⟩
    simp only [UInt8.ofNat_toNat] at hfin
    exact hfin h
  · exact base64UrlValue_nonneg

/-- The texts the decoder accepts: those over the alphabet and padding. -/
theorem base64UrlDecode_fst_iff {text : Bytes} :
    (base64UrlDecode text).1 = true ↔ ∀ c ∈ text, IsAlphabet c ∨ c = 61 := by
  rw [base64UrlDecode, decodeLoop_fst]
  simp only [base64UrlValue_nonneg_iff, unpadded, List.mem_filter, ne_eq, decide_not,
    Bool.not_eq_eq_eq_not, Bool.not_true, decide_eq_false_iff_not, and_imp]
  refine forall₂_congr fun c _ => ?_
  rw [or_comm, or_iff_not_imp_left]

/-! ### What an accepted text encodes -/

theorem map_charOf_digitsOf {text : Bytes} (h : ∀ c ∈ unpadded text, IsAlphabet c) :
    (digitsOf text).map charOf = unpadded text := by
  rw [digitsOf, List.map_map]
  conv_rhs => rw [← List.map_id (unpadded text)]
  refine List.map_congr_left fun c hc => ?_
  exact charOf_base64UrlValue (h c hc)

theorem digitsOf_lt {text : Bytes} (h : ∀ c ∈ unpadded text, IsAlphabet c) :
    ∀ d ∈ digitsOf text, d < 64 := by
  intro d hd
  obtain ⟨c, hc, rfl⟩ := List.mem_map.1 hd
  have hlt := base64UrlValue_lt c
  have hnonneg := base64UrlValue_nonneg (h c hc)
  omega

/-- The sextets of the bytes handed out are the digits read exactly when no digit is left over and
the bits left over are zero. -/
theorem sextets_eq_digits_iff {ds : List ℕ} {acc : UInt32} {bits : ℕ} {out : Bytes}
    (h : Gathered ds acc bits out) (hds : ∀ d ∈ ds, d < 64) :
    sextets out = ds ↔ ds.length % 4 ≠ 1 ∧ ds.getLastD 0 % 2 ^ (6 * ds.length % 8) = 0 := by
  have hlen := h.length_eq
  have hlt := h.bits_lt
  have hval := h.value_eq
  have hpad := padBits_spec out.length
  have hbits : bits = 6 * ds.length % 8 := by omega
  have hlast : Digits.value 64 ds % 2 ^ bits = ds.getLastD 0 % 2 ^ bits :=
    Digits.value_mod (k := bits) (w := 6) (by omega) ds
  have hrest : acc.toNat % 2 ^ bits = ds.getLastD 0 % 2 ^ bits := by
    rw [← hlast, ← hval, Nat.mul_add_mod_self_right, Nat.mod_mod]
  rw [← hbits]
  constructor
  · intro heq
    have hcount := length_sextets out
    rw [heq] at hcount
    have hpadBits : padBits out.length = bits := by omega
    refine ⟨by omega, ?_⟩
    have hnames := value_sextets out
    rw [heq, hpadBits] at hnames
    omega
  · rintro ⟨hdangling, hleft⟩
    have hcount : (sextets out).length = ds.length := by
      rw [length_sextets]
      rcases (by omega : ds.length % 4 = 0 ∨ ds.length % 4 = 2 ∨ ds.length % 4 = 3) with hmod | hmod | hmod
      · omega
      · omega
      · omega
    have hpadBits : padBits out.length = bits := by
      rw [length_sextets] at hcount
      omega
    refine Digits.value_inj (by omega) hcount (sextets_lt out) hds ?_
    rw [value_sextets, hpadBits]
    omega

/-- **When a text without padding is the encoding of what it decodes to.** -/
theorem encode_decode_eq_unpadded_iff {text : Bytes} (h : (base64UrlDecode text).1 = true) :
    base64UrlEncode (base64UrlDecode text).2 = unpadded text ↔
      (unpadded text).length % 4 ≠ 1 ∧
        (digitsOf text).getLastD 0 % 2 ^ (6 * (unpadded text).length % 8) = 0 := by
  have hplain : ∀ c ∈ unpadded text, 0 ≤ base64UrlValue c := (decodeLoop_fst text 0 0 []).1 h
  have halpha : ∀ c ∈ unpadded text, IsAlphabet c := fun c hc =>
    base64UrlValue_nonneg_iff.1 (hplain c hc)
  obtain ⟨acc, bits, out, hrun, hgathered⟩ := decodeLoop_spec _ Gathered.init hplain
  rw [List.nil_append] at hgathered
  have hlen : (digitsOf text).length = (unpadded text).length := List.length_map _
  rw [base64UrlDecode, hrun, base64UrlEncode_eq_map, ← hlen, ← map_charOf_digitsOf halpha,
    ← sextets_eq_digits_iff hgathered (digitsOf_lt halpha)]
  constructor
  · intro heq
    -- the digits can be read off the characters
    have hread := congrArg (List.map fun c => (base64UrlValue c).toNat) heq
    have hback : ∀ ds : List ℕ, (∀ d ∈ ds, d < 64) →
        (ds.map charOf).map (fun c => (base64UrlValue c).toNat) = ds := by
      intro ds hds
      rw [List.map_map]
      conv_rhs => rw [← List.map_id ds]
      refine List.map_congr_left fun d hd => ?_
      simp [base64UrlValue_charOf (hds d hd)]
    rwa [hback _ (sextets_lt out), hback _ (digitsOf_lt halpha)] at hread
  · intro heq
    rw [heq]

/-! ### Padding -/

/-- A text without the padding at its end. -/
def stripPadding (text : Bytes) : Bytes := text.rdropWhile (· = 61)

/-- **A genuine base64url text**: an encoding, up to padding at its end. -/
structure Genuine (text : Bytes) : Prop where
  /-- Padding stands at the end only. -/
  padding : 61 ∉ stripPadding text
  /-- No character is left over. -/
  dangling : (unpadded text).length % 4 ≠ 1
  /-- The bits behind the last byte are zero. -/
  leftover : (digitsOf text).getLastD 0 % 2 ^ (6 * (unpadded text).length % 8) = 0

theorem unpadded_stripPadding (text : Bytes) : unpadded (stripPadding text) = unpadded text := by
  have htail : unpadded (text.rtakeWhile (· = 61)) = [] := by
    rw [unpadded, List.filter_eq_nil_iff]
    intro c hc
    simpa using List.mem_rtakeWhile_imp hc
  conv_rhs => rw [← List.rdropWhile_append_rtakeWhile (p := (· = 61)) (l := text)]
  rw [unpadded, unpadded, List.filter_append]
  rw [unpadded] at htail
  rw [htail, List.append_nil]
  rfl

/-- Where padding stands at the end only, stripping it leaves the characters that count. -/
theorem stripPadding_eq_unpadded {text : Bytes} (h : 61 ∉ stripPadding text) :
    stripPadding text = unpadded text := by
  rw [← unpadded_stripPadding text, unpadded, eq_comm, List.filter_eq_self]
  intro c hc
  have hc61 : c ≠ 61 := by
    rintro rfl
    exact h hc
  simpa using hc61

/-- Re-encoding what a text decodes to gives the stripped text back exactly for genuine texts. -/
theorem encode_decode_eq_stripPadding_iff {text : Bytes} (h : (base64UrlDecode text).1 = true) :
    base64UrlEncode (base64UrlDecode text).2 = stripPadding text ↔ Genuine text := by
  constructor
  · intro heq
    have hpadding : 61 ∉ stripPadding text := by
      rw [← heq]
      exact padding_not_mem_encode _
    rw [stripPadding_eq_unpadded hpadding, encode_decode_eq_unpadded_iff h] at heq
    exact ⟨hpadding, heq.1, heq.2⟩
  · intro hgenuine
    rw [stripPadding_eq_unpadded hgenuine.padding, encode_decode_eq_unpadded_iff h]
    exact ⟨hgenuine.dangling, hgenuine.leftover⟩

theorem genuine_encode (data : Bytes) : Genuine (base64UrlEncode data) := by
  have hdecode := base64UrlDecode_encode data
  have hstrip : stripPadding (base64UrlEncode data) = base64UrlEncode data := by
    refine List.rdropWhile_eq_self_iff.2 fun hne hlast => ?_
    have hpadding := List.getLast_mem hne
    rw [of_decide_eq_true hlast] at hpadding
    exact padding_not_mem_encode data hpadding
  rw [← encode_decode_eq_stripPadding_iff (by rw [hdecode]), hdecode, hstrip]

/-- **When re-encoding gives the text back.**  The decoder accepts the texts over the alphabet and
padding; what an accepted text decodes to is encoded as the text, up to padding at its end, exactly
when the text is genuine; and genuine texts that decode to the same bytes are the same text, up to
padding at their ends. -/
theorem base64UrlDecode_genuine (text : Bytes) :
    ((base64UrlDecode text).1 = true ↔ ∀ c ∈ text, IsAlphabet c ∨ c = 61) ∧
      ((base64UrlDecode text).1 = true →
        (base64UrlEncode (base64UrlDecode text).2 = stripPadding text ↔ Genuine text)) ∧
      ∀ text', Genuine text → Genuine text' → (base64UrlDecode text).1 = true →
        base64UrlDecode text = base64UrlDecode text' → stripPadding text = stripPadding text' := by
  refine ⟨base64UrlDecode_fst_iff, encode_decode_eq_stripPadding_iff, ?_⟩
  intro text' hgenuine hgenuine' haccept heq
  rw [← (encode_decode_eq_stripPadding_iff haccept).2 hgenuine, heq]
  rw [heq] at haccept
  exact (encode_decode_eq_stripPadding_iff haccept).2 hgenuine'

/-- A text that decodes to a zero byte and is not its encoding: four bits are left over. -/
theorem base64UrlDecode_not_genuine :
    ¬ ∀ text : Bytes, (base64UrlDecode text).1 = true →
      base64UrlEncode (base64UrlDecode text).2 = stripPadding text := by
  intro h
  have := h (ascii "AB") (by decide +kernel)
  revert this
  decide +kernel

end ClearKey
