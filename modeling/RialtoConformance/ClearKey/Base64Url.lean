/-
**The base64url codec of the ClearKey backend.**

`base64UrlEncode` works on three-byte blocks with two tails; `base64UrlDecode` is a bit-serial
loop over a 32-bit accumulator that is never masked and simply wraps around.  The two are related
through the numbers their digit streams name (`RialtoConformance/Lib/Digits.lean`): the encoder
appends zero bits up to a multiple of six, and the decoder hands out the leading bytes of whatever
number the characters name, whatever falls out of the top of the accumulator.

Main definitions:

* `ClearKey.base64UrlEncode`, `ClearKey.base64UrlValue`, `ClearKey.base64UrlDecode` — the source's
  functions;
* `ClearKey.sextets` — the six-bit digits of an encoding.

Main results:

* `ClearKey.base64UrlEncode_eq_map`, `ClearKey.value_sextets` — an encoding writes the sextets of
  the data, which name the data with zero bits appended;
* `ClearKey.decodeLoop_spec` — what the decoder has handed out names the digits read so far;
* `ClearKey.base64UrlDecode_encode` — **the decoder inverts the encoder**;
* `ClearKey.length_base64UrlEncode`, `ClearKey.isAlphabet_of_mem_encode` — how long an encoding
  is, and the characters it is made of.
-/
import RialtoConformance.Lib.Digits

set_option relaxedAutoImplicit false
set_option autoImplicit false

/-- A byte string: the contents of a `std::string` or of a `std::vector<uint8_t>`. -/
abbrev Bytes := List UInt8

def ascii (s : String) : Bytes := s.toList.map fun c => UInt8.ofNat c.toNat

namespace ClearKey

/-! ### The encoder -/

/-- `kAlphabet`. -/
def kAlphabet : Bytes := ascii "ABCDEFGHIJKLMNOPQRSTUVWXYZabcdefghijklmnopqrstuvwxyz0123456789-_"

/-- `kAlphabet[v & 63]`. -/
def alphabetAt (v : UInt32) : UInt8 := kAlphabet.getD (v &&& 63).toNat 0

/-- `base64UrlEncode`: whole three-byte blocks, then a tail of one or two bytes. -/
def base64UrlEncode : Bytes → Bytes
  | a :: b :: c :: rest =>
      let n := (a.toUInt32 <<< 16) ||| (b.toUInt32 <<< 8) ||| c.toUInt32
      alphabetAt (n >>> 18) :: alphabetAt (n >>> 12) :: alphabetAt (n >>> 6) :: alphabetAt n ::
        base64UrlEncode rest
  | [a, b] =>
      let n := (a.toUInt32 <<< 16) ||| (b.toUInt32 <<< 8)
      [alphabetAt (n >>> 18), alphabetAt (n >>> 12), alphabetAt (n >>> 6)]
  | [a] =>
      let n := a.toUInt32 <<< 16
      [alphabetAt (n >>> 18), alphabetAt (n >>> 12)]
  | [] => []

/-! ### The decoder -/

/-- `base64UrlValue`: the digit a character stands for, `-1` for a character outside the
alphabet. -/
def base64UrlValue (c : UInt8) : ℤ :=
  if 65 ≤ c ∧ c ≤ 90 then c.toNat - 65
  else if 97 ≤ c ∧ c ≤ 122 then c.toNat - 97 + 26
  else if 48 ≤ c ∧ c ≤ 57 then c.toNat - 48 + 52
  else if c = 45 then 62
  else if c = 95 then 63
  else -1

/-- The loop of `base64UrlDecode`: the accumulator, the number of bits not handed out yet and the
bytes handed out so far.  `'='` is skipped wherever it stands. -/
def decodeLoop : Bytes → UInt32 → ℕ → Bytes → Bool × Bytes
  | [], _, _, out => (true, out)
  | c :: text, acc, bits, out =>
      if c = 61 then decodeLoop text acc bits out
      else
        let v := base64UrlValue c
        if v < 0 then (false, out)
        else
          let acc := (acc <<< 6) ||| UInt32.ofNat v.toNat
          let bits := bits + 6
          if 8 ≤ bits then
            let bits := bits - 8
            decodeLoop text acc bits (out ++ [((acc >>> UInt32.ofNat bits) &&& 0xFF).toUInt8])
          else decodeLoop text acc bits out

/-- `base64UrlDecode`: the return value and the contents of `out`. -/
def base64UrlDecode (text : Bytes) : Bool × Bytes := decodeLoop text 0 0 []

/-! ### The alphabet -/

/-- The characters an encoding may be made of. -/
def IsAlphabet (c : UInt8) : Prop := c ∈ kAlphabet

instance (c : UInt8) : Decidable (IsAlphabet c) := inferInstanceAs (Decidable (c ∈ kAlphabet))

def charOf (d : ℕ) : UInt8 := kAlphabet.getD d 0

theorem alphabetAt_eq (v : UInt32) : alphabetAt v = charOf (v.toNat % 64) := by
  have hand : (v &&& 63).toNat = v.toNat % 64 := by
    rw [UInt32.toNat_and]
    exact Nat.and_two_pow_sub_one_eq_mod v.toNat 6
  rw [alphabetAt, hand, charOf]

private theorem charOf_facts :
    ∀ d : Fin 64, IsAlphabet (charOf d) ∧ base64UrlValue (charOf d) = d := by
  decide +kernel

theorem isAlphabet_charOf {d : ℕ} (h : d < 64) : IsAlphabet (charOf d) :=
  (charOf_facts ⟨d, h⟩).1

theorem base64UrlValue_charOf {d : ℕ} (h : d < 64) : base64UrlValue (charOf d) = d :=
  (charOf_facts ⟨d, h⟩).2

private theorem alphabet_facts :
    ∀ c ∈ kAlphabet, c ∉ ascii "=\":,[]\x7b\x7d \t\n\r" ∧
      0 ≤ base64UrlValue c ∧ base64UrlValue c < 64 ∧
      charOf (base64UrlValue c).toNat = c := by
  decide +kernel

theorem not_mem_of_isAlphabet {c : UInt8} (h : IsAlphabet c) :
    c ∉ ascii "=\":,[]\x7b\x7d \t\n\r" :=
  (alphabet_facts c h).1

/-! ### What an encoding names -/

/-- The six-bit digits of an encoding, most significant first. -/
def sextets : Bytes → List ℕ
  | a :: b :: c :: rest =>
      let n := a.toNat * 2 ^ 16 + b.toNat * 2 ^ 8 + c.toNat
      n / 2 ^ 18 % 64 :: n / 2 ^ 12 % 64 :: n / 2 ^ 6 % 64 :: n % 64 :: sextets rest
  | [a, b] =>
      let n := a.toNat * 2 ^ 16 + b.toNat * 2 ^ 8
      [n / 2 ^ 18 % 64, n / 2 ^ 12 % 64, n / 2 ^ 6 % 64]
  | [a] =>
      let n := a.toNat * 2 ^ 16
      [n / 2 ^ 18 % 64, n / 2 ^ 12 % 64]
  | [] => []

theorem sextets_lt : ∀ (data : Bytes), ∀ d ∈ sextets data, d < 64
  | a :: b :: c :: rest => by
      intro d hd
      simp only [sextets, List.mem_cons] at hd
      rcases hd with h | h | h | h | h
      · omega
      · omega
      · omega
      · omega
      · exact sextets_lt rest d h
  | [a, b] => by intro d hd; simp [sextets] at hd; omega
  | [a] => by intro d hd; simp [sextets] at hd; omega
  | [] => by intro d hd; simp [sextets] at hd

private theorem toNat_block (a b c : UInt8) :
    ((a.toUInt32 <<< 16) ||| (b.toUInt32 <<< 8) ||| c.toUInt32).toNat =
      a.toNat * 2 ^ 16 + b.toNat * 2 ^ 8 + c.toNat := by
  have ha := a.toNat_lt
  have hb := b.toNat_lt
  have hc := c.toNat_lt
  have hshift : ((a.toUInt32 <<< 16) ||| (b.toUInt32 <<< 8) ||| c.toUInt32).toNat =
      2 ^ 16 * a.toNat ||| 2 ^ 8 * b.toNat ||| c.toNat := by
    simp only [UInt32.toNat_or, UInt32.toNat_shiftLeft, UInt8.toNat_toUInt32, Nat.shiftLeft_eq]
    congr 1
    congr 1 <;> simp <;> omega
  rw [hshift, ← Nat.two_pow_add_eq_or_of_lt (by omega),
    show 2 ^ 16 * a.toNat + 2 ^ 8 * b.toNat = 2 ^ 8 * (2 ^ 8 * a.toNat + b.toNat) from by ring,
    ← Nat.two_pow_add_eq_or_of_lt (by omega)]
  ring

private theorem toNat_two (a b : UInt8) :
    ((a.toUInt32 <<< 16) ||| (b.toUInt32 <<< 8)).toNat = a.toNat * 2 ^ 16 + b.toNat * 2 ^ 8 := by
  simpa using toNat_block a b 0

private theorem toNat_one (a : UInt8) : (a.toUInt32 <<< 16).toNat = a.toNat * 2 ^ 16 := by
  simpa using toNat_block a 0 0

private theorem alphabetAt_shift (n : UInt32) (k : ℕ) (hk : k < 32) :
    alphabetAt (n >>> UInt32.ofNat k) = charOf (n.toNat / 2 ^ k % 64) := by
  have hk32 : (UInt32.ofNat k).toNat % 32 = k := by
    rw [UInt32.toNat_ofNat_of_lt' (by simp [UInt32.size]; omega), Nat.mod_eq_of_lt hk]
  rw [alphabetAt_eq, UInt32.toNat_shiftRight, hk32, Nat.shiftRight_eq_div_pow]

/-- **An encoding writes the sextets of the data.** -/
theorem base64UrlEncode_eq_map : ∀ data : Bytes, base64UrlEncode data = (sextets data).map charOf
  | a :: b :: c :: rest => by
      have h18 := alphabetAt_shift ((a.toUInt32 <<< 16) ||| (b.toUInt32 <<< 8) ||| c.toUInt32) 18
      have h12 := alphabetAt_shift ((a.toUInt32 <<< 16) ||| (b.toUInt32 <<< 8) ||| c.toUInt32) 12
      have h6 := alphabetAt_shift ((a.toUInt32 <<< 16) ||| (b.toUInt32 <<< 8) ||| c.toUInt32) 6
      rw [toNat_block] at h18 h12 h6
      simp only [base64UrlEncode, sextets, List.map_cons, base64UrlEncode_eq_map rest]
      rw [← h18 (by decide), ← h12 (by decide), ← h6 (by decide), ← toNat_block, ← alphabetAt_eq]
      rfl
  | [a, b] => by
      have h18 := alphabetAt_shift ((a.toUInt32 <<< 16) ||| (b.toUInt32 <<< 8)) 18
      have h12 := alphabetAt_shift ((a.toUInt32 <<< 16) ||| (b.toUInt32 <<< 8)) 12
      have h6 := alphabetAt_shift ((a.toUInt32 <<< 16) ||| (b.toUInt32 <<< 8)) 6
      rw [toNat_two] at h18 h12 h6
      simp only [base64UrlEncode, sextets, List.map_cons, List.map_nil]
      rw [← h18 (by decide), ← h12 (by decide), ← h6 (by decide)]
      rfl
  | [a] => by
      have h18 := alphabetAt_shift (a.toUInt32 <<< 16) 18
      have h12 := alphabetAt_shift (a.toUInt32 <<< 16) 12
      rw [toNat_one] at h18 h12
      simp only [base64UrlEncode, sextets, List.map_cons, List.map_nil]
      rw [← h18 (by decide), ← h12 (by decide)]
      rfl
  | [] => rfl

theorem length_sextets : ∀ data : Bytes, (sextets data).length = (4 * data.length + 2) / 3
  | a :: b :: c :: rest => by
      simp only [sextets, List.length_cons, length_sextets rest]
      omega
  | [a, b] => by simp [sextets]
  | [a] => by simp [sextets]
  | [] => by simp [sextets]

/-- The zero bits an encoding appends to the data. -/
def padBits (n : ℕ) : ℕ := 6 * ((4 * n + 2) / 3) - 8 * n

theorem padBits_spec (n : ℕ) : 8 * n + padBits n = 6 * ((4 * n + 2) / 3) := by
  unfold padBits
  omega

theorem padBits_lt (n : ℕ) : padBits n < 6 := by
  unfold padBits
  omega

theorem padBits_add_three (n : ℕ) : padBits (n + 3) = padBits n := by
  unfold padBits
  omega

private theorem value_four (n : ℕ) (h : n < 2 ^ 24) :
    Digits.value 64 [n / 2 ^ 18 % 64, n / 2 ^ 12 % 64, n / 2 ^ 6 % 64, n % 64] = n := by
  simp only [Digits.value_cons, Digits.value_nil, List.length_cons, List.length_nil]
  omega

/-- **The sextets of the data name the data**, with zero bits appended. -/
theorem value_sextets : ∀ data : Bytes,
    Digits.value 64 (sextets data) =
      Digits.value 256 (data.map UInt8.toNat) * 2 ^ padBits data.length
  | a :: b :: c :: rest => by
      have ha := a.toNat_lt
      have hb := b.toNat_lt
      have hc := c.toNat_lt
      have hpow : 64 ^ (sextets rest).length = 256 ^ rest.length * 2 ^ padBits rest.length := by
        rw [length_sextets, show (64 : ℕ) = 2 ^ 6 from rfl, show (256 : ℕ) = 2 ^ 8 from rfl,
          ← pow_mul, ← pow_mul, ← pow_add, padBits_spec]
      have hsplit : ∀ n : ℕ, n / 2 ^ 18 % 64 :: n / 2 ^ 12 % 64 :: n / 2 ^ 6 % 64 :: n % 64 ::
          sextets rest =
          [n / 2 ^ 18 % 64, n / 2 ^ 12 % 64, n / 2 ^ 6 % 64, n % 64] ++ sextets rest :=
        fun _ => rfl
      simp only [sextets]
      rw [hsplit, Digits.value_append, value_four _ (by omega), value_sextets rest, hpow]
      simp only [List.map_cons, Digits.value_cons, List.length_cons, List.length_map,
        padBits_add_three]
      ring
  | [a, b] => by
      have ha := a.toNat_lt
      have hb := b.toNat_lt
      simp only [sextets, Digits.value_cons, Digits.value_nil, List.length_cons, List.length_nil,
        List.map_cons, List.map_nil, padBits]
      omega
  | [a] => by
      have ha := a.toNat_lt
      simp only [sextets, Digits.value_cons, Digits.value_nil, List.length_cons, List.length_nil,
        List.map_cons, List.map_nil, padBits]
      omega
  | [] => rfl

/-! ### What the decoder hands out -/

/-- The invariant of the decoding loop after the digits `ds`: the bytes handed out, followed by
the `bits` low bits of the accumulator, name the digits read.  Nothing is said about the upper
bits of the accumulator. -/
structure Gathered (ds : List ℕ) (acc : UInt32) (bits : ℕ) (out : Bytes) : Prop where
  /-- Less than a byte is waiting. -/
  bits_lt : bits < 8
  /-- Every bit read has been handed out or is waiting. -/
  length_eq : 8 * out.length + bits = 6 * ds.length
  /-- The bits handed out and the bits waiting are those of the digits. -/
  value_eq : Digits.value 256 (out.map UInt8.toNat) * 2 ^ bits + acc.toNat % 2 ^ bits =
    Digits.value 64 ds

theorem Gathered.init : Gathered [] 0 0 [] := ⟨by omega, rfl, rfl⟩

theorem toNat_shiftIn {acc : UInt32} {v : ℕ} (hv : v < 64) :
    ((acc <<< 6) ||| UInt32.ofNat v).toNat = (acc.toNat * 2 ^ 6 + v) % 2 ^ 32 := by
  have hacc := acc.toNat_lt
  have hv32 : (UInt32.ofNat v).toNat = v :=
    UInt32.toNat_ofNat_of_lt' (by simp [UInt32.size]; omega)
  have hshift : (acc <<< 6).toNat = 2 ^ 6 * (acc.toNat % 2 ^ 26) := by
    rw [UInt32.toNat_shiftLeft, Nat.shiftLeft_eq]
    simp
    omega
  rw [UInt32.toNat_or, hshift, hv32, ← Nat.two_pow_add_eq_or_of_lt hv]
  omega

theorem toNat_handOut (acc : UInt32) {k : ℕ} (hk : k < 32) :
    ((acc >>> UInt32.ofNat k) &&& 0xFF).toUInt8.toNat = acc.toNat / 2 ^ k % 2 ^ 8 := by
  have hk32 : (UInt32.ofNat k).toNat % 32 = k := by
    rw [UInt32.toNat_ofNat_of_lt' (by simp [UInt32.size]; omega), Nat.mod_eq_of_lt hk]
  rw [UInt32.toNat_toUInt8, UInt32.toNat_and, UInt32.toNat_shiftRight, hk32,
    Nat.shiftRight_eq_div_pow]
  have hmask : acc.toNat / 2 ^ k &&& (0xFF : UInt32).toNat = acc.toNat / 2 ^ k % 2 ^ 8 :=
    Nat.and_two_pow_sub_one_eq_mod _ 8
  rw [hmask, Nat.mod_mod]

theorem Gathered.wait {ds : List ℕ} {acc : UInt32} {bits v : ℕ} {out : Bytes}
    (h : Gathered ds acc bits out) (hv : v < 64) (hb : bits + 6 < 8) :
    Gathered (ds ++ [v]) ((acc <<< 6) ||| UInt32.ofNat v) (bits + 6) out where
  bits_lt := hb
  length_eq := by
    have := h.length_eq
    simp only [List.length_append, List.length_cons, List.length_nil]
    omega
  value_eq := by
    rw [toNat_shiftIn hv, Digits.shiftIn_mod hv (by omega), Digits.value_concat, ← h.value_eq,
      pow_add]
    ring

theorem Gathered.handOut {ds : List ℕ} {acc : UInt32} {bits v : ℕ} {out : Bytes}
    (h : Gathered ds acc bits out) (hv : v < 64) (hb : 8 ≤ bits + 6) :
    Gathered (ds ++ [v]) ((acc <<< 6) ||| UInt32.ofNat v) (bits + 6 - 8)
      (out ++ [((((acc <<< 6) ||| UInt32.ofNat v) >>> UInt32.ofNat (bits + 6 - 8)) &&&
        0xFF).toUInt8]) where
  bits_lt := by have := h.bits_lt; omega
  length_eq := by
    have := h.length_eq
    simp only [List.length_append, List.length_cons, List.length_nil]
    omega
  value_eq := by
    have hlt := h.bits_lt
    have hsum : bits + 6 - 8 + 8 = bits + 6 := by omega
    -- what stays behind and what is handed out make up the low `bits + 6` bits
    have hlow := Digits.split_mod ((acc <<< 6) ||| UInt32.ofNat v).toNat (bits + 6 - 8) 8
    rw [hsum, toNat_shiftIn hv, Digits.shiftIn_mod hv (by omega)] at hlow
    rw [List.map_append, List.map_cons, List.map_nil, Digits.value_concat,
      toNat_handOut _ (by omega), toNat_shiftIn hv, Digits.value_concat, ← h.value_eq]
    have hpow : 2 ^ (bits + 6) = 2 ^ (bits + 6 - 8) * 256 := by
      rw [← hsum, pow_add, Nat.add_sub_cancel]
      norm_num
    calc (Digits.value 256 (out.map UInt8.toNat) * 256 +
            (acc.toNat * 2 ^ 6 + v) % 2 ^ 32 / 2 ^ (bits + 6 - 8) % 2 ^ 8) * 2 ^ (bits + 6 - 8) +
          (acc.toNat * 2 ^ 6 + v) % 2 ^ 32 % 2 ^ (bits + 6 - 8)
        = Digits.value 256 (out.map UInt8.toNat) * (2 ^ (bits + 6 - 8) * 256) +
            (acc.toNat % 2 ^ bits * 2 ^ 6 + v) := by rw [hlow]; ring
      _ = (Digits.value 256 (out.map UInt8.toNat) * 2 ^ bits + acc.toNat % 2 ^ bits) * 64 + v := by
          rw [← hpow, pow_add]
          ring

/-- The characters the decoder reads digits from: everything but padding. -/
def unpadded (text : Bytes) : Bytes := text.filter (· ≠ 61)

def digitsOf (text : Bytes) : List ℕ := (unpadded text).map fun c => (base64UrlValue c).toNat

@[simp] theorem unpadded_nil : unpadded [] = [] := rfl

theorem unpadded_cons_pad (text : Bytes) : unpadded (61 :: text) = unpadded text := by
  simp [unpadded]

theorem unpadded_cons {c : UInt8} (h : c ≠ 61) (text : Bytes) :
    unpadded (c :: text) = c :: unpadded text := by
  simp [unpadded, h]

theorem base64UrlValue_lt (c : UInt8) : base64UrlValue c < 64 := by
  unfold base64UrlValue
  have h90 : c ≤ 90 → c.toNat ≤ 90 := fun h => UInt8.le_iff_toNat_le.1 h
  have h122 : c ≤ 122 → c.toNat ≤ 122 := fun h => UInt8.le_iff_toNat_le.1 h
  have h57 : c ≤ 57 → c.toNat ≤ 57 := fun h => UInt8.le_iff_toNat_le.1 h
  split_ifs with h1 h2 h3
  · have := h90 h1.2; omega
  · have := h122 h2.2; omega
  · have := h57 h3.2; omega
  all_goals omega

/-- The decoder accepts a text exactly when every character but padding stands for a digit. -/
theorem decodeLoop_fst : ∀ (text : Bytes) (acc : UInt32) (bits : ℕ) (out : Bytes),
    (decodeLoop text acc bits out).1 = true ↔ ∀ c ∈ unpadded text, 0 ≤ base64UrlValue c := by
  intro text
  induction text with
  | nil => intro acc bits out; simp [decodeLoop]
  | cons c text ih =>
      intro acc bits out
      by_cases hpad : c = 61
      · subst hpad
        rw [decodeLoop, if_pos rfl, unpadded_cons_pad]
        exact ih acc bits out
      · rw [decodeLoop, if_neg hpad, unpadded_cons hpad]
        by_cases hv : base64UrlValue c < 0
        · simp [hv]
        · have hnonneg : 0 ≤ base64UrlValue c := by omega
          simp only [if_neg hv, List.mem_cons, forall_eq_or_imp, hnonneg, true_and]
          split_ifs with hb
          · exact ih _ _ _
          · exact ih _ _ _

/-- The loop keeps its invariant: over an accepted text it returns with what the digits read
name. -/
theorem decodeLoop_spec : ∀ (text : Bytes) {ds : List ℕ} {acc : UInt32} {bits : ℕ} {out : Bytes},
    Gathered ds acc bits out → (∀ c ∈ unpadded text, 0 ≤ base64UrlValue c) →
      ∃ acc' bits' out', decodeLoop text acc bits out = (true, out') ∧
        Gathered (ds ++ digitsOf text) acc' bits' out' := by
  intro text
  induction text with
  | nil =>
      intro ds acc bits out h _
      exact ⟨acc, bits, out, rfl, by simpa [digitsOf] using h⟩
  | cons c text ih =>
      intro ds acc bits out h hok
      by_cases hpad : c = 61
      · subst hpad
        rw [unpadded_cons_pad] at hok
        rw [decodeLoop, if_pos rfl, digitsOf, unpadded_cons_pad]
        exact ih h hok
      · rw [unpadded_cons hpad] at hok
        have hnonneg : 0 ≤ base64UrlValue c := hok c (by simp)
        have hrest : ∀ d ∈ unpadded text, 0 ≤ base64UrlValue d :=
          fun d hd => hok d (List.mem_cons_of_mem _ hd)
        have hv : (base64UrlValue c).toNat < 64 := by
          have := base64UrlValue_lt c
          omega
        have hds : ds ++ digitsOf (c :: text) = ds ++ [(base64UrlValue c).toNat] ++ digitsOf text := by
          simp [digitsOf, unpadded_cons hpad]
        rw [decodeLoop, if_neg hpad, hds]
        simp only [if_neg (show ¬ base64UrlValue c < 0 by omega)]
        -- eight bits are there, or the digit waits for the next one
        split_ifs with hb
        · exact ih (h.handOut hv hb) hrest
        · exact ih (h.wait hv (by omega)) hrest

/-! ### Round trip -/

theorem isAlphabet_of_mem_encode {data : Bytes} {c : UInt8} (h : c ∈ base64UrlEncode data) :
    IsAlphabet c := by
  rw [base64UrlEncode_eq_map] at h
  obtain ⟨d, hd, rfl⟩ := List.mem_map.1 h
  exact isAlphabet_charOf (sextets_lt data d hd)

@[simp] theorem length_base64UrlEncode (data : Bytes) :
    (base64UrlEncode data).length = (4 * data.length + 2) / 3 := by
  rw [base64UrlEncode_eq_map, List.length_map, length_sextets]

theorem unpadded_of_isAlphabet {text : Bytes} (h : ∀ c ∈ text, IsAlphabet c) :
    unpadded text = text := by
  refine List.filter_eq_self.2 fun c hc => ?_
  have hmem := not_mem_of_isAlphabet (h c hc)
  have : c ≠ 61 := fun hc61 => hmem (by subst hc61; decide)
  simpa using this

theorem base64UrlValue_nonneg {c : UInt8} (h : IsAlphabet c) : 0 ≤ base64UrlValue c :=
  (alphabet_facts c h).2.1

theorem charOf_base64UrlValue {c : UInt8} (h : IsAlphabet c) :
    charOf (base64UrlValue c).toNat = c :=
  (alphabet_facts c h).2.2.2

theorem digitsOf_encode (data : Bytes) : digitsOf (base64UrlEncode data) = sextets data := by
  rw [digitsOf, unpadded_of_isAlphabet fun c hc => isAlphabet_of_mem_encode hc,
    base64UrlEncode_eq_map, List.map_map]
  calc (sextets data).map ((fun c => (base64UrlValue c).toNat) ∘ charOf)
      = (sextets data).map id := by
        refine List.map_congr_left fun d hd => ?_
        simp [base64UrlValue_charOf (sextets_lt data d hd)]
    _ = sextets data := List.map_id _

theorem map_toNat_injective : Function.Injective (List.map UInt8.toNat) :=
  List.map_injective_iff.2 fun _ _ h => UInt8.toNat_inj.1 h

/-- **The decoder inverts the encoder**, for data of every length. -/
theorem base64UrlDecode_encode (data : Bytes) :
    base64UrlDecode (base64UrlEncode data) = (true, data) := by
  have hplain : ∀ c ∈ unpadded (base64UrlEncode data), 0 ≤ base64UrlValue c := fun c hc =>
    base64UrlValue_nonneg (isAlphabet_of_mem_encode (List.mem_of_mem_filter hc))
  obtain ⟨acc, bits, out, hrun, h⟩ := decodeLoop_spec _ Gathered.init hplain
  rw [List.nil_append, digitsOf_encode] at h
  have hlen : out.length = data.length ∧ bits = padBits data.length := by
    have h₁ := h.length_eq
    have h₂ := h.bits_lt
    have h₃ := padBits_spec data.length
    have h₄ := padBits_lt data.length
    rw [length_sextets] at h₁
    omega
  have hval := h.value_eq
  rw [value_sextets, hlen.2] at hval
  have hbyte : ∀ (bs : Bytes), ∀ d ∈ bs.map UInt8.toNat, d < 256 := by
    intro bs d hd
    obtain ⟨b, -, rfl⟩ := List.mem_map.1 hd
    exact b.toNat_lt
  have heq := Digits.value_inj_of_shift (by omega) (by simpa using hlen.1) (hbyte out)
    (hbyte data) (Nat.mod_lt _ (Nat.two_pow_pos _)) hval
  rw [base64UrlDecode, hrun, map_toNat_injective heq.1]

end ClearKey
