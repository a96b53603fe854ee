/-
**The release gate.**

A requirement may name the Rialto release it applies from; `releaseAtLeast` decides whether the
release under test is that one or a newer one.  It reads up to three components of either release
in one loop, where a dot and the end of the text end a component, and compares them as integers.

A `long` that would overflow is undefined behaviour, and the model has no result there; what is
known of the type is that it has 32 bits at least.

Main definitions:

* `Gate.parseLoop`, `Gate.parse` — the components of a release as the code reads them;
* `Gate.releaseAtLeast` — the comparison;
* `Gate.Release` — a release as it is written, and `Gate.Release.triple`, what it denotes.

Main results:

* `Gate.parse_release` — **the loop reads the triple** that a release denotes;
* `Gate.releaseAtLeast_release` — **releases are compared by their triples**.
-/
import Mathlib.Tactic
import Mathlib.Data.Prod.Lex

set_option relaxedAutoImplicit false
set_option autoImplicit false

namespace Gate

/-! ### Reading a release -/

/-- A target, as far as it decides how wide a `long` is. -/
structure Abi where
  longMax : ℕ
  wide : 2147483647 ≤ longMax

/-- The loop of `parse`, at the rest of the text: the end of the text and a dot end the component
`n`, a digit is added to it, and any other character is passed over. -/
def parseLoop (abi : Abi) : List Char → ℕ → ℕ → List Int32 → Option (List Int32)
  | [], n, idx, out => some (if idx < 3 then out.set idx (Int32.ofNat n) else out)
  | c :: cs, n, idx, out =>
      if idx < 3 then
        if c = '.' then parseLoop abi cs 0 (idx + 1) (out.set idx (Int32.ofNat n))
        else if c.isDigit then
          let next := n * 10 + (c.toNat - '0'.toNat)
          if next ≤ abi.longMax then parseLoop abi cs next idx out else none
        else parseLoop abi cs n idx out
      else some out

/-- The text of a release behind its `v` or `V`, if it has one. -/
def unprefixed : List Char → List Char
  | 'v' :: cs => cs
  | 'V' :: cs => cs
  | cs => cs

/-- **`parse`**: the three components of a release. -/
def parse (abi : Abi) (s : List Char) : Option (List Int32) :=
  parseLoop abi (unprefixed s) 0 0 [0, 0, 0]

/-- The loop that compares the components. -/
def compareLoop : List Int32 → List Int32 → Bool
  | h :: hs, n :: ns => if h ≠ n then decide (h > n) else compareLoop hs ns
  | _, _ => true

/-- **`releaseAtLeast`.** -/
def releaseAtLeast (abi : Abi) (held need : List Char) : Option Bool := do
  let h ← parse abi held
  let n ← parse abi need
  some (compareLoop h n)

/-! ### Releases -/

/-- The number that decimal digits denote. -/
def number (digits : List Char) : ℕ := Nat.ofDigitChars 10 digits 0

/-- A component of a release: decimal digits, any number of zeros in front. -/
structure Component (digits : List Char) : Prop where
  nonempty : digits ≠ []
  decimal : ∀ c ∈ digits, c.isDigit = true
  small : number digits ≤ 2147483647

def dotted : List (List Char) → List Char
  | [] => []
  | [digits] => digits
  | digits :: more => digits ++ '.' :: dotted more

/-- **A release**: an optional `v` or `V`, and one to three components. -/
structure Release where
  lead : List Char
  components : List (List Char)
  lead_mem : lead = [] ∨ lead = ['v'] ∨ lead = ['V']
  nonempty : components ≠ []
  short : components.length ≤ 3
  isComponent : ∀ digits ∈ components, Component digits

def Release.text (r : Release) : List Char := r.lead ++ dotted r.components

/-- A component of a release, or zero where it has none. -/
def Release.component (r : Release) (k : ℕ) : ℕ := (r.components.map number).getD k 0

/-- **What a release denotes**: its three components, compared lexicographically. -/
def Release.triple (r : Release) : ℕ ×ₗ ℕ ×ₗ ℕ :=
  toLex (r.component 0, toLex (r.component 1, r.component 2))

/-- The integers that a release is read as. -/
def Release.parsed (r : Release) : List Int32 :=
  [Int32.ofNat (r.component 0), Int32.ofNat (r.component 1), Int32.ofNat (r.component 2)]

/-! ### The loop reads the components -/

theorem le_ofDigitChars : ∀ (digits : List Char) (n : ℕ), n ≤ Nat.ofDigitChars 10 digits n := by
  intro digits
  induction digits with
  | nil => intro n; rw [Nat.ofDigitChars_nil]
  | cons c digits ih =>
      intro n
      rw [Nat.ofDigitChars_cons]
      have := ih (10 * n + (c.toNat - '0'.toNat))
      omega

theorem parseLoop_digits {abi : Abi} {rest : List Char} {idx : ℕ} {out : List Int32}
    (hidx : idx < 3) : ∀ {digits : List Char} {n : ℕ}, (∀ c ∈ digits, c.isDigit = true) →
      Nat.ofDigitChars 10 digits n ≤ 2147483647 →
        parseLoop abi (digits ++ rest) n idx out =
          parseLoop abi rest (Nat.ofDigitChars 10 digits n) idx out := by
  intro digits
  induction digits with
  | nil =>
      intro n _ _
      rw [List.nil_append, Nat.ofDigitChars_nil]
  | cons c digits ih =>
      intro n hdigits hsmall
      have hc : c.isDigit = true := hdigits c List.mem_cons_self
      have hdot : c ≠ '.' := by
        rintro rfl
        exact absurd hc (by decide)
      rw [Nat.ofDigitChars_cons, Nat.mul_comm 10 n] at hsmall
      have hnext := le_ofDigitChars digits (n * 10 + (c.toNat - '0'.toNat))
      have hwide := abi.wide
      rw [List.cons_append, parseLoop, if_pos hidx, if_neg hdot, if_pos hc,
        if_pos (by omega), ih (fun d hd => hdigits d (List.mem_cons_of_mem _ hd)) hsmall,
        Nat.ofDigitChars_cons, Nat.mul_comm 10 n]

/-- Components written one after the other, from an index on. -/
def writeFrom : ℕ → List ℕ → List Int32 → List Int32
  | _, [], out => out
  | idx, n :: ns, out => writeFrom (idx + 1) ns (out.set idx (Int32.ofNat n))

/-- **The loop reads the components** of a release. -/
theorem parseLoop_dotted {abi : Abi} : ∀ {components : List (List Char)} {idx : ℕ}
    (out : List Int32), components ≠ [] → idx + components.length ≤ 3 →
      (∀ digits ∈ components, Component digits) →
        parseLoop abi (dotted components) 0 idx out =
          some (writeFrom idx (components.map number) out) := by
  intro components
  induction components with
  | nil => intro idx out hne; exact absurd rfl hne
  | cons digits more ih =>
      intro idx out _ hlength hcomponents
      rw [List.length_cons] at hlength
      have hidx : idx < 3 := by omega
      have hdigits : Component digits := hcomponents digits List.mem_cons_self
      cases more with
      | nil =>
          have hread : parseLoop abi (digits ++ []) 0 idx out =
              parseLoop abi [] (number digits) idx out :=
            parseLoop_digits hidx hdigits.decimal hdigits.small
          rw [List.append_nil] at hread
          rw [dotted, hread, parseLoop, if_pos hidx]
          rfl
      | cons digits' more =>
          have hlength' : idx + 1 + (digits' :: more).length ≤ 3 := by omega
          have hmore := ih (out.set idx (Int32.ofNat (number digits))) (List.cons_ne_nil _ _)
            hlength' fun d hd => hcomponents d (List.mem_cons_of_mem _ hd)
          rw [dotted, parseLoop_digits hidx hdigits.decimal hdigits.small, parseLoop, if_pos hidx,
            if_pos rfl]
          · exact hmore
          · exact List.cons_ne_nil _ _

theorem unprefixed_text (r : Release) : unprefixed r.text = dotted r.components := by
  rcases r.lead_mem with h | h | h
  · obtain ⟨digits, more, hcomponents⟩ := List.exists_cons_of_ne_nil r.nonempty
    have hdigits : Component digits :=
      r.isComponent digits (by rw [hcomponents]; exact List.mem_cons_self)
    obtain ⟨c, cs, rfl⟩ := List.exists_cons_of_ne_nil hdigits.nonempty
    have hc : c.isDigit = true := hdigits.decimal c List.mem_cons_self
    have htext : ∃ rest, dotted r.components = c :: rest := by
      rw [hcomponents]
      cases more with
      | nil => exact ⟨cs, rfl⟩
      | cons digits' more => exact ⟨_, rfl⟩
    obtain ⟨rest, hrest⟩ := htext
    rw [Release.text, h, List.nil_append, hrest, unprefixed]
    · rintro rest' ⟨rfl, -⟩
      exact absurd hc (by decide)
    · rintro rest' ⟨rfl, -⟩
      exact absurd hc (by decide)
  · rw [Release.text, h]
    rfl
  · rw [Release.text, h]
    rfl

/-- **The loop reads the triple** that a release denotes. -/
theorem parse_release (abi : Abi) (r : Release) :
    parse abi r.text = some r.parsed := by
  have hshort := r.short
  rw [parse, unprefixed_text, parseLoop_dotted _ r.nonempty (by omega) r.isComponent]
  congr 1
  simp only [Release.parsed, Release.component]
  -- one, two or three components
  match hcomponents : r.components.map number with
  | [] => rfl
  | [_] => rfl
  | [_, _] => rfl
  | [_, _, _] => rfl
  | _ :: _ :: _ :: _ :: more =>
      have hlength := congrArg List.length hcomponents
      simp only [List.length_map, List.length_cons] at hlength
      omega

/-! ### The comparison -/

theorem Release.component_le (r : Release) (k : ℕ) : r.component k ≤ 2147483647 := by
  rw [Release.component, List.getD_eq_getElem?_getD, List.getElem?_map]
  cases hk : r.components[k]? with
  | none => exact Nat.zero_le _
  | some digits => exact (r.isComponent digits (List.mem_of_getElem? hk)).small

theorem compareLoop_cons {h n : ℕ} (hh : h ≤ 2147483647) (hn : n ≤ 2147483647)
    (hs ns : List Int32) : compareLoop (Int32.ofNat h :: hs) (Int32.ofNat n :: ns) =
      if h = n then compareLoop hs ns else decide (n < h) := by
  have hlt : Int32.ofNat n < Int32.ofNat h ↔ n < h :=
    Int32.ofNat_lt_iff_lt (by omega) (by omega)
  by_cases heq : h = n
  · subst heq
    rw [compareLoop, if_neg (not_not_intro rfl), if_pos rfl]
  · have hne : Int32.ofNat h ≠ Int32.ofNat n := by
      intro habs
      have hint := congrArg Int32.toInt habs
      rw [Int32.toInt_ofNat_of_lt (by omega), Int32.toInt_ofNat_of_lt (by omega)] at hint
      omega
    rw [compareLoop, if_pos hne, if_neg heq]
    exact decide_eq_decide.2 hlt

theorem triple_le_iff {r s : Release} : r.triple ≤ s.triple ↔
    r.component 0 < s.component 0 ∨ r.component 0 = s.component 0 ∧
      (r.component 1 < s.component 1 ∨ r.component 1 = s.component 1 ∧
        r.component 2 ≤ s.component 2) := by
  rw [Release.triple, Release.triple, Prod.Lex.toLex_le_toLex, Prod.Lex.toLex_le_toLex]

theorem compareLoop_parsed (held need : Release) :
    compareLoop held.parsed need.parsed = decide (need.triple ≤ held.triple) := by
  rw [Release.parsed, Release.parsed,
    compareLoop_cons (held.component_le 0) (need.component_le 0),
    compareLoop_cons (held.component_le 1) (need.component_le 1),
    compareLoop_cons (held.component_le 2) (need.component_le 2)]
  split_ifs with hfirst hsecond hthird
  · exact (decide_eq_true (triple_le_iff.2 (by omega))).symm
  · exact decide_eq_decide.2 (by rw [triple_le_iff]; omega)
  · exact decide_eq_decide.2 (by rw [triple_le_iff]; omega)
  · exact decide_eq_decide.2 (by rw [triple_le_iff]; omega)

/-- **Releases are compared by their triples**: for any two releases and any width of a `long`, the
comparison is defined, and true exactly when the triple of the first is no less than that of the
second. -/
theorem releaseAtLeast_release (abi : Abi) (held need : Release) :
    releaseAtLeast abi held.text need.text = some (decide (need.triple ≤ held.triple)) := by
  rw [releaseAtLeast, parse_release, parse_release, ← compareLoop_parsed]
  rfl

/-! ### The gate of a case -/

/-- `kTargetRialtoRelease`. -/
def kTargetRialtoRelease : List Char := ['v', '0', '.', '2', '4', '.', '0']

end Gate
