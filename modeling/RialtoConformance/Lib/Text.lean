/-
**Searching in a text.**

The `std::string` operations a hand-written scanner is made of — `find` of a needle or of a single
character from a position, and `substr` — over an arbitrary alphabet, with the facts a proof about
such a scanner uses: where a match lies, that a search only looks at the text from its starting
position on, and how a search passes over a stretch that cannot contain the start of a match.

Main definitions:

* `Text.search` — the first occurrence of a needle in a text;
* `Text.find`, `Text.findChar` — the same from a position on;
* `Text.Span`, `Text.Span.of` — a stretch of a text and its contents (`substr`).

Main results:

* `Text.le_of_find`, `Text.find_add_le` — where a match lies;
* `Text.findChar_spec` — the first occurrence of a character;
* `Text.search_append_of_forall_ne` — a search passes over characters that cannot start a match;
* `Text.infix_take_iff` — **the parts of a text that contain the needle** are those that reach
  behind the first match;
* `Text.search_append_cons`, `Text.search_append_of_unbordered` — a search passes over a stretch
  without a match;
* `Text.eq_of_unbordered` — where a needle can stand once only.
-/
import Mathlib.Tactic
import Mathlib.Data.List.Infix

set_option relaxedAutoImplicit false
set_option autoImplicit false

namespace Text

variable {α : Type*} [DecidableEq α]

/-! ### The first occurrence of a needle -/

/-- The position of the first occurrence of `needle` in a text. -/
def search (needle : List α) : List α → Option ℕ
  | [] => if needle = [] then some 0 else none
  | a :: text =>
      if needle.isPrefixOf (a :: text) then some 0 else (search needle text).map (· + 1)

/-- `text.find(needle, pos)`: the first occurrence of `needle` at or after `pos`. -/
def find (text needle : List α) (pos : ℕ) : Option ℕ :=
  if pos ≤ text.length then (search needle (text.drop pos)).map (pos + ·) else none

/-- `text.find(c, pos)`: the first occurrence of the character `c` at or after `pos`. -/
def findChar (text : List α) (c : α) (pos : ℕ) : Option ℕ := find text [c] pos

theorem search_cons_of_begins {needle text : List α} {a : α} (h : needle <+: a :: text) :
    search needle (a :: text) = some 0 := by
  simp [search, List.isPrefixOf_iff_prefix.2 h]

theorem search_cons_of_not_begins {needle text : List α} {a : α} (h : ¬ needle <+: a :: text) :
    search needle (a :: text) = (search needle text).map (· + 1) := by
  have : needle.isPrefixOf (a :: text) = false := by
    rw [Bool.eq_false_iff, ne_eq, List.isPrefixOf_iff_prefix]
    exact h
  simp [search, this]

theorem search_append_self {needle : List α} (rest : List α) :
    search needle (needle ++ rest) = some 0 := by
  cases hn : needle ++ rest with
  | nil => simp_all [search]
  | cons a text =>
      refine search_cons_of_begins ?_
      rw [← hn]
      exact List.prefix_append needle rest

theorem begins_drop_of_search {needle : List α} :
    ∀ {text : List α} {i : ℕ}, search needle text = some i → needle <+: text.drop i := by
  intro text
  induction text with
  | nil =>
      intro i h
      by_cases hn : needle = []
      · simp [hn]
      · simp [search, hn] at h
  | cons a text ih =>
      intro i h
      by_cases hp : needle <+: a :: text
      · rw [search_cons_of_begins hp] at h
        obtain rfl : 0 = i := by simpa using h
        simpa using hp
      · rw [search_cons_of_not_begins hp] at h
        obtain ⟨j, hj, rfl⟩ := Option.map_eq_some_iff.1 h
        simpa using ih hj

theorem search_add_le {needle text : List α} {i : ℕ} (h : search needle text = some i)
    (hn : needle ≠ []) : i + needle.length ≤ text.length := by
  have hle := (begins_drop_of_search h).length_le
  have hpos : 0 < needle.length := List.length_pos_iff.2 hn
  rw [List.length_drop] at hle
  omega

/-- A search passes over characters that cannot start a match. -/
theorem search_append_of_forall_ne {c : α} {needle : List α} :
    ∀ {gap rest : List α}, (∀ a ∈ gap, a ≠ c) →
      search (c :: needle) (gap ++ rest) = (search (c :: needle) rest).map (gap.length + ·) := by
  intro gap
  induction gap with
  | nil => intro rest _; simp
  | cons a gap ih =>
      intro rest h
      have hne : ¬ (c :: needle) <+: a :: (gap ++ rest) := by
        intro hp
        exact h a (by simp) (List.cons_prefix_cons.1 hp).1.symm
      rw [List.cons_append, search_cons_of_not_begins hne,
        ih fun b hb => h b (List.mem_cons_of_mem _ hb), Option.map_map]
      congr 1
      funext n
      simp only [Function.comp_apply, List.length_cons]
      omega

theorem search_singleton_spec {c : α} : ∀ {text : List α} {i : ℕ}, search [c] text = some i →
    text[i]? = some c ∧ ∀ j < i, text[j]? ≠ some c := by
  intro text
  induction text with
  | nil =>
      intro i h
      simp [search] at h
  | cons a text ih =>
      intro i h
      by_cases hp : [c] <+: a :: text
      · rw [search_cons_of_begins hp] at h
        obtain rfl : 0 = i := Option.some.inj h
        rw [(List.cons_prefix_cons.1 hp).1]
        exact ⟨rfl, fun j hj => absurd hj (Nat.not_lt_zero j)⟩
      · rw [search_cons_of_not_begins hp] at h
        obtain ⟨k, hk, rfl⟩ := Option.map_eq_some_iff.1 h
        obtain ⟨hat, hbefore⟩ := ih hk
        refine ⟨hat, fun j hj => ?_⟩
        cases j with
        | zero =>
            intro hc
            obtain rfl : a = c := Option.some.inj hc
            exact hp (List.cons_prefix_cons.2 ⟨rfl, List.nil_prefix⟩)
        | succ j => exact hbefore j (by omega)

/-! ### Occurrences -/

theorem isSome_search_iff {needle : List α} : ∀ {text : List α},
    (search needle text).isSome = true ↔ needle <:+: text := by
  intro text
  induction text with
  | nil =>
      rw [search, List.infix_nil]
      split_ifs with hn
      · exact iff_of_true rfl hn
      · exact iff_of_false (by simp) hn
  | cons a text ih =>
      rw [List.infix_cons_iff, ← ih]
      by_cases hp : needle <+: a :: text
      · rw [search_cons_of_begins hp]
        exact iff_of_true rfl (Or.inl hp)
      · rw [search_cons_of_not_begins hp, Option.isSome_map, or_iff_right hp]

theorem search_eq_none_iff {needle text : List α} :
    search needle text = none ↔ ¬ needle <:+: text := by
  rw [← isSome_search_iff, Option.not_isSome_iff_eq_none]

/-- **The parts of a text that contain the needle** are those that reach behind the first match. -/
theorem infix_take_iff {needle : List α} (hn : needle ≠ []) : ∀ {text : List α} {i : ℕ},
    search needle text = some i → ∀ p, needle <:+: text.take p ↔ i + needle.length ≤ p := by
  intro text
  induction text with
  | nil =>
      intro i h
      simp [search, hn] at h
  | cons a text ih =>
      intro i h p
      by_cases hp : needle <+: a :: text
      · rw [search_cons_of_begins hp] at h
        obtain rfl : 0 = i := Option.some.inj h
        rw [Nat.zero_add]
        constructor
        · intro hin
          exact hin.length_le.trans (List.length_take_le _ _)
        · intro hle
          exact (List.prefix_take_iff.2 ⟨hp, hle⟩).isInfix
      · rw [search_cons_of_not_begins hp] at h
        obtain ⟨j, hj, rfl⟩ := Option.map_eq_some_iff.1 h
        cases p with
        | zero =>
            have hpos : 0 < needle.length := List.length_pos_iff.2 hn
            simp [hn]
        | succ p =>
            have hnot : ¬ needle <+: a :: text.take p := by
              intro hin
              exact hp (hin.trans (List.prefix_cons_inj a |>.2 (List.take_prefix p text)))
            rw [List.take_succ_cons, List.infix_cons_iff, or_iff_right hnot, ih hj p]
            omega

theorem search_append_of_some {needle rest : List α} (hn : needle ≠ []) : ∀ {text : List α} {i : ℕ},
    search needle text = some i → search needle (text ++ rest) = some i := by
  intro text
  induction text with
  | nil =>
      intro i h
      simp [search, hn] at h
  | cons a text ih =>
      intro i h
      by_cases hp : needle <+: a :: text
      · rw [search_cons_of_begins hp] at h
        have hlonger : needle <+: a :: (text ++ rest) :=
          hp.trans (List.prefix_append (a :: text) rest)
        rw [List.cons_append, search_cons_of_begins hlonger, h]
      · rw [search_cons_of_not_begins hp] at h
        obtain ⟨j, hj, rfl⟩ := Option.map_eq_some_iff.1 h
        have hnot : ¬ needle <+: a :: (text ++ rest) := by
          intro hin
          have hle := search_add_le hj hn
          have hshort : needle.length ≤ (a :: text).length := by
            rw [List.length_cons]
            omega
          exact hp (List.prefix_of_prefix_length_le hin (List.prefix_append (a :: text) rest) hshort)
        rw [List.cons_append, search_cons_of_not_begins hnot, ih hj]
        rfl

/-- A search passes over a stretch without a match, up to a character that is in no match. -/
theorem search_append_cons {needle rest : List α} {c : α} (hn : needle ≠ []) (hc : c ∉ needle) :
    ∀ {text : List α}, ¬ needle <:+: text →
      search needle (text ++ c :: rest) = (search needle rest).map (text.length + 1 + ·) := by
  intro text
  induction text with
  | nil =>
      intro _
      have hnot : ¬ needle <+: c :: rest := by
        intro hin
        cases needle with
        | nil => exact hn rfl
        | cons b needle =>
            rw [(List.cons_prefix_cons.1 hin).1] at hc
            exact hc List.mem_cons_self
      rw [List.nil_append, search_cons_of_not_begins hnot]
      congr 1
      funext n
      exact Nat.add_comm n 1
  | cons a text ih =>
      intro htext
      rw [List.infix_cons_iff, not_or] at htext
      have hnot : ¬ needle <+: a :: (text ++ c :: rest) := by
        intro hin
        rcases Nat.lt_or_ge (a :: text).length needle.length with hlt | hge
        · -- a longer match would reach over the character
          have hbegins : (a :: text) ++ [c] <+: needle := by
            refine List.prefix_of_prefix_length_le ?_ hin (by simpa using hlt)
            exact ⟨rest, by simp⟩
          exact hc (hbegins.subset (by simp))
        · exact htext.1 (List.prefix_of_prefix_length_le hin
            (List.prefix_append (a :: text) (c :: rest)) hge)
      rw [List.cons_append, search_cons_of_not_begins hnot, ih htext.2, Option.map_map]
      congr 1
      funext n
      simp only [Function.comp_apply, List.length_cons]
      omega

/-- A needle that does not end in a beginning of itself. -/
def Unbordered (needle : List α) : Prop :=
  ∀ k < needle.length, 0 < k → ¬ needle.drop k <+: needle

instance (needle : List α) : Decidable (Unbordered needle) :=
  inferInstanceAs (Decidable (∀ k < needle.length, 0 < k → ¬ needle.drop k <+: needle))

/-- A search passes over a stretch without a match, up to an unbordered needle. -/
theorem search_append_of_unbordered {needle rest : List α} (hu : Unbordered needle) :
    ∀ {text : List α}, ¬ needle <:+: text →
      search needle (text ++ (needle ++ rest)) = some text.length := by
  intro text
  induction text with
  | nil => intro _; exact search_append_self rest
  | cons a text ih =>
      intro htext
      rw [List.infix_cons_iff, not_or] at htext
      have hnot : ¬ needle <+: a :: (text ++ (needle ++ rest)) := by
        intro hin
        rcases Nat.lt_or_ge (a :: text).length needle.length with hlt | hge
        · -- the match would end in a beginning of the needle
          refine hu (a :: text).length hlt (by simp) ?_
          obtain ⟨tail, htail⟩ := hin
          have hdrop := congrArg (List.drop (a :: text).length) htail
          rw [← List.cons_append, List.drop_left, List.drop_append_of_le_length hlt.le] at hdrop
          refine List.prefix_of_prefix_length_le ⟨tail, hdrop⟩ (List.prefix_append needle rest) ?_
          rw [List.length_drop]
          exact Nat.sub_le _ _
        · exact htext.1 (List.prefix_of_prefix_length_le hin
            (List.prefix_append (a :: text) (needle ++ rest)) hge)
      rw [List.cons_append, search_cons_of_not_begins hnot, ih htext.2]
      rfl

/-- An unbordered needle behind a stretch without a match, and in front of less than itself, stands
there only. -/
theorem eq_of_unbordered {needle text rest before after : List α} (hu : Unbordered needle)
    (htext : ¬ needle <:+: text) (hrest : rest.length < needle.length)
    (h : text ++ (needle ++ rest) = before ++ (needle ++ after)) : before = text ∧ after = rest := by
  have hne : needle ≠ [] := List.ne_nil_of_length_pos (by omega)
  have hfirst : search needle (before ++ (needle ++ after)) = some text.length := by
    rw [← h]
    exact search_append_of_unbordered hu htext
  have hlength := congrArg List.length h
  simp only [List.length_append] at hlength
  -- no match begins in front of the needle
  have hle : text.length ≤ before.length := by
    have hin : needle <:+: (before ++ (needle ++ after)).take (before.length + needle.length) := by
      rw [List.take_length_add_append, List.take_left]
      exact (List.suffix_append before needle).isInfix
    have := (infix_take_iff hne hfirst _).1 hin
    omega
  -- none begins inside it either
  have hnotlt : ¬ text.length < before.length := by
    intro hlt
    refine hu (before.length - text.length) (by omega) (by omega) ?_
    have hdrop := congrArg (List.drop before.length) h
    rw [List.drop_left, List.drop_append, List.drop_eq_nil_of_le hle, List.nil_append,
      List.drop_append_of_le_length (by omega)] at hdrop
    refine List.prefix_of_prefix_length_le ⟨rest, hdrop⟩ (List.prefix_append needle after) ?_
    rw [List.length_drop]
    exact Nat.sub_le _ _
  obtain ⟨htext, hrest⟩ := List.append_inj h (by omega)
  exact ⟨htext.symm, (List.append_cancel_left hrest).symm⟩

/-- A longer needle is found with its beginning, where it begins the rest of the text there. -/
theorem search_append_of_begins {needle more : List α} : ∀ {text : List α} {i : ℕ},
    search needle text = some i → needle ++ more <+: text.drop i →
      search (needle ++ more) text = some i := by
  intro text
  induction text with
  | nil =>
      intro i h hmore
      rw [List.drop_nil, List.prefix_nil, List.append_eq_nil_iff] at hmore
      obtain ⟨rfl, rfl⟩ := hmore
      exact h
  | cons a text ih =>
      intro i h hmore
      by_cases hp : needle <+: a :: text
      · rw [search_cons_of_begins hp] at h
        obtain rfl : 0 = i := Option.some.inj h
        exact search_cons_of_begins hmore
      · rw [search_cons_of_not_begins hp] at h
        obtain ⟨j, hj, rfl⟩ := Option.map_eq_some_iff.1 h
        have hnot : ¬ needle ++ more <+: a :: text := fun hin =>
          hp ((List.prefix_append needle more).trans hin)
        rw [search_cons_of_not_begins hnot, ih hj hmore]
        rfl

/-! ### Searching from a position -/

/-- A match lies at or after the position the search starts from. -/
theorem le_of_find {text needle : List α} {pos i : ℕ} (h : find text needle pos = some i) :
    pos ≤ i := by
  unfold find at h
  split at h
  · obtain ⟨j, -, rfl⟩ := Option.map_eq_some_iff.1 h
    omega
  · simp at h

/-- A match lies inside the text. -/
theorem find_add_le {text needle : List α} {pos i : ℕ} (hn : needle ≠ [])
    (h : find text needle pos = some i) : i + needle.length ≤ text.length := by
  unfold find at h
  split at h
  · obtain ⟨j, hj, rfl⟩ := Option.map_eq_some_iff.1 h
    have := search_add_le hj hn
    rw [List.length_drop] at this
    omega
  · simp at h

/-- **The first occurrence of a character** at or after a position. -/
theorem findChar_spec {text : List α} {c : α} {pos i : ℕ} (h : findChar text c pos = some i) :
    pos ≤ i ∧ text[i]? = some c ∧ ∀ j, pos ≤ j → j < i → text[j]? ≠ some c := by
  have hle : pos ≤ i := le_of_find h
  unfold findChar find at h
  split at h
  · obtain ⟨k, hk, rfl⟩ := Option.map_eq_some_iff.1 h
    obtain ⟨hat, hbefore⟩ := search_singleton_spec hk
    rw [List.getElem?_drop] at hat
    refine ⟨hle, hat, fun j hj hlt => ?_⟩
    have := hbefore (j - pos) (by omega)
    rwa [List.getElem?_drop, Nat.add_sub_cancel' hj] at this
  · simp at h

/-! ### Stretches of a text -/

/-- A stretch of a text: where it starts and how long it is. -/
structure Span where
  /-- The position of its first character. -/
  start : ℕ
  /-- The number of its characters. -/
  length : ℕ
  deriving DecidableEq, Repr

/-- `text.substr(start, length)`. -/
def Span.of (text : List α) (s : Span) : List α := (text.drop s.start).take s.length

end Text
