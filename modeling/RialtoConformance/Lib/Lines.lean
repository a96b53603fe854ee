/-
**Texts put together from lines.**

A needle that holds no line end stands in one line of a text or in none.  Inside a line it may
reach from one piece into the next; it does not where the pieces are apart from it.

Main definitions:

* `Text.joined` — lines with an end behind each;
* `Text.Apart` — no later part of the needle begins the piece.

Main results:

* `Text.infix_append_cons_iff` — a needle beside a character that is not in it;
* `Text.infix_joined_iff` — **a needle without a line end stands in a line**;
* `Text.infix_of_infix_append` — what cannot hold the last character of the needle can be left out;
* `Text.infix_append_of_apart` — a needle stands in one of two pieces when the second is apart.
-/
import RialtoConformance.Lib.Text

set_option relaxedAutoImplicit false
set_option autoImplicit false

namespace Text

variable {α : Type*}

/-- Lines, with `c` behind each of them. -/
def joined (c : α) (lines : List (List α)) : List α := lines.flatMap (· ++ [c])

@[simp] theorem joined_nil (c : α) : joined c [] = [] := rfl

@[simp] theorem joined_cons (c : α) (line : List α) (lines : List (List α)) :
    joined c (line :: lines) = line ++ c :: joined c lines := by
  rw [joined, List.flatMap_cons, List.append_assoc]
  rfl

theorem joined_concat (c : α) (lines : List (List α)) (line : List α) :
    joined c (lines ++ [line]) = joined c lines ++ (line ++ [c]) := by
  rw [joined, List.flatMap_append, List.flatMap_singleton]
  rfl

/-- A needle stands on one side of a character that is not in it. -/
theorem infix_append_cons_iff [DecidableEq α] {needle text rest : List α} {c : α} (hn : needle ≠ [])
    (hc : c ∉ needle) : needle <:+: text ++ c :: rest ↔ needle <:+: text ∨ needle <:+: rest := by
  constructor
  · intro hin
    by_cases htext : needle <:+: text
    · exact Or.inl htext
    · rw [← isSome_search_iff, search_append_cons hn hc htext, Option.isSome_map] at hin
      exact Or.inr (isSome_search_iff.1 hin)
  · rintro (hin | hin)
    · exact hin.trans (List.prefix_append text _).isInfix
    · exact hin.trans ((List.suffix_cons c rest).trans (List.suffix_append text _)).isInfix

/-- **A needle without a line end stands in a line**, or in what stands behind the last one. -/
theorem infix_joined_iff [DecidableEq α] {needle : List α} {c : α} (hn : needle ≠ []) (hc : c ∉ needle)
    {rest : List α} : ∀ {lines : List (List α)}, needle <:+: joined c lines ++ rest ↔
      (∃ line ∈ lines, needle <:+: line) ∨ needle <:+: rest := by
  intro lines
  induction lines with
  | nil => simp only [joined_nil, List.nil_append, List.not_mem_nil, false_and, exists_false,
      false_or]
  | cons line lines ih =>
      rw [joined_cons, List.append_assoc, List.cons_append, infix_append_cons_iff hn hc, ih]
      simp only [List.mem_cons, exists_eq_or_imp, or_assoc]

/-- What cannot hold the last character of the needle can be left out. -/
theorem infix_of_infix_append {needle text rest : List α}
    (hlast : ∀ c, needle.getLast? = some c → c ∉ rest) (hn : needle ≠ [])
    (h : needle <:+: text ++ rest) : needle <:+: text := by
  have hend := List.getLast?_eq_some_getLast hn
  have hnot := hlast _ hend
  rcases List.infix_append_iff_ne_nil.1 h with hin | hin | ⟨front, back, -, hback, heq, -, hstarts⟩
  · exact hin
  · exact absurd (hin.subset (List.getLast_mem hn)) hnot
  · -- the needle would end in the rest
    refine absurd (hstarts.subset ?_) hnot
    have hsame : needle.getLast? = some (back.getLast hback) := by
      rw [heq, List.getLast?_append_of_ne_nil _ hback, List.getLast?_eq_some_getLast hback]
    rw [hend] at hsame
    rw [Option.some.inj hsame]
    exact List.getLast_mem hback

/-- No later part of the needle begins the piece. -/
def Apart (needle piece : List α) : Prop :=
  ∀ k < needle.length, 0 < k → ¬ needle.drop k <+: piece

instance [DecidableEq α] (needle piece : List α) : Decidable (Apart needle piece) :=
  inferInstanceAs (Decidable (∀ k < needle.length, 0 < k → ¬ needle.drop k <+: piece))

/-- A needle stands in one of two pieces when the second is apart from it. -/
theorem infix_append_of_apart {needle text piece : List α} (hapart : Apart needle piece)
    (h : needle <:+: text ++ piece) : needle <:+: text ∨ needle <:+: piece := by
  rcases List.infix_append_iff_ne_nil.1 h with
    hin | hin | ⟨front, back, hfront, hback, rfl, -, hstarts⟩
  · exact Or.inl hin
  · exact Or.inr hin
  · have hpos := List.length_pos_iff.2 hfront
    have hlt := List.length_pos_iff.2 hback
    refine absurd ?_ (hapart front.length (by rw [List.length_append]; omega) hpos)
    rw [List.drop_left]
    exact hstarts

end Text
