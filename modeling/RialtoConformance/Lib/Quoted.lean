/-
**Token texts: quoted words among single characters.**

A text in which every quotation mark delimits a word is a list of tokens, each a quoted word or a
single character.  A scanner that works by substring search on such a text — look for a quoted
name, look for the next separator, take the stretch up to the next quotation mark — can be read
off the tokens, as long as no word contains a quotation mark and no character between two words
occurs in the name.  This module relates the searches of `RialtoConformance/Lib/Text.lean` to the
tokens.

Main definitions:

* `Quoted.Tok`, `Quoted.render` — tokens, and the text they are written as;
* `Quoted.At` — the rest of a text from a position on is a given token list;
* `Quoted.nextTok`, `Quoted.nextWord` — the first occurrence of a given token and of any word, with
  its position and the tokens behind it;
* `Quoted.skipSyms` — the tokens behind a stretch of given characters;
* `Quoted.Spaced` — a token list with layout between its tokens.

Main results:

* `Quoted.find_name` — **searching for a quoted name finds the next word equal to it**;
* `Quoted.find_sym`, `Quoted.find_word` — the same for a separator and for a quotation mark;
* `Quoted.At.of_nextTok`, `Quoted.At.skipSyms` — where the tokens behind
  the match stand;
* `Quoted.spaced_cons_iff` — the first token of a spaced list stands behind some layout.
-/
import RialtoConformance.Lib.Text

set_option relaxedAutoImplicit false
set_option autoImplicit false

namespace Quoted

open Text

/-- A token of a text: a quoted word, or a single character outside quotation marks. -/
inductive Tok (α : Type*)
  | word (s : List α)
  | sym (c : α)
  deriving DecidableEq

variable {α : Type*} [DecidableEq α] (quote : α)

def Tok.render : Tok α → List α
  | .word s => quote :: (s ++ [quote])
  | .sym c => [c]

/-- **The text of a token list.** -/
def render (ts : List (Tok α)) : List α := ts.flatMap (Tok.render quote)

def Tok.size : Tok α → ℕ
  | .word s => s.length + 2
  | .sym _ => 1

omit [DecidableEq α] in
@[simp] theorem render_nil : render quote ([] : List (Tok α)) = [] := rfl

omit [DecidableEq α] in
theorem render_cons (t : Tok α) (ts : List (Tok α)) :
    render quote (t :: ts) = t.render quote ++ render quote ts := rfl

omit [DecidableEq α] in
theorem render_cons_sym (c : α) (ts : List (Tok α)) :
    render quote (.sym c :: ts) = c :: render quote ts := rfl

omit [DecidableEq α] in
theorem render_cons_word (s : List α) (ts : List (Tok α)) :
    render quote (.word s :: ts) = quote :: (s ++ quote :: render quote ts) := by
  simp [render_cons, Tok.render]

omit [DecidableEq α] in
theorem render_append (ts us : List (Tok α)) :
    render quote (ts ++ us) = render quote ts ++ render quote us :=
  List.flatMap_append ..

omit [DecidableEq α] in
@[simp] theorem Tok.length_render (t : Tok α) : (t.render quote).length = t.size := by
  cases t with
  | word s => simp [Tok.render, Tok.size]
  | sym c => rfl

omit [DecidableEq α] in
theorem length_le_length_render (ts : List (Tok α)) : ts.length ≤ (render quote ts).length := by
  induction ts with
  | nil => simp
  | cons t ts ih =>
      have : 1 ≤ t.size := by cases t <;> simp [Tok.size]
      rw [render_cons, List.length_append, Tok.length_render, List.length_cons]
      omega

/-- A token whose word contains no quotation mark, and whose character is not one. -/
def Tok.Plain : Tok α → Prop
  | .word s => quote ∉ s
  | .sym c => c ≠ quote

/-- A token whose character, if it is one, does not occur in `name`. -/
def Tok.Apart (name : List α) : Tok α → Prop
  | .word _ => True
  | .sym c => c ∉ name

/-! ### The tokens from a position on -/

/-- The rest of `text` from `pos` on is the text of `ts`. -/
structure At (text : List α) (pos : ℕ) (ts : List (Tok α)) : Prop where
  /-- The position is inside the text or at its end. -/
  le : pos ≤ text.length
  /-- The rest of the text. -/
  drop_eq : text.drop pos = render quote ts

variable {quote}

omit [DecidableEq α] in
theorem At.start (ts : List (Tok α)) : At quote (render quote ts) 0 ts := ⟨by omega, rfl⟩

omit [DecidableEq α] in
theorem At.tail {text : List α} {pos : ℕ} {t : Tok α} {ts : List (Tok α)}
    (h : At quote text pos (t :: ts)) : At quote text (pos + t.size) ts := by
  have hlen : text.length - pos = t.size + (render quote ts).length := by
    rw [← List.length_drop, h.drop_eq, render_cons, List.length_append, Tok.length_render]
  refine ⟨by have := h.le; omega, ?_⟩
  rw [← List.drop_drop, h.drop_eq, render_cons, ← Tok.length_render quote t, List.drop_left]

omit [DecidableEq α] in
theorem At.getElem?_sym {text : List α} {pos : ℕ} {c : α} {ts : List (Tok α)}
    (h : At quote text pos (.sym c :: ts)) : text[pos]? = some c := by
  have := congrArg (·[0]?) h.drop_eq
  simpa [render_cons_sym] using this

omit [DecidableEq α] in
theorem At.getElem?_word {text : List α} {pos : ℕ} {s : List α} {ts : List (Tok α)}
    (h : At quote text pos (.word s :: ts)) : text[pos]? = some quote := by
  have := congrArg (·[0]?) h.drop_eq
  simpa [render_cons_word] using this

omit [DecidableEq α] in
theorem At.getElem?_nil {text : List α} {pos : ℕ} (h : At quote text pos []) :
    text[pos]? = none := by
  have := congrArg (·[0]?) h.drop_eq
  simpa using this

omit [DecidableEq α] in
theorem At.span_word {text : List α} {pos : ℕ} {s : List α} {ts : List (Tok α)}
    (h : At quote text pos (.word s :: ts)) : Span.of text ⟨pos + 1, s.length⟩ = s := by
  rw [Span.of, ← List.drop_drop, h.drop_eq, render_cons_word]
  simp

theorem At.find {text needle : List α} {pos : ℕ} {ts : List (Tok α)} (h : At quote text pos ts) :
    find text needle pos = (search needle (render quote ts)).map (pos + ·) := by
  rw [Text.find, if_pos h.le, h.drop_eq]

/-! ### The next occurrence of a token -/

/-- The first occurrence of the token `u`: its position and the tokens behind it. -/
def nextTok (u : Tok α) : List (Tok α) → ℕ → Option (ℕ × List (Tok α))
  | [], _ => none
  | t :: ts, pos => if t = u then some (pos, ts) else nextTok u ts (pos + t.size)

/-- The tokens behind an occurrence, and the occurrence itself, are tokens of the list. -/
theorem suffix_of_nextTok {u : Tok α} : ∀ {ts us : List (Tok α)} {pos p : ℕ},
    nextTok u ts pos = some (p, us) → (u :: us) <:+ ts := by
  intro ts
  induction ts with
  | nil => intro us pos p h; simp [nextTok] at h
  | cons t ts ih =>
      intro us pos p h
      rw [nextTok] at h
      split at h
      · rename_i ht
        simp only [Option.some.injEq, Prod.mk.injEq] at h
        rw [ht, h.2]
      · exact (ih h).trans (List.suffix_cons t ts)

theorem length_of_nextTok {u : Tok α} {ts us : List (Tok α)} {pos p : ℕ}
    (h : nextTok u ts pos = some (p, us)) : us.length < ts.length :=
  (suffix_of_nextTok h).length_le

theorem le_of_nextTok {u : Tok α} : ∀ {ts us : List (Tok α)} {pos p : ℕ},
    nextTok u ts pos = some (p, us) → pos ≤ p := by
  intro ts
  induction ts with
  | nil => intro us pos p h; simp [nextTok] at h
  | cons t ts ih =>
      intro us pos p h
      rw [nextTok] at h
      split at h
      · simp only [Option.some.injEq, Prod.mk.injEq] at h
        omega
      · have := ih h
        omega

/-- Where the tokens behind an occurrence stand. -/
theorem At.of_nextTok {u : Tok α} {text : List α} : ∀ {ts us : List (Tok α)} {pos p : ℕ},
    At quote text pos ts → nextTok u ts pos = some (p, us) → At quote text (p + u.size) us := by
  intro ts
  induction ts with
  | nil => intro us pos p _ h; simp [nextTok] at h
  | cons t ts ih =>
      intro us pos p hat h
      rw [nextTok] at h
      split at h
      · rename_i ht
        simp only [Option.some.injEq, Prod.mk.injEq] at h
        obtain ⟨rfl, rfl⟩ := h
        rw [← ht]
        exact hat.tail
      · exact ih hat.tail h

theorem nextTok_append {u : Tok α} : ∀ {xs : List (Tok α)} (ts : List (Tok α)) (pos : ℕ),
    u ∉ xs → nextTok u (xs ++ ts) pos = nextTok u ts (pos + (xs.map Tok.size).sum) := by
  intro xs
  induction xs with
  | nil => intro ts pos _; simp
  | cons x xs ih =>
      intro ts pos h
      rw [List.mem_cons, not_or] at h
      rw [List.cons_append, nextTok, if_neg (Ne.symm h.1), ih _ _ h.2, List.map_cons,
        List.sum_cons, Nat.add_assoc]

theorem nextTok_of_not_mem {u : Tok α} {ts : List (Tok α)} (pos : ℕ) (h : u ∉ ts) :
    nextTok u ts pos = none := by
  have hnil := nextTok_append [] pos h
  rwa [List.append_nil] at hnil

omit [DecidableEq α] in
private theorem not_quote_begins_render {name : List α} (hname : name ≠ []) (hq : quote ∉ name)
    {ts : List (Tok α)} (hplain : ∀ t ∈ ts, t.Plain quote) (hapart : ∀ t ∈ ts, t.Apart name) :
    ¬ (quote :: (name ++ [quote])) <+: quote :: render quote ts := by
  obtain ⟨a, name, rfl⟩ := List.exists_cons_of_ne_nil hname
  intro h
  have h := (List.cons_prefix_cons.1 h).2
  cases ts with
  | nil => simp at h
  | cons t ts =>
      cases t with
      | word s =>
          rw [render_cons_word, List.cons_append, List.cons_prefix_cons] at h
          exact hq (by simp [h.1])
      | sym c =>
          rw [render_cons_sym, List.cons_append, List.cons_prefix_cons] at h
          have := hapart (.sym c) (by simp)
          exact this (by simp [h.1])

omit [DecidableEq α] in
private theorem eq_of_append_quote_begins {s t rest : List α} (hs : quote ∉ s) (ht : quote ∉ t)
    (h : (s ++ [quote]) <+: t ++ quote :: rest) : s = t := by
  induction s generalizing t with
  | nil =>
      cases t with
      | nil => rfl
      | cons b t =>
          rw [List.nil_append, List.cons_append, List.cons_prefix_cons] at h
          exact absurd h.1 (by rintro rfl; simp at ht)
  | cons a s ih =>
      cases t with
      | nil =>
          rw [List.cons_append, List.nil_append, List.cons_prefix_cons] at h
          exact absurd h.1 (by rintro rfl; simp at hs)
      | cons b t =>
          rw [List.cons_append, List.cons_append, List.cons_prefix_cons] at h
          rw [h.1, ih (by simp_all) (by simp_all) h.2]

/-- **Searching for a quoted name finds the next word equal to it.** -/
theorem search_name {name : List α} (hname : name ≠ []) (hq : quote ∉ name) :
    ∀ {ts : List (Tok α)} (pos : ℕ), (∀ t ∈ ts, t.Plain quote) → (∀ t ∈ ts, t.Apart name) →
      (search (quote :: (name ++ [quote])) (render quote ts)).map (pos + ·) =
        (nextTok (.word name) ts pos).map Prod.fst := by
  intro ts
  induction ts with
  | nil => intro pos _ _; simp [search, nextTok]
  | cons t ts ih =>
      intro pos hplain hapart
      have hplain' : ∀ t ∈ ts, t.Plain quote := fun u hu => hplain u (List.mem_cons_of_mem _ hu)
      have hapart' : ∀ t ∈ ts, t.Apart name := fun u hu => hapart u (List.mem_cons_of_mem _ hu)
      -- either the token is the name, or no match begins inside it
      by_cases ht : t = .word name
      · subst ht
        rw [nextTok, if_pos rfl, render_cons, Tok.render, search_append_self]
        simp
      · have hskip : search (quote :: (name ++ [quote])) (render quote (t :: ts)) =
            (search (quote :: (name ++ [quote])) (render quote ts)).map (t.size + ·) := by
          cases t with
          | sym c =>
              have hc : c ≠ quote := hplain (.sym c) (by simp)
              have hgap : ∀ a ∈ [c], a ≠ quote := by simpa using hc
              exact search_append_of_forall_ne hgap
          | word s =>
              have hs : quote ∉ s := hplain (.word s) (by simp)
              have hopen : ¬ (quote :: (name ++ [quote])) <+: quote :: (s ++ quote :: render quote ts) :=
                fun h => ht (by rw [eq_of_append_quote_begins hq hs (List.cons_prefix_cons.1 h).2])
              have hgap : ∀ a ∈ s, a ≠ quote := fun a ha hqa => hs (by rwa [← hqa])
              rw [render_cons_word, search_cons_of_not_begins hopen,
                search_append_of_forall_ne hgap,
                search_cons_of_not_begins (not_quote_begins_render hname hq hplain' hapart')]
              simp only [Option.map_map]
              congr 1
              funext n
              simp only [Function.comp_apply, Tok.size]
              omega
        rw [nextTok, if_neg ht, hskip, Option.map_map, ← ih _ hplain' hapart']
        congr 1
        funext n
        simp only [Function.comp_apply]
        omega

/-- `find` of a quoted name, from the position of a token list. -/
theorem find_name {name text : List α} {pos : ℕ} {ts : List (Tok α)} (h : At quote text pos ts)
    (hname : name ≠ []) (hq : quote ∉ name) (hplain : ∀ t ∈ ts, t.Plain quote)
    (hapart : ∀ t ∈ ts, t.Apart name) :
    find text (quote :: (name ++ [quote])) pos = (nextTok (.word name) ts pos).map Prod.fst := by
  rw [h.find, search_name hname hq pos hplain hapart]

/-! ### The next separator -/

/-- A token whose word does not contain `c`. -/
def Tok.Free (c : α) : Tok α → Prop
  | .word s => c ∉ s
  | .sym _ => True

theorem search_sym {c : α} (hc : c ≠ quote) : ∀ {ts : List (Tok α)} (pos : ℕ),
    (∀ t ∈ ts, t.Free c) →
      (search [c] (render quote ts)).map (pos + ·) = (nextTok (.sym c) ts pos).map Prod.fst := by
  intro ts
  induction ts with
  | nil => intro pos _; simp [search, nextTok]
  | cons t ts ih =>
      intro pos hfree
      have hfree' : ∀ t ∈ ts, t.Free c := fun u hu => hfree u (List.mem_cons_of_mem _ hu)
      by_cases ht : t = .sym c
      · subst ht
        have hhit : search [c] ([c] ++ render quote ts) = some 0 := search_append_self _
        rw [nextTok, if_pos rfl, render_cons, Tok.render, hhit]
        simp
      · -- nothing the token is written with is the separator
        have hgap : ∀ a ∈ t.render quote, a ≠ c := by
          cases t with
          | sym d =>
              intro a ha hac
              rw [Tok.render, List.mem_singleton] at ha
              exact ht (by rw [← ha, hac])
          | word s =>
              have hs : c ∉ s := hfree (.word s) (by simp)
              intro a ha hac
              subst hac
              simp only [Tok.render, List.mem_cons, List.mem_append, List.not_mem_nil,
                or_false] at ha
              rcases ha with h | h | h
              · exact hc h
              · exact hs h
              · exact hc h
        rw [nextTok, if_neg ht, render_cons, search_append_of_forall_ne hgap, Tok.length_render,
          Option.map_map, ← ih _ hfree']
        congr 1
        funext n
        simp only [Function.comp_apply]
        omega

/-- `find` of a separator, from the position of a token list. -/
theorem find_sym {c : α} (hc : c ≠ quote) {text : List α} {pos : ℕ} {ts : List (Tok α)}
    (h : At quote text pos ts) (hfree : ∀ t ∈ ts, t.Free c) :
    findChar text c pos = (nextTok (.sym c) ts pos).map Prod.fst := by
  rw [findChar, h.find, search_sym hc pos hfree]

/-! ### The end of a word, and the next word -/

theorem findChar_close {text : List α} {pos : ℕ} {s : List α} {ts : List (Tok α)}
    (h : At quote text pos (.word s :: ts)) (hs : quote ∉ s) :
    findChar text quote (pos + 1) = some (pos + 1 + s.length) := by
  have hle : pos + 1 ≤ text.length := by
    have := h.tail.le
    simp only [Tok.size] at this
    omega
  have hdrop : text.drop (pos + 1) = s ++ quote :: render quote ts := by
    rw [← List.drop_drop, h.drop_eq, render_cons_word]
    rfl
  have hgap : ∀ a ∈ s, a ≠ quote := fun a ha hqa => hs (by rwa [← hqa])
  have hhit : search [quote] ([quote] ++ render quote ts) = some 0 := search_append_self _
  rw [List.singleton_append] at hhit
  rw [findChar, Text.find, if_pos hle, hdrop, search_append_of_forall_ne hgap, hhit]
  rfl

/-- The first word: its position, its contents and the tokens behind it. -/
def nextWord : List (Tok α) → ℕ → Option (ℕ × List α × List (Tok α))
  | [], _ => none
  | .word s :: ts, pos => some (pos, s, ts)
  | .sym _ :: ts, pos => nextWord ts (pos + 1)

/-- Searching for a quotation mark finds the next word. -/
theorem find_word : ∀ {ts : List (Tok α)} {text : List α} {pos : ℕ}, At quote text pos ts →
    (∀ t ∈ ts, t.Plain quote) → findChar text quote pos = (nextWord ts pos).map Prod.fst := by
  intro ts text pos h hplain
  rw [findChar, h.find]
  clear h
  induction ts generalizing pos with
  | nil => simp [search, nextWord]
  | cons t ts ih =>
      cases t with
      | word s =>
          have hhit : search [quote] ([quote] ++ (s ++ quote :: render quote ts)) = some 0 :=
            search_append_self _
          rw [List.singleton_append] at hhit
          rw [render_cons_word, hhit]
          simp [nextWord]
      | sym c =>
          have hgap : ∀ a ∈ [c], a ≠ quote := by
            have : c ≠ quote := hplain (.sym c) (by simp)
            simpa using this
          have hskip : search [quote] (c :: render quote ts) =
              (search [quote] (render quote ts)).map (1 + ·) := search_append_of_forall_ne hgap
          rw [nextWord, render_cons_sym, hskip, Option.map_map,
            ← ih fun u hu => hplain u (List.mem_cons_of_mem _ hu)]
          congr 1
          funext n
          simp only [Function.comp_apply]
          omega

/-! ### Skipping single characters -/

/-- The tokens behind a stretch of single characters satisfying `p`, and where they stand. -/
def skipSyms (p : α → Bool) : List (Tok α) → ℕ → ℕ × List (Tok α)
  | [], pos => (pos, [])
  | .word s :: ts, pos => (pos, .word s :: ts)
  | .sym c :: ts, pos => if p c then skipSyms p ts (pos + 1) else (pos, .sym c :: ts)

omit [DecidableEq α] in
theorem At.skipSyms {p : α → Bool} {text : List α} : ∀ {ts : List (Tok α)} {pos : ℕ},
    At quote text pos ts →
      At quote text (Quoted.skipSyms p ts pos).1 (Quoted.skipSyms p ts pos).2 := by
  intro ts
  induction ts with
  | nil => intro pos h; exact h
  | cons t ts ih =>
      intro pos h
      cases t with
      | word s => exact h
      | sym c =>
          rw [Quoted.skipSyms]
          split
          · exact ih h.tail
          · exact h

omit [DecidableEq α] in
theorem skipSyms_fst {p : α → Bool} (hq : p quote = false) {text : List α} :
    ∀ {ts : List (Tok α)} {pos : ℕ}, At quote text pos ts →
      pos + ((text.drop pos).takeWhile p).length = (skipSyms p ts pos).1 := by
  intro ts
  induction ts with
  | nil => intro pos h; simp [h.drop_eq, skipSyms]
  | cons t ts ih =>
      intro pos h
      cases t with
      | word s => simp [h.drop_eq, render_cons_word, skipSyms, hq]
      | sym c =>
          rw [h.drop_eq, render_cons_sym, skipSyms]
          by_cases hc : p c = true
          · have hnext := ih h.tail
            rw [h.tail.drop_eq] at hnext
            simp only [Tok.size] at hnext
            rw [if_pos hc, ← hnext, List.takeWhile_cons_of_pos hc, List.length_cons]
            omega
          · rw [if_neg hc, List.takeWhile_cons_of_neg hc]
            rfl

omit [DecidableEq α] in
theorem suffix_of_skipSyms {p : α → Bool} : ∀ {ts : List (Tok α)} {pos : ℕ},
    (skipSyms p ts pos).2 <:+ ts := by
  intro ts
  induction ts with
  | nil => intro pos; exact List.suffix_refl _
  | cons t ts ih =>
      intro pos
      cases t with
      | word s => exact List.suffix_refl _
      | sym c =>
          rw [skipSyms]
          split
          · exact ih.trans (List.suffix_cons _ _)
          · exact List.suffix_refl _

/-! ### Layout -/

def Tok.isLayout (layout : α → Bool) : Tok α → Bool
  | .word _ => false
  | .sym c => layout c

/-- **The tokens `ts` with layout between them.** -/
def Spaced (layout : α → Bool) (ts ts' : List (Tok α)) : Prop :=
  ts'.filter (fun t => !t.isLayout layout) = ts

omit [DecidableEq α] in
theorem spaced_nil_iff {layout : α → Bool} {ts' : List (Tok α)} :
    Spaced layout [] ts' ↔ ∀ t ∈ ts', t.isLayout layout = true := by
  rw [Spaced, List.filter_eq_nil_iff]
  simp

omit [DecidableEq α] in
/-- The first token stands behind some layout. -/
theorem spaced_cons_iff {layout : α → Bool} {t : Tok α} {ts ts' : List (Tok α)} :
    Spaced layout (t :: ts) ts' ↔ ∃ ws us, ts' = ws ++ t :: us ∧
      (∀ w ∈ ws, w.isLayout layout = true) ∧ t.isLayout layout = false ∧
        Spaced layout ts us := by
  rw [Spaced, List.filter_eq_cons_iff]
  simp [Spaced]

omit [DecidableEq α] in
theorem Spaced.refl {layout : α → Bool} {ts : List (Tok α)}
    (h : ∀ t ∈ ts, t.isLayout layout = false) : Spaced layout ts ts :=
  List.filter_eq_self.2 fun t ht => by rw [h t ht]; rfl

omit [DecidableEq α] in
theorem Spaced.mem {layout : α → Bool} {ts ts' : List (Tok α)} (h : Spaced layout ts ts')
    {t : Tok α} (ht : t ∈ ts') : t ∈ ts ∨ t.isLayout layout = true := by
  cases hl : t.isLayout layout with
  | true => exact Or.inr rfl
  | false =>
      left
      rw [← h, List.mem_filter]
      exact ⟨ht, by rw [hl]; rfl⟩

omit [DecidableEq α] in
theorem ne_word_of_isLayout {layout : α → Bool} {t : Tok α} (h : t.isLayout layout = true)
    (s : List α) : t ≠ .word s := by
  rintro rfl
  exact absurd h (by simp [Tok.isLayout])

omit [DecidableEq α] in
theorem skipSyms_append {p : α → Bool} : ∀ {xs : List (Tok α)} (ts : List (Tok α)) (pos : ℕ),
    (∀ t ∈ xs, t.isLayout p = true) →
      skipSyms p (xs ++ ts) pos = skipSyms p ts (pos + xs.length) := by
  intro xs
  induction xs with
  | nil => intro ts pos _; rfl
  | cons x xs ih =>
      intro ts pos h
      have hx := h x (by simp)
      cases x with
      | word s => exact absurd hx (by simp [Tok.isLayout])
      | sym c =>
          rw [Tok.isLayout] at hx
          rw [List.cons_append, skipSyms, if_pos hx,
            ih _ _ fun t ht => h t (List.mem_cons_of_mem _ ht), List.length_cons]
          congr 1
          omega

omit [DecidableEq α] in
theorem skipSyms_stop {p layout : α → Bool} : ∀ {xs : List (Tok α)} (ts : List (Tok α)) (pos : ℕ),
    (∀ t ∈ xs, t.isLayout layout = true) → (∃ t ∈ xs, t.isLayout p = false) →
      ∃ cursor c rest, skipSyms p (xs ++ ts) pos = (cursor, .sym c :: rest) ∧
        layout c = true ∧ p c = false := by
  intro xs
  induction xs with
  | nil => rintro ts pos - ⟨t, ht, -⟩; simp at ht
  | cons x xs ih =>
      rintro ts pos h ⟨t, ht, hstop⟩
      have hx := h x (by simp)
      cases x with
      | word s => exact absurd hx (by simp [Tok.isLayout])
      | sym c =>
          rw [List.cons_append, skipSyms]
          cases hc : p c with
          | false => exact ⟨pos, c, xs ++ ts, by simp, hx, hc⟩
          | true =>
              rw [if_pos rfl]
              refine ih ts (pos + 1) (fun t ht => h t (List.mem_cons_of_mem _ ht)) ⟨t, ?_, hstop⟩
              rcases List.mem_cons.1 ht with rfl | ht
              · exact absurd hc (by rw [Tok.isLayout] at hstop; simp [hstop])
              · exact ht

end Quoted
