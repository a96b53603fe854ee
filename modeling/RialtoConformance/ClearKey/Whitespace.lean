/-
**Whitespace in the documents of the exchange.**

A `"kids"` document and a JWK set may be written with whitespace between their tokens.  The scanner
searches for names, colons and quotation marks, so it passes over whitespace nearly everywhere; the
one place where it looks at the next character is behind a colon, and there it skips spaces, tabs
and line feeds, but not carriage returns.

Main definitions:

* `ClearKey.isWhitespace` — the whitespace of JSON;
* `ClearKey.NoReturn` — no carriage return stands behind the colon of a member;
* `ClearKey.NamesOnly` — a name is written only in front of a string;
* `ClearKey.SameKeyIds`, `ClearKey.SameLicence` — two texts mean the same as init data, and as a
  response;
* `ClearKey.Message` — a well-formed message of either kind.

Main results:

* `ClearKey.takenWords_spaced` — **what whitespace does to the members of a name**;
* `ClearKey.takenWords_kidsToks` — what it does to an array;
* `ClearKey.whitespace_iff` — **when whitespace does not change the meaning**.
-/
import RialtoConformance.ClearKey.JwkLicence
import RialtoConformance.ClearKey.Request

set_option relaxedAutoImplicit false
set_option autoImplicit false

namespace ClearKey

open Text Quoted

/-! ### The whitespace of JSON -/

/-- `'\r'`. -/
def carriageReturn : UInt8 := 13

/-- The whitespace of JSON: space, tab, line feed and carriage return. -/
def isWhitespace (c : UInt8) : Bool := c = 32 || c = 9 || c = 10 || c = carriageReturn

theorem isBlank_iff {c : UInt8} (h : isWhitespace c = true) :
    isBlank c = true ↔ c ≠ carriageReturn := by
  simp only [isWhitespace, isBlank, Bool.or_eq_true, decide_eq_true_eq] at h ⊢
  constructor
  · rintro hblank rfl
    revert hblank
    decide
  · intro hreturn
    rcases h with h | h
    · exact h
    · exact absurd h hreturn

theorem isLayout_isBlank_iff {t : Tok UInt8} (h : t.isLayout isWhitespace = true) :
    t.isLayout isBlank = true ↔ t ≠ punct carriageReturn := by
  cases t with
  | word s => exact absurd h (by simp [Tok.isLayout])
  | sym c =>
      have := isBlank_iff h
      simpa [Tok.isLayout] using this

theorem isLayout_of_isDocumentTok {t : Tok UInt8} (h : IsDocumentTok t) :
    t.isLayout isWhitespace = false := by
  cases t with
  | word s => rfl
  | sym c =>
      have hsub : ∀ d ∈ ascii "\x7b\x7d[],:", isWhitespace d = false := by decide +kernel
      exact hsub c h

theorem readable_of_isLayout {key : Bytes} (hkey : ∀ c ∈ key, IsAlphabet c) {t : Tok UInt8}
    (h : t.isLayout isWhitespace = true) : Readable key t := by
  cases t with
  | word s => exact absurd h (by simp [Tok.isLayout])
  | sym c =>
      have hspace : c = 32 ∨ c = 9 ∨ c = 10 ∨ c = carriageReturn := by
        simpa [Tok.isLayout, isWhitespace, or_assoc] using h
      have hsub : c ∈ ascii "=\":,[]\x7b\x7d \t\n\r" ∧ c ≠ quote := by
        rcases hspace with rfl | rfl | rfl | rfl <;> decide
      exact ⟨hsub.2, fun hmem => not_mem_of_isAlphabet (hkey c hmem) hsub.1, trivial, trivial⟩

/-! ### What the scanner takes -/

/-- The words the scanner takes for the field `key`. -/
def takenWords (key : Bytes) (ts : List (Tok UInt8)) (pos : ℕ) : List Bytes :=
  (scanToks key ts pos).map Prod.snd

theorem takenWords_append {key : Bytes} {xs : List (Tok UInt8)} (h : str key ∉ xs)
    (ts : List (Tok UInt8)) (pos : ℕ) :
    takenWords key (xs ++ ts) pos = takenWords key ts (pos + (xs.map Tok.size).sum) :=
  congrArg _ (scanToks_congr (nextTok_append ts pos h))

theorem takenWords_cons_of_ne {key : Bytes} {t : Tok UInt8} (h : t ≠ str key)
    (ts : List (Tok UInt8)) (pos : ℕ) :
    takenWords key (t :: ts) pos = takenWords key ts (pos + t.size) :=
  congrArg _ (scanToks_cons_of_ne h ts pos)

theorem word_not_mem_of_isLayout {ws : List (Tok UInt8)}
    (h : ∀ t ∈ ws, t.isLayout isWhitespace = true) (s : Bytes) : str s ∉ ws := fun hmem =>
  ne_word_of_isLayout (h _ hmem) s rfl

theorem punct_not_mem_of_isLayout {ws : List (Tok UInt8)}
    (h : ∀ t ∈ ws, t.isLayout isWhitespace = true) {c : UInt8} (hc : isWhitespace c = false) :
    punct c ∉ ws := fun hmem => by
  have := h _ hmem
  rw [Tok.isLayout, hc] at this
  exact absurd this (by decide)

section Member

variable {key : Bytes} {ws ws' us : List (Tok UInt8)}

theorem nextTok_spaced (hws : ∀ t ∈ ws, t.isLayout isWhitespace = true) (pos : ℕ) :
    nextTok (.word key) (str key :: (ws ++ punct colon :: us)) pos =
        some (pos, ws ++ punct colon :: us) ∧
      ∃ s, nextTok (.sym colon) (ws ++ punct colon :: us) (pos + (key.length + 2)) =
        some (s, us) := by
  refine ⟨by rw [nextTok, if_pos rfl], ?_⟩
  rw [nextTok_append _ _ (punct_not_mem_of_isLayout hws (by decide)), nextTok, if_pos rfl]
  exact ⟨_, rfl⟩

theorem takenWords_string (hws : ∀ t ∈ ws, t.isLayout isWhitespace = true)
    (hws' : ∀ t ∈ ws', t.isLayout isBlank = true) (v : Bytes) (pos : ℕ) :
    ∃ q, takenWords key (str key :: (ws ++ punct colon :: (ws' ++ str v :: us))) pos =
      v :: takenWords key us q := by
  obtain ⟨hname, s, hsep⟩ := @nextTok_spaced key ws (ws' ++ str v :: us) hws pos
  have hskip : skipSyms isBlank (ws' ++ str v :: us) (s + 1) =
      (s + 1 + ws'.length, .word v :: us) := skipSyms_append _ _ hws'
  rw [takenWords, scanToks_of_string hname hsep hskip]
  exact ⟨_, rfl⟩

/-- The words of an array behind the colon and blanks are taken, and the search goes on inside the
array. -/
theorem takenWords_array (hws : ∀ t ∈ ws, t.isLayout isWhitespace = true)
    (hws' : ∀ t ∈ ws', t.isLayout isBlank = true) (pos : ℕ) :
    ∃ p q, takenWords key (str key :: (ws ++ punct colon :: (ws' ++ punct bracket :: us))) pos =
      (arrayWords us p).map Prod.snd ++
        takenWords key (ws ++ punct colon :: (ws' ++ punct bracket :: us)) q := by
  obtain ⟨hname, s, hsep⟩ := @nextTok_spaced key ws (ws' ++ punct bracket :: us) hws pos
  have hskip : skipSyms isBlank (ws' ++ punct bracket :: us) (s + 1) =
      (s + 1 + ws'.length, .sym bracket :: us) := by
    rw [skipSyms_append _ _ hws', skipSyms, if_neg (by decide)]
  rw [takenWords, scanToks_of_array hname hsep hskip, List.map_append]
  exact ⟨_, _, rfl⟩

theorem takenWords_return (hws : ∀ t ∈ ws, t.isLayout isWhitespace = true)
    (hws' : ∀ t ∈ ws', t.isLayout isWhitespace = true) (hreturn : punct carriageReturn ∈ ws')
    (pos : ℕ) :
    ∃ q, takenWords key (str key :: (ws ++ punct colon :: (ws' ++ us))) pos =
      takenWords key (ws ++ punct colon :: (ws' ++ us)) q := by
  obtain ⟨hname, s, hsep⟩ := @nextTok_spaced key ws (ws' ++ us) hws pos
  obtain ⟨cursor, c, rest, hskip, hlayout, -⟩ :=
    skipSyms_stop (p := isBlank) us (s + 1) hws' ⟨_, hreturn, by decide⟩
  have hbracket : c ≠ bracket := by
    rintro rfl
    exact absurd hlayout (by decide)
  rw [takenWords, scanToks_of_other hname hsep (by simp [hskip]) (by simpa [hskip] using hbracket)]
  exact ⟨_, rfl⟩

theorem takenWords_behind (hws : ∀ t ∈ ws, t.isLayout isWhitespace = true)
    (hws' : ∀ t ∈ ws', t.isLayout isWhitespace = true) (pos : ℕ) :
    ∃ q, takenWords key (ws ++ punct colon :: (ws' ++ us)) pos = takenWords key us q := by
  rw [takenWords_append (word_not_mem_of_isLayout hws key), takenWords_cons_of_ne (by simp),
    takenWords_append (word_not_mem_of_isLayout hws' key)]
  exact ⟨_, rfl⟩

/-- **A member in a spaced document**: its value is taken unless a carriage return stands behind its
colon. -/
theorem takenWords_member {v : Bytes} (hv : v ≠ key)
    (hws : ∀ t ∈ ws, t.isLayout isWhitespace = true)
    (hws' : ∀ t ∈ ws', t.isLayout isWhitespace = true) (pos : ℕ) :
    ∃ q, takenWords key (str key :: (ws ++ punct colon :: (ws' ++ str v :: us))) pos =
      if punct carriageReturn ∈ ws' then takenWords key us q else v :: takenWords key us q := by
  by_cases hreturn : punct carriageReturn ∈ ws'
  · -- the scanner stops at the carriage return, and goes on behind the value
    obtain ⟨q, hq⟩ := @takenWords_return key ws ws' (str v :: us) hws hws' hreturn pos
    obtain ⟨q', hq'⟩ := @takenWords_behind key ws ws' (str v :: us) hws hws' q
    have hvalue : str v ≠ str key := fun heq => hv (Tok.word.inj heq)
    rw [hq, hq', takenWords_cons_of_ne hvalue]
    exact ⟨_, (if_pos hreturn).symm⟩
  · have hblank : ∀ t ∈ ws', t.isLayout isBlank = true := fun t ht =>
      (isLayout_isBlank_iff (hws' t ht)).2 fun heq => hreturn (heq ▸ ht)
    obtain ⟨q, hq⟩ := @takenWords_string key ws ws' us hws hblank v pos
    rw [hq]
    exact ⟨q, (if_neg hreturn).symm⟩

end Member

/-! ### Carriage returns behind a colon -/

/-- The whitespace behind the colon, if a colon is the next token but whitespace. -/
def behindColon (ts : List (Tok UInt8)) : List (Tok UInt8) :=
  match ts.dropWhile (Tok.isLayout isWhitespace) with
  | .sym c :: us => if c = colon then us.takeWhile (Tok.isLayout isWhitespace) else []
  | _ => []

/-- **No carriage return stands behind the colon** of a member named `key`, in the whitespace
directly behind it. -/
def NoReturn (key : Bytes) : List (Tok UInt8) → Prop
  | [] => True
  | t :: ts => (t = str key → punct carriageReturn ∉ behindColon ts) ∧ NoReturn key ts

instance (key : Bytes) : ∀ ts : List (Tok UInt8), Decidable (NoReturn key ts)
  | [] => isTrue trivial
  | _ :: ts => @instDecidableAnd _ _ inferInstance (instDecidableNoReturn key ts)

theorem noReturn_append {key : Bytes} {ts : List (Tok UInt8)} : ∀ {xs : List (Tok UInt8)},
    str key ∉ xs → (NoReturn key (xs ++ ts) ↔ NoReturn key ts) := by
  intro xs
  induction xs with
  | nil => intro _; rfl
  | cons x xs ih =>
      intro h
      rw [List.mem_cons, not_or] at h
      rw [List.cons_append, NoReturn, ih h.2]
      exact and_iff_right fun hx => absurd hx.symm h.1

theorem mem_behindColon {ts : List (Tok UInt8)} {t : Tok UInt8} (h : t ∈ behindColon ts) :
    punct colon ∈ ts ∧ t ∈ ts := by
  rw [behindColon] at h
  split at h
  · rename_i c us hdrop
    have hsuffix : punct c :: us <:+ ts := by
      rw [← hdrop]
      exact List.dropWhile_suffix _
    split_ifs at h with hc
    · subst hc
      have hmem : t ∈ us := (List.takeWhile_prefix _).mem h
      exact ⟨hsuffix.mem (by simp), hsuffix.mem (List.mem_cons_of_mem _ hmem)⟩
    · simp at h
  · simp at h

theorem noReturn_of_not_mem {key : Bytes} : ∀ {ts : List (Tok UInt8)},
    punct colon ∉ ts ∨ punct carriageReturn ∉ ts → NoReturn key ts := by
  intro ts
  induction ts with
  | nil => intro _; trivial
  | cons t ts ih =>
      intro h
      have hts : punct colon ∉ ts ∨ punct carriageReturn ∉ ts :=
        h.imp (fun h hmem => h (List.mem_cons_of_mem _ hmem))
          fun h hmem => h (List.mem_cons_of_mem _ hmem)
      refine ⟨fun _ hmem => ?_, ih hts⟩
      obtain ⟨hcolon, hreturn⟩ := mem_behindColon hmem
      rcases hts with hts | hts
      · exact hts hcolon
      · exact hts hreturn

theorem behindColon_member {ws ws' us : List (Tok UInt8)} {t : Tok UInt8}
    (hws : ∀ t ∈ ws, t.isLayout isWhitespace = true)
    (hws' : ∀ t ∈ ws', t.isLayout isWhitespace = true) (ht : t.isLayout isWhitespace = false) :
    behindColon (ws ++ punct colon :: (ws' ++ t :: us)) = ws' := by
  have hcolon : (punct colon).isLayout isWhitespace = false := by decide
  rw [behindColon, List.dropWhile_append_of_pos hws, List.dropWhile_cons_of_neg (by simp [hcolon])]
  simp only [if_true]
  rw [List.takeWhile_append_of_pos hws', List.takeWhile_cons_of_neg (by simp [ht]),
    List.append_nil]

theorem noReturn_member {key : Bytes} {ws ws' us : List (Tok UInt8)} {t : Tok UInt8}
    (hws : ∀ t ∈ ws, t.isLayout isWhitespace = true)
    (hws' : ∀ t ∈ ws', t.isLayout isWhitespace = true) (ht : t.isLayout isWhitespace = false)
    (hkey : t ≠ str key) :
    NoReturn key (str key :: (ws ++ punct colon :: (ws' ++ t :: us))) ↔
      punct carriageReturn ∉ ws' ∧ NoReturn key us := by
  have hmember : str key ∉ ws ++ punct colon :: (ws' ++ [t]) := by
    simp only [List.mem_append, List.mem_cons, List.not_mem_nil, or_false, not_or]
    exact ⟨word_not_mem_of_isLayout hws key, by simp, word_not_mem_of_isLayout hws' key, hkey.symm⟩
  have hsplit : ws ++ punct colon :: (ws' ++ t :: us) =
      (ws ++ punct colon :: (ws' ++ [t])) ++ us := by simp
  have hrest : NoReturn key (ws ++ punct colon :: (ws' ++ t :: us)) ↔ NoReturn key us := by
    rw [hsplit, noReturn_append hmember]
  rw [NoReturn, behindColon_member hws hws' ht, hrest]
  simp

/-! ### Documents with members -/

/-- A document in which the name stands only in front of a colon and a string, and no such string
is the name. -/
inductive NamesOnly (key : Bytes) : List (Tok UInt8) → Prop
  | nil : NamesOnly key []
  | other {t : Tok UInt8} {ts : List (Tok UInt8)} :
      t ≠ str key → NamesOnly key ts → NamesOnly key (t :: ts)
  | member {v : Bytes} {ts : List (Tok UInt8)} :
      v ≠ key → NamesOnly key ts → NamesOnly key (str key :: punct colon :: str v :: ts)

theorem NamesOnly.append {key : Bytes} {ts : List (Tok UInt8)} (h : NamesOnly key ts) :
    ∀ {xs : List (Tok UInt8)}, str key ∉ xs → NamesOnly key (xs ++ ts) := by
  intro xs
  induction xs with
  | nil => intro _; exact h
  | cons x xs ih =>
      intro hxs
      rw [List.mem_cons, not_or] at hxs
      exact .other (Ne.symm hxs.1) (ih hxs.2)

/-- **What whitespace does to the members of a name**: those behind whose colon a carriage return
stands are not taken. -/
theorem takenWords_spaced {key : Bytes} {ts : List (Tok UInt8)} (h : NamesOnly key ts) :
    ∀ {ts' : List (Tok UInt8)} {pos pos' : ℕ}, Spaced isWhitespace ts ts' →
      (takenWords key ts' pos').Sublist (takenWords key ts pos) ∧
        (takenWords key ts' pos' = takenWords key ts pos ↔ NoReturn key ts') := by
  induction h with
  | nil =>
      intro ts' pos pos' hspaced
      have hmem := word_not_mem_of_isLayout (spaced_nil_iff.1 hspaced) key
      have htaken := takenWords_append hmem [] pos'
      have hreturn := @noReturn_append key [] _ hmem
      rw [List.append_nil] at htaken hreturn
      have hnil : ∀ p, takenWords key [] p = [] := fun p =>
        congrArg _ (scanToks_of_no_name rfl)
      rw [htaken, hnil, hnil, hreturn]
      exact ⟨List.Sublist.refl _, iff_of_true rfl trivial⟩
  | other ht _ ih =>
      intro ts' pos pos' hspaced
      obtain ⟨ws, us, rfl, hws, -, hus⟩ := spaced_cons_iff.1 hspaced
      rw [takenWords_append (word_not_mem_of_isLayout hws key), takenWords_cons_of_ne ht,
        takenWords_cons_of_ne ht, noReturn_append (word_not_mem_of_isLayout hws key), NoReturn,
        and_iff_right fun heq => absurd heq ht]
      exact ih hus
  | @member v ts hv _ ih =>
      intro ts' pos pos' hspaced
      obtain ⟨ws₀, us₀, rfl, hws₀, -, hus₀⟩ := spaced_cons_iff.1 hspaced
      obtain ⟨ws, us₁, rfl, hws, -, hus₁⟩ := spaced_cons_iff.1 hus₀
      obtain ⟨ws', us, rfl, hws', hlayout, hus⟩ := spaced_cons_iff.1 hus₁
      have hvalue : str v ≠ str key := fun heq => hv (Tok.word.inj heq)
      have htaken : ∃ p, takenWords key (str key :: punct colon :: str v :: ts) pos =
          v :: takenWords key ts p := by
        rw [takenWords, scanToks_member]
        exact ⟨_, rfl⟩
      obtain ⟨p, htaken⟩ := htaken
      rw [takenWords_append (word_not_mem_of_isLayout hws₀ key),
        noReturn_append (word_not_mem_of_isLayout hws₀ key),
        noReturn_member hws hws' hlayout hvalue, htaken]
      obtain ⟨q, hq⟩ := @takenWords_member key ws ws' us v hv hws hws'
        (pos' + (ws₀.map Tok.size).sum)
      obtain ⟨hsub, hiff⟩ := @ih us p q hus
      rw [hq]
      split_ifs with hreturn
      · -- one value is missing
        refine ⟨hsub.cons v, iff_of_false ?_ fun hand => hand.1 hreturn⟩
        intro heq
        have := hsub.length_le
        rw [heq, List.length_cons] at this
        omega
      · rw [List.cons_inj_right, hiff, and_iff_right hreturn]
        exact ⟨hsub.cons_cons v, Iff.rfl⟩

/-! ### Documents with an array -/

theorem map_snd_arrayWords_spaced : ∀ {us ts : List (Tok UInt8)} {q q' : ℕ},
    Spaced isWhitespace ts us →
      (arrayWords us q).map Prod.snd = (arrayWords ts q').map Prod.snd := by
  intro us
  induction us with
  | nil =>
      rintro ts q q' rfl
      rfl
  | cons u us ih =>
      intro ts q q' hspaced
      cases u with
      | word s =>
          obtain rfl : str s :: us.filter _ = ts := hspaced
          rw [arrayWords, arrayWords, List.map_cons, List.map_cons, ih rfl]
      | sym c =>
          rw [arrayWords]
          cases hc : isWhitespace c with
          | true =>
              have hend : c ≠ endBracket := by
                rintro rfl
                exact absurd hc (by decide)
              rw [Spaced, List.filter_cons_of_neg (by simp [Tok.isLayout, hc])] at hspaced
              rw [if_neg hend]
              exact ih hspaced
          | false =>
              rw [Spaced, List.filter_cons_of_pos (by simp [Tok.isLayout, hc])] at hspaced
              subst hspaced
              rw [arrayWords]
              split
              · rfl
              · exact ih rfl

theorem takenWords_of_colon_not_mem {key : Bytes} {ts : List (Tok UInt8)} (pos : ℕ)
    (h : punct colon ∉ ts) : takenWords key ts pos = [] := by
  rw [takenWords, List.map_eq_nil_iff]
  cases hname : nextTok (.word key) ts pos with
  | none => exact scanToks_of_no_name hname
  | some r =>
      obtain ⟨p, us⟩ := r
      have hus : punct colon ∉ us := fun hmem =>
        h ((suffix_of_nextTok hname).mem (List.mem_cons_of_mem _ hmem))
      exact scanToks_of_no_colon hname (nextTok_of_not_mem _ hus)

theorem colon_not_mem_kids {kids : List Bytes} {us : List (Tok UInt8)}
    (h : Spaced isWhitespace (wordToks kids ++ [punct endBracket, punct 125]) us) :
    punct colon ∉ us := by
  intro hmem
  rcases h.mem hmem with hmem | hlayout
  · rw [List.mem_append] at hmem
    rcases hmem with hmem | hmem
    · rcases mem_wordToks hmem with heq | ⟨w, -, heq⟩
      · simp [colon] at heq
      · simp at heq
    · simp [colon, endBracket] at hmem
  · exact absurd hlayout (by decide)

/-- **What whitespace does to an array**: behind a carriage return the scanner takes nothing. -/
theorem takenWords_kidsToks {kids : List Bytes} {ts' : List (Tok UInt8)} (pos : ℕ)
    (h : Spaced isWhitespace (kidsToks kids [punct 125]) ts') :
    takenWords (ascii "kids") ts' pos = if NoReturn (ascii "kids") ts' then kids else [] := by
  obtain ⟨ws₀, us₀, rfl, hws₀, -, h⟩ := spaced_cons_iff.1 h
  obtain ⟨ws₁, us₁, rfl, hws₁, -, h⟩ := spaced_cons_iff.1 h
  obtain ⟨ws, us₂, rfl, hws, -, h⟩ := spaced_cons_iff.1 h
  obtain ⟨ws', us, rfl, hws', hlayout, h⟩ := spaced_cons_iff.1 h
  have hcolon := colon_not_mem_kids h
  have hlead : str (ascii "kids") ∉ ws₀ ++ punct 123 :: ws₁ := by
    simp only [List.mem_append, List.mem_cons, not_or]
    exact ⟨word_not_mem_of_isLayout hws₀ _, by simp, word_not_mem_of_isLayout hws₁ _⟩
  have hsplit : ws₀ ++ punct 123 :: (ws₁ ++ str (ascii "kids") ::
      (ws ++ punct colon :: (ws' ++ punct bracket :: us))) = (ws₀ ++ punct 123 :: ws₁) ++
        str (ascii "kids") :: (ws ++ punct colon :: (ws' ++ punct bracket :: us)) := by simp
  -- behind the colon of the member nothing more is taken: no colon follows
  have hbehind : ∀ q, takenWords (ascii "kids")
      (ws ++ punct colon :: (ws' ++ punct bracket :: us)) q = [] := by
    intro q
    obtain ⟨q', hq'⟩ := @takenWords_behind (ascii "kids") ws ws' (punct bracket :: us) hws hws' q
    rw [hq', takenWords_cons_of_ne (by simp), takenWords_of_colon_not_mem _ hcolon]
  have hiff : NoReturn (ascii "kids") (str (ascii "kids") ::
      (ws ++ punct colon :: (ws' ++ punct bracket :: us))) ↔ punct carriageReturn ∉ ws' :=
    (noReturn_member hws hws' hlayout (by simp)).trans
      (and_iff_left (noReturn_of_not_mem (Or.inl hcolon)))
  simp only [hsplit, takenWords_append hlead, noReturn_append hlead, hiff]
  by_cases hreturn : punct carriageReturn ∈ ws'
  · obtain ⟨q, hq⟩ := @takenWords_return (ascii "kids") ws ws' (punct bracket :: us) hws hws'
      hreturn (pos + ((ws₀ ++ punct 123 :: ws₁).map Tok.size).sum)
    rw [hq, hbehind, if_neg (not_not_intro hreturn)]
  · have hblank : ∀ t ∈ ws', t.isLayout isBlank = true := fun t ht =>
      (isLayout_isBlank_iff (hws' t ht)).2 fun heq => hreturn (heq ▸ ht)
    obtain ⟨p, q, hq⟩ := @takenWords_array (ascii "kids") ws ws' us hws hblank
      (pos + ((ws₀ ++ punct 123 :: ws₁).map Tok.size).sum)
    rw [hq, hbehind, if_pos hreturn, List.append_nil, @map_snd_arrayWords_spaced us _ p 0 h]
    exact arrayWords_wordToks kids _ _

/-! ### Sets -/

theorem namesOnly_fieldToks {key : Bytes} {ts : List (Tok UInt8)} (hts : NamesOnly key ts) :
    ∀ {es : List Entry}, (∀ e ∈ es, e.2.value ≠ key) → NamesOnly key (fieldToks es ++ ts) := by
  intro es
  induction es with
  | nil => intro _; exact hts
  | cons e es ih =>
      intro h
      have ih := ih fun e he => h e (List.mem_cons_of_mem _ he)
      have hvalue : e.2.value ≠ key := h e (by simp)
      rw [fieldToks_cons, List.append_assoc, List.append_assoc]
      refine NamesOnly.append ?_ (by simp [punct])
      rw [Member.toks, List.cons_append, List.cons_append, List.cons_append, List.nil_append]
      by_cases hname : e.2.field.name = key
      · rw [hname]
        exact .member hvalue ih
      · exact .other (by simpa using hname) (.other (by simp) (.other (by simpa using hvalue) ih))

theorem namesOnly_jwkSetToks {jwks : List Jwk} {typed : Bool} (h : WellFormed jwks) {f : Field}
    (hf : f = .kid ∨ f = .k) : NamesOnly f.name (jwkSetToks jwks typed) := by
  have hkeys := f.name_ne_keys
  have hfinal : NamesOnly f.name ((final jwks typed).map punct) := by
    have := @NamesOnly.append f.name [] .nil ((final jwks typed).map punct) (by simp [punct])
    rwa [List.append_nil] at this
  have hvalue : ∀ e ∈ entries jwks typed, e.2.value ≠ f.name := by
    intro e he
    have hmem : e.2 ∈ members jwks typed := by
      rw [← map_snd_entries]
      exact List.mem_map_of_mem he
    exact value_ne_name h hf hmem
  rw [jwkSetToks_eq]
  exact (namesOnly_fieldToks hfinal hvalue).append (by simpa using hkeys)

/-! ### What the documents mean -/

theorem jsonStringValues_spaced {key : Bytes} (hkey : ∀ c ∈ key, IsAlphabet c) (hne : key ≠ [])
    {ts ts' : List (Tok UInt8)} (hdoc : ∀ t ∈ ts, IsDocumentTok t)
    (h : Spaced isWhitespace ts ts') :
    jsonStringValues (text ts') key = takenWords key ts' 0 := by
  have hquote : quote ∉ key := fun hmem =>
    not_mem_of_isAlphabet (hkey _ hmem) (by decide)
  refine jsonStringValues_render hne hquote fun t ht => ?_
  rcases h.mem ht with ht | ht
  · exact (hdoc t ht).readable hkey
  · exact readable_of_isLayout hkey ht

theorem Spaced.of_isDocumentTok {ts : List (Tok UInt8)} (hdoc : ∀ t ∈ ts, IsDocumentTok t) :
    Spaced isWhitespace ts ts := Spaced.refl fun t ht => isLayout_of_isDocumentTok (hdoc t ht)

/-- Two texts mean the same as `keyids` init data: the same key ids are read, and a session
constructed from one is the session constructed from the other. -/
structure SameKeyIds (doc doc' : Bytes) : Prop where
  values : jsonStringValues doc' (ascii "kids") = jsonStringValues doc (ascii "kids")
  constructed : doc.length ≤ 65535 → doc'.length ≤ 65535 →
    ∀ counter system type callbacks userData sessionOut allocated,
      opencdmConstructSession counter system type doc' (UInt16.ofNat doc'.length) callbacks
        userData sessionOut allocated =
      opencdmConstructSession counter system type doc (UInt16.ofNat doc.length) callbacks
        userData sessionOut allocated

/-- Two texts mean the same as a response: the same values are read, and an update with one leaves
what an update with the other leaves. -/
structure SameLicence (doc doc' : Bytes) : Prop where
  kids : jsonStringValues doc' (ascii "kid") = jsonStringValues doc (ascii "kid")
  keys : jsonStringValues doc' (ascii "k") = jsonStringValues doc (ascii "k")
  updated : doc.length ≤ 65535 → doc'.length ≤ 65535 → ∀ session,
    opencdmSessionUpdate session (some doc') (UInt16.ofNat doc'.length) =
      opencdmSessionUpdate session (some doc) (UInt16.ofNat doc.length)

theorem SameKeyIds.of_values {doc doc' : Bytes}
    (h : jsonStringValues doc' (ascii "kids") = jsonStringValues doc (ascii "kids")) :
    SameKeyIds doc doc' where
  values := h
  constructed := by
    intro hlen hlen' counter system type callbacks userData sessionOut allocated
    simp only [opencdmConstructSession, take_toNat_length hlen, take_toNat_length hlen', h]

theorem SameLicence.of_values {doc doc' : Bytes} (hne : doc ≠ []) (hne' : doc' ≠ [])
    (hkids : jsonStringValues doc' (ascii "kid") = jsonStringValues doc (ascii "kid"))
    (hkeys : jsonStringValues doc' (ascii "k") = jsonStringValues doc (ascii "k")) :
    SameLicence doc doc' where
  kids := hkids
  keys := hkeys
  updated := by
    intro hlen hlen' session
    cases session with
    | none => rfl
    | some s =>
        simp only [opencdmSessionUpdate, take_toNat_length hlen, take_toNat_length hlen', hkids,
          hkeys, ofNat_length_ne_zero hne hlen, ofNat_length_ne_zero hne' hlen', if_false]

theorem text_ne_nil_of_spaced {t : Tok UInt8} {ts ts' : List (Tok UInt8)}
    (h : Spaced isWhitespace (t :: ts) ts') : text ts' ≠ [] := by
  obtain ⟨ws, us, rfl, -⟩ := spaced_cons_iff.1 h
  have hpos : 0 < (ws ++ t :: us).length := by simp
  exact List.ne_nil_of_length_pos (hpos.trans_le (length_le_length_render quote _))

/-- The key ids of a spaced document are those of the document unless a carriage return hides the
array. -/
theorem sameKeyIds_iff {kids : List Bytes} {ts' : List (Tok UInt8)}
    (hkids : ∀ w ∈ kids, ∀ c ∈ w, IsBase64Url c)
    (h : Spaced isWhitespace (kidsToks kids [punct 125]) ts') :
    SameKeyIds (text (kidsToks kids [punct 125])) (text ts') ↔
      kids = [] ∨ NoReturn (ascii "kids") ts' := by
  have hdoc : ∀ t ∈ kidsToks kids [punct 125], IsDocumentTok t :=
    isDocumentTok_of_mem_kidsToks hkids fun t ht => by
      rw [List.mem_singleton.1 ht]
      exact isDocumentTok_punct.2 (by simp)
  have hself := Spaced.of_isDocumentTok hdoc
  have hvalues : ∀ {us}, Spaced isWhitespace (kidsToks kids [punct 125]) us →
      jsonStringValues (text us) (ascii "kids") =
        if NoReturn (ascii "kids") us then kids else [] := by
    intro us hus
    rw [jsonStringValues_spaced (by decide +kernel) (by decide) hdoc hus,
      takenWords_kidsToks 0 hus]
  -- no whitespace at all, so no carriage return
  have hreturn : NoReturn (ascii "kids") (kidsToks kids [punct 125]) :=
    noReturn_of_not_mem (Or.inr fun hmem =>
      absurd (isLayout_of_isDocumentTok (hdoc _ hmem)) (by decide))
  have hplain := hvalues hself
  rw [if_pos hreturn] at hplain
  constructor
  · intro hsame
    have hread := hsame.values
    rw [hvalues h, hplain] at hread
    split_ifs at hread with hno
    · exact Or.inr hno
    · exact Or.inl hread.symm
  · intro hcond
    refine SameKeyIds.of_values ?_
    rw [hvalues h, hplain]
    rcases hcond with rfl | hno
    · exact ite_self _
    · exact if_pos hno

/-- The licence of a spaced set is that of the set exactly when no carriage return hides a value. -/
theorem sameLicence_iff {jwks : List Jwk} {typed : Bool} {ts' : List (Tok UInt8)}
    (hjwks : WellFormed jwks) (h : Spaced isWhitespace (jwkSetToks jwks typed) ts') :
    SameLicence (jwkSet jwks typed) (text ts') ↔
      NoReturn (ascii "kid") ts' ∧ NoReturn (ascii "k") ts' := by
  have hdoc := @isDocumentTok_of_mem_jwkSetToks jwks typed
  have hvalues : ∀ f : Field, f = .kid ∨ f = .k →
      (jsonStringValues (text ts') f.name = jsonStringValues (jwkSet jwks typed) f.name ↔
        NoReturn f.name ts') := by
    intro f hf
    rw [jwkSet, jsonStringValues_spaced f.isAlphabet_name f.name_ne_nil hdoc h,
      jsonStringValues_spaced f.isAlphabet_name f.name_ne_nil hdoc
        (Spaced.of_isDocumentTok hdoc)]
    exact (takenWords_spaced (namesOnly_jwkSetToks hjwks hf) h).2
  have hne' : text ts' ≠ [] := by
    rw [jwkSetToks_eq] at h
    exact text_ne_nil_of_spaced h
  constructor
  · intro hsame
    exact ⟨(hvalues .kid (Or.inl rfl)).1 hsame.kids, (hvalues .k (Or.inr rfl)).1 hsame.keys⟩
  · rintro ⟨hkid, hk⟩
    exact SameLicence.of_values jwkSet_ne_nil hne' ((hvalues .kid (Or.inl rfl)).2 hkid)
      ((hvalues .k (Or.inr rfl)).2 hk)

/-! ### Messages -/

/-- A well-formed message: `keyids` init data whose values are base64url texts, or a well-formed
set. -/
inductive Message
  | keyIds (kids : List Bytes) (kids_text : ∀ w ∈ kids, ∀ c ∈ w, IsBase64Url c)
  | licence (jwks : List Jwk) (typed : Bool) (wellFormed : WellFormed jwks)

def Message.toks : Message → List (Tok UInt8)
  | .keyIds kids _ => kidsToks kids [punct 125]
  | .licence jwks typed _ => jwkSetToks jwks typed

/-- Another text means the same as the message. -/
def Message.Same (m : Message) (doc : Bytes) : Prop :=
  match m with
  | .keyIds _ _ => SameKeyIds (text m.toks) doc
  | .licence _ _ _ => SameLicence (text m.toks) doc

/-- No carriage return hides what the message holds. -/
def Message.Visible (m : Message) (ts' : List (Tok UInt8)) : Prop :=
  match m with
  | .keyIds kids _ => kids = [] ∨ NoReturn (ascii "kids") ts'
  | .licence _ _ _ => NoReturn (ascii "kid") ts' ∧ NoReturn (ascii "k") ts'

/-- **When whitespace does not change the meaning**: of `keyids` init data, when no carriage return
stands behind the colon of its `"kids"` member or the array is empty; of a JWK set, when none stands
behind the colon of a `"kid"` or a `"k"` member. -/
theorem whitespace_iff {m : Message} {ts' : List (Tok UInt8)}
    (h : Spaced isWhitespace m.toks ts') : m.Same (text ts') ↔ m.Visible ts' := by
  cases m with
  | keyIds kids hkids => exact sameKeyIds_iff hkids h
  | licence jwks typed hjwks => exact sameLicence_iff hjwks h

/-- `keyids` init data with one key id. -/
def oneKeyId : Message := .keyIds [ascii "AQ"] (by decide +kernel)

def onePair : Message := .licence ([([1], [2])].map Jwk.ofPair) true (wellFormed_pairs _)

def brokenKeyId (lineEnd : List (Tok UInt8)) : List (Tok UInt8) :=
  punct 123 :: str (ascii "kids") :: punct colon :: (lineEnd ++
    [punct bracket, str (ascii "AQ"), punct endBracket, punct 125])

/-- A line feed behind the colon of a `"kids"` member, and a carriage return in front of a set. -/
theorem whitespace_lineFeed :
    oneKeyId.Same (text (brokenKeyId [punct 10])) ∧
      onePair.Same (text (punct carriageReturn :: onePair.toks)) := by
  constructor
  · have hspaced : Spaced isWhitespace oneKeyId.toks (brokenKeyId [punct 10]) := rfl
    exact (whitespace_iff hspaced).2 (Or.inr (by decide +kernel))
  · have hspaced : Spaced isWhitespace onePair.toks (punct carriageReturn :: onePair.toks) := by
      show List.filter _ _ = _
      decide +kernel
    exact (whitespace_iff hspaced).2 ⟨by decide +kernel, by decide +kernel⟩

/-- The line end of another system hides the key ids. -/
theorem whitespace_hides :
    ¬ ∀ (m : Message) (ts' : List (Tok UInt8)), Spaced isWhitespace m.toks ts' →
      m.Same (text ts') := by
  intro h
  have hsame : SameKeyIds _ _ := h oneKeyId (brokenKeyId [punct carriageReturn, punct 10]) rfl
  exact absurd hsame.values (by decide +kernel)

end ClearKey
