/-
**The JSON field scanner of the ClearKey backend.**

`jsonStringValues` is not a parser: it searches the text for a quoted field name, then for a
colon, and takes the quoted string or the quoted strings of the array that follow.  The model
keeps the positions the source keeps, and records every `json.substr(start, length)` it takes as a
stretch of the text; the values are what stands there.

On a text that is a token list (`RialtoConformance/Lib/Quoted.lean`) the scanner can be read off
the tokens: `ClearKey.scanToks` says what it takes, and `ClearKey.jsonStringSpans_render` that it
does.

Main definitions:

* `ClearKey.arraySpans`, `ClearKey.scanSpans` — the two loops of `jsonStringValues`;
* `ClearKey.jsonStringSpans`, `ClearKey.jsonStringValues` — the source's function;
* `ClearKey.scanToks` — the scanner on tokens.

Main results:

* `ClearKey.jsonStringSpans_render`, `ClearKey.jsonStringValues_render` — **on a token text the
  scanner takes the words `scanToks` names**;
* `ClearKey.scanToks_member`, `ClearKey.scanToks_array` — what a field of a document contributes.
-/
import RialtoConformance.Lib.Quoted
import RialtoConformance.ClearKey.Base64Url

set_option relaxedAutoImplicit false
set_option autoImplicit false

namespace ClearKey

open Text Quoted

/-! ### The scanner -/

/-- `'"'`. -/
def quote : UInt8 := 34

/-- `':'`. -/
def colon : UInt8 := 58

/-- `'['`. -/
def bracket : UInt8 := 91

/-- `']'`. -/
def endBracket : UInt8 := 93

/-- The blanks skipped between the colon and the value: space, tab and line feed. -/
def isBlank (c : UInt8) : Bool := c = 32 || c = 9 || c = 10

/-- The loop over an array value: every quoted string up to the closing bracket at `stop`, or up
to the end of the text if there is none.  Each pass moves `q` forward, so `fuel` is never used
up. -/
def arraySpans (json : Bytes) (stop : Option ℕ) : ℕ → ℕ → List Span
  | 0, _ => []
  | fuel + 1, q =>
      match findChar json quote q with
      | none => []
      | some first =>
          if stop.any (· < first) then []
          else
            match findChar json quote (first + 1) with
            | none => []
            | some close =>
                ⟨first + 1, close - first - 1⟩ :: arraySpans json stop fuel (close + 1)

/-- The outer loop: the next occurrence of the quoted name, the next colon, the blanks, and then
an array of strings, a string, or something else.  Behind an array the search resumes right
behind the name, inside the array. -/
def scanSpans (json needle : Bytes) : ℕ → ℕ → List Span
  | 0, _ => []
  | fuel + 1, pos =>
      match find json needle pos with
      | none => []
      | some hit =>
          let pos := hit + needle.length
          match findChar json colon pos with
          | none => []
          | some sep =>
              let cursor := sep + 1 + ((json.drop (sep + 1)).takeWhile isBlank).length
              if json[cursor]? = some bracket then
                let stop := findChar json endBracket cursor
                arraySpans json stop (json.length + 1) cursor ++ scanSpans json needle fuel pos
              else if json[cursor]? = some quote then
                match findChar json quote (cursor + 1) with
                | none => []
                | some close =>
                    ⟨cursor + 1, close - cursor - 1⟩ :: scanSpans json needle fuel (close + 1)
              else scanSpans json needle fuel pos

/-- The stretches of `json` that `jsonStringValues` takes. -/
def jsonStringSpans (json key : Bytes) : List Span :=
  scanSpans json (quote :: (key ++ [quote])) (json.length + 1) 0

/-- **`jsonStringValues`**: the string values of the field `key`. -/
def jsonStringValues (json key : Bytes) : List Bytes :=
  (jsonStringSpans json key).map (Span.of json)

/-! ### The scanner on tokens -/

abbrev str (s : Bytes) : Tok UInt8 := .word s

/-- A punctuation character or a blank of a document. -/
abbrev punct (c : UInt8) : Tok UInt8 := .sym c

abbrev text (ts : List (Tok UInt8)) : Bytes := render quote ts

/-- A word that was taken: where its contents start, and the contents. -/
abbrev Taken := ℕ × Bytes

def spanOf (w : Taken) : Span := ⟨w.1, w.2.length⟩

/-- The words of an array, up to the closing bracket. -/
def arrayWords : List (Tok UInt8) → ℕ → List Taken
  | [], _ => []
  | .word s :: ts, pos => (pos + 1, s) :: arrayWords ts (pos + (s.length + 2))
  | .sym c :: ts, pos => if c = endBracket then [] else arrayWords ts (pos + 1)

/-- **The scanner on tokens**: the words it takes for the field `key`. -/
def scanToks (key : Bytes) (ts : List (Tok UInt8)) (pos : ℕ) : List Taken :=
  match _hname : nextTok (.word key) ts pos with
  | none => []
  | some (p, us) =>
      match _hsep : nextTok (.sym colon) us (p + (key.length + 2)) with
      | none => []
      | some (s, vs) =>
          match hskip : skipSyms isBlank vs (s + 1) with
          | (cursor, .sym c :: ws) =>
              if c = bracket then
                arrayWords ws (cursor + 1) ++ scanToks key us (p + (key.length + 2))
              else scanToks key us (p + (key.length + 2))
          | (cursor, .word v :: ws) => (cursor + 1, v) :: scanToks key ws (cursor + (v.length + 2))
          | (_, []) => scanToks key us (p + (key.length + 2))
termination_by ts.length
decreasing_by
  · exact length_of_nextTok _hname
  · exact length_of_nextTok _hname
  · have h₁ := length_of_nextTok _hname
    have h₂ := length_of_nextTok _hsep
    have h₃ : (skipSyms isBlank vs (s + 1)).2 <:+ vs := suffix_of_skipSyms
    have h₃ := h₃.length_le
    rw [hskip] at h₃
    simp only [List.length_cons] at h₃
    omega
  · exact length_of_nextTok _hname

theorem scanToks_of_no_name {key : Bytes} {ts : List (Tok UInt8)} {pos : ℕ}
    (h : nextTok (.word key) ts pos = none) : scanToks key ts pos = [] := by
  rw [scanToks]
  split
  · rfl
  · simp_all

theorem scanToks_of_no_colon {key : Bytes} {ts us : List (Tok UInt8)} {pos p : ℕ}
    (h : nextTok (.word key) ts pos = some (p, us))
    (hsep : nextTok (.sym colon) us (p + (key.length + 2)) = none) : scanToks key ts pos = [] := by
  rw [scanToks]
  split
  · rfl
  · split
    · rfl
    · simp_all

/-- A name with a string value: the string is taken and the search resumes behind it. -/
theorem scanToks_of_string {key v : Bytes} {ts us vs ws : List (Tok UInt8)}
    {pos p s cursor : ℕ} (h : nextTok (.word key) ts pos = some (p, us))
    (hsep : nextTok (.sym colon) us (p + (key.length + 2)) = some (s, vs))
    (hskip : skipSyms isBlank vs (s + 1) = (cursor, .word v :: ws)) :
    scanToks key ts pos = (cursor + 1, v) :: scanToks key ws (cursor + (v.length + 2)) := by
  rw [scanToks]
  split
  · simp_all
  · split
    · simp_all
    · split <;> simp_all

/-- A name with an array value: the words of the array are taken and the search resumes right
behind the name. -/
theorem scanToks_of_array {key : Bytes} {ts us vs ws : List (Tok UInt8)}
    {pos p s cursor : ℕ} (h : nextTok (.word key) ts pos = some (p, us))
    (hsep : nextTok (.sym colon) us (p + (key.length + 2)) = some (s, vs))
    (hskip : skipSyms isBlank vs (s + 1) = (cursor, .sym bracket :: ws)) :
    scanToks key ts pos =
      arrayWords ws (cursor + 1) ++ scanToks key us (p + (key.length + 2)) := by
  rw [scanToks]
  split
  · simp_all
  · split
    · simp_all
    · split <;> simp_all

theorem scanToks_of_other {key : Bytes} {ts us vs : List (Tok UInt8)}
    {pos p s : ℕ} (h : nextTok (.word key) ts pos = some (p, us))
    (hsep : nextTok (.sym colon) us (p + (key.length + 2)) = some (s, vs))
    (hword : ∀ v ws, (skipSyms isBlank vs (s + 1)).2 ≠ .word v :: ws)
    (hbracket : ∀ ws, (skipSyms isBlank vs (s + 1)).2 ≠ .sym bracket :: ws) :
    scanToks key ts pos = scanToks key us (p + (key.length + 2)) := by
  rw [scanToks]
  split
  · simp_all
  · split
    · simp_all
    · split <;> simp_all

theorem scanToks_congr {key : Bytes} {ts ts' : List (Tok UInt8)} {pos pos' : ℕ}
    (h : nextTok (.word key) ts pos = nextTok (.word key) ts' pos') :
    scanToks key ts pos = scanToks key ts' pos' := by
  rw [scanToks, scanToks, h]

theorem scanToks_cons_of_ne {key : Bytes} {t : Tok UInt8} (h : t ≠ .word key)
    (ts : List (Tok UInt8)) (pos : ℕ) :
    scanToks key (t :: ts) pos = scanToks key ts (pos + t.size) := by
  refine scanToks_congr ?_
  rw [nextTok, if_neg h]

theorem scanToks_of_forall_ne {key : Bytes} : ∀ {ts : List (Tok UInt8)} {pos : ℕ},
    (∀ t ∈ ts, t ≠ .word key) → scanToks key ts pos = [] := by
  intro ts
  induction ts with
  | nil => intro pos _; exact scanToks_of_no_name rfl
  | cons t ts ih =>
      intro pos h
      rw [scanToks_cons_of_ne (h t (by simp))]
      exact ih fun u hu => h u (List.mem_cons_of_mem _ hu)

/-- A member `"key":"v"` contributes its value. -/
theorem scanToks_member {key v : Bytes} {ts : List (Tok UInt8)} {pos : ℕ} :
    scanToks key (str key :: punct colon :: str v :: ts) pos =
      (pos + key.length + 4, v) :: scanToks key ts (pos + key.length + v.length + 5) := by
  have hname : nextTok (.word key) (str key :: punct colon :: str v :: ts) pos =
      some (pos, punct colon :: str v :: ts) := by rw [nextTok, if_pos rfl]
  have hsep : nextTok (.sym colon) (punct colon :: str v :: ts) (pos + (key.length + 2)) =
      some (pos + (key.length + 2), str v :: ts) := by rw [nextTok, if_pos rfl]
  rw [scanToks_of_string hname hsep rfl,
    show pos + (key.length + 2) + 1 + 1 = pos + key.length + 4 by omega,
    show pos + (key.length + 2) + 1 + (v.length + 2) = pos + key.length + v.length + 5 by omega]

/-- A member `"key":[...]` contributes the words of its array, and the search resumes inside the
array. -/
theorem scanToks_array {key : Bytes} {ts : List (Tok UInt8)} {pos : ℕ} :
    scanToks key (str key :: punct colon :: punct bracket :: ts) pos =
      arrayWords ts (pos + key.length + 4) ++ scanToks key ts (pos + key.length + 4) := by
  have hname : nextTok (.word key) (str key :: punct colon :: punct bracket :: ts) pos =
      some (pos, punct colon :: punct bracket :: ts) := by rw [nextTok, if_pos rfl]
  have hsep : nextTok (.sym colon) (punct colon :: punct bracket :: ts)
      (pos + (key.length + 2)) = some (pos + (key.length + 2), punct bracket :: ts) := by
    rw [nextTok, if_pos rfl]
  have hpos : pos + (key.length + 2) + 1 + 1 = pos + key.length + 4 := by omega
  rw [scanToks_of_array hname hsep rfl, scanToks_cons_of_ne (by simp),
    scanToks_cons_of_ne (by simp)]
  simp only [Tok.size, hpos]

/-! ### The scanner reads the tokens -/

/-- A token the scanner can be read off: its word contains neither a quotation mark nor a
separator, and its character is not a quotation mark and does not occur in the name. -/
structure Readable (key : Bytes) (t : Tok UInt8) : Prop where
  /-- Quotation marks delimit words. -/
  plain : t.Plain quote
  /-- What stands between two words is not part of the name. -/
  apart : t.Apart key
  /-- A colon is punctuation. -/
  colon_free : t.Free colon
  /-- A closing bracket is punctuation. -/
  bracket_free : t.Free endBracket

/-- A loop over an array only looks at the text from the next quotation mark on. -/
private theorem arraySpans_congr {json : Bytes} {stop : Option ℕ} {fuel q q' : ℕ}
    (h : findChar json quote q = findChar json quote q') :
    arraySpans json stop fuel q = arraySpans json stop fuel q' := by
  cases fuel with
  | zero => rfl
  | succ fuel => rw [arraySpans, arraySpans, h]

/-- **The loop over an array takes the words up to the closing bracket.** -/
theorem arraySpans_eq {json : Bytes} : ∀ {ts : List (Tok UInt8)} {fuel q : ℕ},
    At quote json q ts → (∀ t ∈ ts, t.Plain quote) → ts.length < fuel →
      arraySpans json ((nextTok (.sym endBracket) ts q).map Prod.fst) fuel q =
        (arrayWords ts q).map spanOf := by
  intro ts
  induction ts with
  | nil =>
      intro fuel q hat hplain hfuel
      obtain ⟨fuel, rfl⟩ : ∃ f, fuel = f + 1 := ⟨fuel - 1, by omega⟩
      rw [arraySpans, find_word hat hplain]
      rfl
  | cons t ts ih =>
      intro fuel q hat hplain hfuel
      have hplain' : ∀ t ∈ ts, t.Plain quote := fun u hu => hplain u (List.mem_cons_of_mem _ hu)
      simp only [List.length_cons] at hfuel
      obtain ⟨fuel, rfl⟩ : ∃ f, fuel = f + 1 := ⟨fuel - 1, by omega⟩
      cases t with
      | word s =>
          have hs : quote ∉ s := hplain (.word s) (by simp)
          have hat' : At quote json (q + (s.length + 2)) ts := hat.tail
          have hnext : nextTok (.sym endBracket) (.word s :: ts) q =
              nextTok (.sym endBracket) ts (q + (s.length + 2)) := by
            rw [nextTok, if_neg (by simp), Tok.size]
          have hstop : ((nextTok (.sym endBracket) ts (q + (s.length + 2))).map Prod.fst).any
              (· < q) = false := by
            cases hn : nextTok (.sym endBracket) ts (q + (s.length + 2)) with
            | none => rfl
            | some r =>
                have := le_of_nextTok hn
                simp only [Option.map_some, Option.any_some, decide_eq_false_iff_not]
                omega
          have hend : q + 1 + s.length + 1 = q + (s.length + 2) := by omega
          have hfuel' : ts.length < fuel := by omega
          have hrest := ih hat' hplain' hfuel'
          rw [hnext, arraySpans, find_word hat hplain]
          simp only [nextWord, Option.map_some, hstop, Bool.false_eq_true, if_false,
            findChar_close hat hs]
          rw [hend, hrest, arrayWords, List.map_cons]
          congr 1
          simp only [spanOf, Span.mk.injEq, true_and]
          omega
      | sym c =>
          have hat' : At quote json (q + 1) ts := hat.tail
          have hskip : findChar json quote q = findChar json quote (q + 1) := by
            rw [find_word hat hplain, find_word hat' hplain']
            rfl
          by_cases hc : c = endBracket
          · subst hc
            -- the bracket stands before whatever word comes next
            rw [nextTok, if_pos rfl, arraySpans, hskip, arrayWords, if_pos rfl]
            cases hn : findChar json quote (q + 1) with
            | none => rfl
            | some first =>
                have hle : q < first := le_of_find hn
                simp only [Option.map_some, Option.any_some, List.map_nil]
                rw [if_pos (by simpa using hle)]
          · rw [nextTok, if_neg (by simpa using hc), arrayWords, if_neg hc,
              arraySpans_congr hskip]
            exact ih hat' hplain' (by omega)

/-- The loop over the array that opens at a position, with fuel for the whole text. -/
private theorem arraySpans_bracket {json key : Bytes} {ws : List (Tok UInt8)} {cursor : ℕ}
    (hat : At quote json cursor (punct bracket :: ws))
    (hread : ∀ t ∈ punct bracket :: ws, Readable key t) :
    arraySpans json (findChar json endBracket cursor) (json.length + 1) cursor =
      (arrayWords ws (cursor + 1)).map spanOf := by
  have hfuel : (punct bracket :: ws).length < json.length + 1 := by
    have hle := length_le_length_render quote (punct bracket :: ws)
    rw [← hat.drop_eq, List.length_drop] at hle
    omega
  rw [find_sym (by decide) hat fun t ht => (hread t ht).bracket_free,
    arraySpans_eq hat (fun t ht => (hread t ht).plain) hfuel, arrayWords, if_neg (by decide)]

/-- **The outer loop takes the words `scanToks` names.** -/
theorem scanSpans_eq {json key : Bytes} (hkey : key ≠ []) (hq : quote ∉ key) :
    ∀ {fuel : ℕ} {ts : List (Tok UInt8)} {pos : ℕ}, At quote json pos ts →
      (∀ t ∈ ts, Readable key t) → ts.length < fuel →
        scanSpans json (quote :: (key ++ [quote])) fuel pos = (scanToks key ts pos).map spanOf := by
  intro fuel
  induction fuel with
  | zero => intro ts pos _ _ h; omega
  | succ fuel ih =>
      intro ts pos hat hread hfuel
      rw [scanSpans, find_name hat hkey hq (fun t ht => (hread t ht).plain)
        (fun t ht => (hread t ht).apart)]
      cases hname : nextTok (.word key) ts pos with
      | none => rw [scanToks_of_no_name hname]; rfl
      | some r =>
          obtain ⟨p, us⟩ := r
          have husuf := (List.suffix_cons _ _).trans (suffix_of_nextTok hname)
          have hread' : ∀ t ∈ us, Readable key t := fun t ht => hread t (husuf.mem ht)
          have hat' : At quote json (p + (key.length + 2)) us := hat.of_nextTok hname
          have hlen := length_of_nextTok hname
          have hneedle : (quote :: (key ++ [quote])).length = key.length + 2 := by simp
          simp only [Option.map_some, hneedle]
          rw [find_sym (by decide) hat' fun t ht => (hread' t ht).colon_free]
          cases hsep : nextTok (.sym colon) us (p + (key.length + 2)) with
          | none => rw [scanToks_of_no_colon hname hsep]; rfl
          | some r =>
              obtain ⟨s, vs⟩ := r
              have hvsuf := (List.suffix_cons _ _).trans (suffix_of_nextTok hsep)
              have hatv : At quote json (s + 1) vs := hat'.of_nextTok hsep
              have hlenv := length_of_nextTok hsep
              simp only [Option.map_some, skipSyms_fst (p := isBlank) (by decide) hatv]
              have hatc := hatv.skipSyms (p := isBlank)
              have hcsuf : (skipSyms isBlank vs (s + 1)).2 <:+ vs := suffix_of_skipSyms
              have hresume := ih hat' hread' (by omega)
              cases hskip : skipSyms isBlank vs (s + 1) with
              | mk cursor ws =>
                  rw [hskip] at hatc hcsuf
                  have hreadc : ∀ t ∈ ws, Readable key t := fun t ht =>
                    hread' t (hvsuf.mem (hcsuf.mem ht))
                  have hlenc := hcsuf.length_le
                  -- what stands behind the colon and the blanks: nothing, a string or a character
                  cases ws with
                  | nil =>
                      rw [scanToks_of_other hname hsep (by simp [hskip]) (by simp [hskip])]
                      simpa [hatc.getElem?_nil] using hresume
                  | cons t ws =>
                      have hatt := hatc.tail
                      simp only [List.length_cons] at hlenc
                      cases t with
                      | word v =>
                          have hv : quote ∉ v := (hreadc (.word v) (by simp)).plain
                          have hnb : ¬ quote = bracket := by decide
                          have hend : cursor + 1 + v.length + 1 = cursor + (v.length + 2) := by
                            omega
                          -- the scan goes on behind the value, and not behind the name
                          have hrest := ih hatt
                            (fun t ht => hreadc t (List.mem_cons_of_mem _ ht)) (by omega)
                          rw [scanToks_of_string hname hsep hskip]
                          simp only [hatc.getElem?_word, Option.some.injEq, hnb, if_false,
                            if_true, findChar_close hatc hv, hend]
                          rw [List.map_cons]
                          congr 1
                          simp only [spanOf, Span.mk.injEq, true_and]
                          omega
                      | sym c =>
                          have hcq : ¬ c = quote := (hreadc (.sym c) (by simp)).plain
                          by_cases hc : c = bracket
                          · subst hc
                            rw [scanToks_of_array hname hsep hskip]
                            simp only [hatc.getElem?_sym, if_true]
                            rw [arraySpans_bracket hatc hreadc, hresume, List.map_append]
                          · -- no value the scanner knows: it goes on behind the name
                            rw [scanToks_of_other hname hsep (by simp [hskip])
                              (by simp [hskip, hc])]
                            simpa [hatc.getElem?_sym, hc, hcq] using hresume

/-- **On a token text the scanner takes the words `scanToks` names.** -/
theorem jsonStringSpans_render {key : Bytes} (hkey : key ≠ []) (hq : quote ∉ key)
    {ts : List (Tok UInt8)} (hread : ∀ t ∈ ts, Readable key t) :
    jsonStringSpans (text ts) key = (scanToks key ts 0).map spanOf := by
  exact scanSpans_eq hkey hq (At.start ts) hread
    (Nat.lt_succ_of_le (length_le_length_render quote ts))

theorem span_of_mem_arrayWords {json : Bytes} : ∀ {ts : List (Tok UInt8)} {q : ℕ},
    At quote json q ts → ∀ w ∈ arrayWords ts q, Span.of json (spanOf w) = w.2 := by
  intro ts
  induction ts with
  | nil => intro q _ w hw; simp [arrayWords] at hw
  | cons t ts ih =>
      intro q hat w hw
      cases t with
      | word s =>
          rw [arrayWords, List.mem_cons] at hw
          rcases hw with rfl | hw
          · exact hat.span_word
          · exact ih hat.tail w hw
      | sym c =>
          rw [arrayWords] at hw
          split at hw
          · simp at hw
          · exact ih hat.tail w hw

theorem span_of_mem_scanToks {json key : Bytes} {ts : List (Tok UInt8)} {pos : ℕ}
    (hat : At quote json pos ts) : ∀ w ∈ scanToks key ts pos, Span.of json (spanOf w) = w.2 := by
  fun_induction scanToks key ts pos with
  | case1 ts pos hname => simp
  | case2 ts pos p us hname hsep => simp
  | case3 ts pos p us hname s vs hsep cursor ws hskip ih =>
      have hatu := hat.of_nextTok hname
      have hatw := (hatu.of_nextTok hsep).skipSyms (p := isBlank)
      rw [show s + (Tok.sym colon).size = s + 1 from rfl, hskip] at hatw
      intro w hw
      rcases List.mem_append.1 hw with hw | hw
      · exact span_of_mem_arrayWords hatw.tail w hw
      · exact ih hatu w hw
  | case4 ts pos p us hname s vs hsep cursor c ws hskip hc ih => exact ih (hat.of_nextTok hname)
  | case5 ts pos p us hname s vs hsep cursor v ws hskip ih =>
      have hatw := ((hat.of_nextTok hname).of_nextTok hsep).skipSyms (p := isBlank)
      rw [show s + (Tok.sym colon).size = s + 1 from rfl, hskip] at hatw
      intro w hw
      rcases List.mem_cons.1 hw with rfl | hw
      · exact hatw.span_word
      · exact ih hatw.tail w hw
  | case6 ts pos p us hname s vs hsep cursor hskip ih => exact ih (hat.of_nextTok hname)

/-- **On a token text the values are the words `scanToks` names.** -/
theorem jsonStringValues_render {key : Bytes} (hkey : key ≠ []) (hq : quote ∉ key)
    {ts : List (Tok UInt8)} (hread : ∀ t ∈ ts, Readable key t) :
    jsonStringValues (text ts) key = (scanToks key ts 0).map Prod.snd := by
  rw [jsonStringValues, jsonStringSpans_render hkey hq hread, List.map_map]
  exact List.map_congr_left fun w hw => span_of_mem_scanToks (At.start ts) w hw

end ClearKey
