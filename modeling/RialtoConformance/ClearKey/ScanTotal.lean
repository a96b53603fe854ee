/-
**The field scanner on hostile input.**

`RialtoConformance/ClearKey/JsonScan.lean` has the two loops of `jsonStringValues` as functions with
fuel.  Here they are a machine whose steps are the passes of the loops, with the exception that
`substr` throws for a start behind the end of the text, and no fuel: on any text and for any name
it comes to its end, does not throw, and what it takes stands between two quotation marks with none
in between.

Main definitions:

* `ClearKey.Substr` — a call of `substr` between two quotation marks;
* `ClearKey.searchPass`, `ClearKey.arrayPass` — one pass of either loop;
* `ClearKey.Scan`, `ClearKey.scanner` — where the scan stands, and the machine;
* `ClearKey.Advances` — what a pass moves forward;
* `ClearKey.Delimits` — two consecutive quotation marks of a text;
* `ClearKey.Total` — the scan is total.

Main results:

* `ClearKey.scanSpans_succ`, `ClearKey.arraySpans_succ` — the functions go pass by pass;
* `ClearKey.searchPass_sound`, `ClearKey.arrayPass_sound` — what one pass does;
* `ClearKey.step_sound` — **every pass moves its position forward**, and stays inside the text;
* `ClearKey.run_search` — **the machine ends with what the functions return**;
* `ClearKey.jsonStringValues_total` — the scan is total.
-/
import RialtoConformance.Lib.Runs
import RialtoConformance.ClearKey.JsonScan

set_option relaxedAutoImplicit false
set_option autoImplicit false

namespace ClearKey

open Text Runs

/-! ### One pass of either loop -/

/-- `json.substr(first + 1, close - first - 1)`, for the quotation marks at `first` and `close`. -/
structure Substr where
  first : ℕ
  close : ℕ
  deriving DecidableEq

def Substr.span (cut : Substr) : Span := ⟨cut.first + 1, cut.close - cut.first - 1⟩

/-- What a pass of the outer loop comes to. -/
inductive Pass
  /-- The loop is left. -/
  | nothing
  /-- An array opens at `cursor`; the search resumes at `pos`. -/
  | array (pos : ℕ) (stop : Option ℕ) (cursor : ℕ)
  /-- A string is taken; the search resumes behind it. -/
  | string (cut : Substr)
  /-- There is no value the scanner knows. -/
  | other (pos : ℕ)

/-- **A pass of the outer loop.** -/
def searchPass (json needle : Bytes) (pos : ℕ) : Pass :=
  match find json needle pos with
  | none => .nothing
  | some hit =>
      let pos := hit + needle.length
      match findChar json colon pos with
      | none => .nothing
      | some sep =>
          let cursor := sep + 1 + ((json.drop (sep + 1)).takeWhile isBlank).length
          if json[cursor]? = some bracket then
            .array pos (findChar json endBracket cursor) cursor
          else if json[cursor]? = some quote then
            match findChar json quote (cursor + 1) with
            | none => .nothing
            | some close => .string ⟨cursor, close⟩
          else .other pos

/-- **A pass of the loop over an array**: what it takes, or nothing where the loop is left. -/
def arrayPass (json : Bytes) (stop : Option ℕ) (q : ℕ) : Option Substr :=
  match findChar json quote q with
  | none => none
  | some first =>
      if stop.any (· < first) then none
      else (findChar json quote (first + 1)).map (Substr.mk first)

/-- The loop over an array goes pass by pass. -/
theorem arraySpans_succ (json : Bytes) (stop : Option ℕ) (fuel q : ℕ) :
    arraySpans json stop (fuel + 1) q =
      match arrayPass json stop q with
      | none => []
      | some cut => cut.span :: arraySpans json stop fuel (cut.close + 1) := by
  rw [arraySpans, arrayPass]
  cases findChar json quote q with
  | none => rfl
  | some first =>
      simp only
      split_ifs
      · rfl
      · cases findChar json quote (first + 1) <;> rfl

/-- The outer loop goes pass by pass. -/
theorem scanSpans_succ (json needle : Bytes) (fuel pos : ℕ) :
    scanSpans json needle (fuel + 1) pos =
      match searchPass json needle pos with
      | .nothing => []
      | .array pos stop cursor =>
          arraySpans json stop (json.length + 1) cursor ++ scanSpans json needle fuel pos
      | .string cut => cut.span :: scanSpans json needle fuel (cut.close + 1)
      | .other pos => scanSpans json needle fuel pos := by
  rw [scanSpans, searchPass]
  cases find json needle pos with
  | none => rfl
  | some hit =>
      simp only
      cases findChar json colon (hit + needle.length) with
      | none => rfl
      | some sep =>
          simp only
          split_ifs
          · rfl
          · cases findChar json quote
              (sep + 1 + ((json.drop (sep + 1)).takeWhile isBlank).length + 1) <;> rfl
          · rfl

/-! ### What a pass does -/

/-- **Two consecutive quotation marks** of a text. -/
structure Delimits (json : Bytes) (cut : Substr) : Prop where
  lt : cut.first < cut.close
  inside : cut.close < json.length
  at_first : json[cut.first]? = some quote
  at_close : json[cut.close]? = some quote
  between : ∀ i, cut.first < i → i < cut.close → json[i]? ≠ some quote

theorem delimits_of_findChar {json : Bytes} {first close : ℕ} (hfirst : json[first]? = some quote)
    (h : findChar json quote (first + 1) = some close) : Delimits json ⟨first, close⟩ := by
  obtain ⟨hle, hclose, hbetween⟩ := findChar_spec h
  exact ⟨hle, (List.getElem?_eq_some_iff.1 hclose).1, hfirst, hclose, hbetween⟩

/-- What a pass of the outer loop may come to, from a position on. -/
def Pass.Sound (json : Bytes) (pos : ℕ) : Pass → Prop
  | .nothing => True
  | .array pos' _ cursor => pos < pos' ∧ pos' ≤ json.length ∧ cursor ≤ json.length
  | .string cut => pos < cut.first ∧ Delimits json cut
  | .other pos' => pos < pos' ∧ pos' ≤ json.length

/-- **What a pass of the outer loop does.** -/
theorem searchPass_sound (json : Bytes) {needle : Bytes} (hneedle : needle ≠ []) (pos : ℕ) :
    (searchPass json needle pos).Sound json pos := by
  have hpos : 0 < needle.length := List.length_pos_iff.2 hneedle
  rw [searchPass]
  cases hhit : find json needle pos with
  | none => trivial
  | some hit =>
      have hle := le_of_find hhit
      have hin := find_add_le hneedle hhit
      simp only
      cases hsep : findChar json colon (hit + needle.length) with
      | none => trivial
      | some sep =>
          have hcolon := (findChar_spec hsep).1
          simp only
          split_ifs with hbracket hquote
          · have hcursor := (List.getElem?_eq_some_iff.1 hbracket).1
            exact ⟨by omega, hin, hcursor.le⟩
          · cases hclose : findChar json quote
              (sep + 1 + ((json.drop (sep + 1)).takeWhile isBlank).length + 1) with
            | none => trivial
            | some close =>
                refine ⟨?_, delimits_of_findChar hquote hclose⟩
                dsimp only
                omega
          · exact ⟨by omega, hin⟩

/-- **What a pass of the loop over an array does.** -/
theorem arrayPass_sound {json : Bytes} {stop : Option ℕ} {q : ℕ} {cut : Substr}
    (h : arrayPass json stop q = some cut) : q ≤ cut.first ∧ Delimits json cut := by
  rw [arrayPass] at h
  cases hfirst : findChar json quote q with
  | none =>
      rw [hfirst] at h
      simp at h
  | some first =>
      rw [hfirst] at h
      simp only at h
      split_ifs at h
      obtain ⟨close, hclose, rfl⟩ := Option.map_eq_some_iff.1 h
      obtain ⟨hle, hquote, -⟩ := findChar_spec hfirst
      exact ⟨hle, delimits_of_findChar hquote hclose⟩

/-! ### The machine -/

/-- **Where the scan stands.** -/
inductive Scan
  /-- At the top of the outer loop. -/
  | search (pos : ℕ)
  /-- At the top of the loop over an array; the outer loop resumes at `pos`. -/
  | array (pos : ℕ) (stop : Option ℕ) (q : ℕ)
  /-- The scan has returned. -/
  | ended
  /-- `std::out_of_range`. -/
  | thrown
  deriving DecidableEq

/-- A call of `substr`, which throws for a start behind the end of the text. -/
def take (json : Bytes) (cut : Substr) (next : Scan) : Scan × List Substr :=
  if cut.first + 1 ≤ json.length then (next, [cut]) else (.thrown, [])

/-- A pass of the loop the scan stands in. -/
def scanStep (json needle : Bytes) : Scan → Option (Scan × List Substr)
  | .search pos =>
      match searchPass json needle pos with
      | .nothing => some (.ended, [])
      | .array pos stop cursor => some (.array pos stop cursor, [])
      | .string cut => some (take json cut (.search (cut.close + 1)))
      | .other pos => some (.search pos, [])
  | .array pos stop q =>
      match arrayPass json stop q with
      | none => some (.search pos, [])
      | some cut => some (take json cut (.array pos stop (cut.close + 1)))
  | .ended => none
  | .thrown => none

/-- **The scanner as a machine**: its steps are the passes of the two loops, and what is observed
are the calls of `substr`. -/
def scanner (json needle : Bytes) : Machine Scan Unit Substr where
  step s _ := scanStep json needle s

/-- What a pass moves forward: the outer loop its position, the loop over an array its own. -/
inductive Advances : Scan → Scan → Prop
  | finish (pos : ℕ) : Advances (.search pos) .ended
  | next {pos pos' : ℕ} (h : pos < pos') : Advances (.search pos) (.search pos')
  | enter {pos pos' : ℕ} (stop : Option ℕ) (q : ℕ) (h : pos < pos') :
      Advances (.search pos) (.array pos' stop q)
  | member (pos : ℕ) (stop : Option ℕ) {q q' : ℕ} (h : q < q') :
      Advances (.array pos stop q) (.array pos stop q')
  | leave (pos : ℕ) (stop : Option ℕ) (q : ℕ) : Advances (.array pos stop q) (.search pos)

def Scan.Inside (json : Bytes) : Scan → Prop
  | .search pos => pos ≤ json.length
  | .array pos _ q => pos ≤ json.length ∧ q ≤ json.length
  | .ended => True
  | .thrown => False

theorem take_of_delimits {json : Bytes} {cut : Substr} (h : Delimits json cut) (next : Scan) :
    take json cut next = (next, [cut]) := by
  have hlt := h.lt
  have hin := h.inside
  exact if_pos (by omega)

/-- **Every pass moves its position forward**, stays inside the text and takes what stands between
two consecutive quotation marks. -/
theorem step_sound {json needle : Bytes} (hneedle : needle ≠ []) {s s' : Scan}
    {cuts : List Substr} (hin : s.Inside json) (h : scanStep json needle s = some (s', cuts)) :
    Advances s s' ∧ s'.Inside json ∧ ∀ cut ∈ cuts, Delimits json cut := by
  cases s with
  | search pos =>
      have hsound := searchPass_sound json hneedle pos
      rw [scanStep] at h
      cases hpass : searchPass json needle pos with
      | nothing =>
          rw [hpass] at h
          obtain ⟨rfl, rfl⟩ := Prod.mk.inj (Option.some.inj h)
          exact ⟨.finish pos, trivial, by simp⟩
      | array pos' stop cursor =>
          rw [hpass] at h hsound
          obtain ⟨rfl, rfl⟩ := Prod.mk.inj (Option.some.inj h)
          exact ⟨.enter stop cursor hsound.1, hsound.2, by simp⟩
      | string cut =>
          rw [hpass] at h hsound
          obtain ⟨hlt, hdelimits⟩ := hsound
          simp only [take_of_delimits hdelimits] at h
          obtain ⟨rfl, rfl⟩ := Prod.mk.inj (Option.some.inj h)
          have hclose := hdelimits.lt
          exact ⟨.next (by omega), hdelimits.inside, by simpa using hdelimits⟩
      | other pos' =>
          rw [hpass] at h hsound
          obtain ⟨rfl, rfl⟩ := Prod.mk.inj (Option.some.inj h)
          exact ⟨.next hsound.1, hsound.2, by simp⟩
  | array pos stop q =>
      rw [scanStep] at h
      cases hpass : arrayPass json stop q with
      | none =>
          rw [hpass] at h
          obtain ⟨rfl, rfl⟩ := Prod.mk.inj (Option.some.inj h)
          exact ⟨.leave pos stop q, hin.1, by simp⟩
      | some cut =>
          rw [hpass] at h
          obtain ⟨hle, hdelimits⟩ := arrayPass_sound hpass
          simp only [take_of_delimits hdelimits] at h
          obtain ⟨rfl, rfl⟩ := Prod.mk.inj (Option.some.inj h)
          have hclose := hdelimits.lt
          exact ⟨.member pos stop (by omega), ⟨hin.1, hdelimits.inside⟩, by simpa using hdelimits⟩
  | ended => cases h
  | thrown => cases h

/-! ### Whole scans -/

/-- What is left to do: the outer loop's share counts for all the passes over one array. -/
def Scan.left (json : Bytes) : Scan → ℕ
  | .search pos => (json.length + 1 - pos) * (json.length + 3)
  | .array pos _ q => (json.length + 1 - pos) * (json.length + 3) + (json.length + 2 - q)
  | .ended => 0
  | .thrown => 0

/-- **A pass that moves its position forward leaves less to do.** -/
theorem left_lt_of_advances {json : Bytes} {s s' : Scan} (h : Advances s s')
    (hin : s.Inside json) (hin' : s'.Inside json) : s'.left json < s.left json := by
  cases h with
  | finish pos =>
      have hpos : pos ≤ json.length := hin
      exact Nat.mul_pos (by omega) (by omega)
  | @next pos pos' h =>
      have hpos' : pos' ≤ json.length := hin'
      exact Nat.mul_lt_mul_of_pos_right (by omega) (by omega)
  | @enter pos pos' stop q h =>
      obtain ⟨hpos', hq⟩ : pos' ≤ json.length ∧ q ≤ json.length := hin'
      -- one position of the outer loop is worth more than all of the inner one
      have hshare : (json.length + 1 - pos' + 1) * (json.length + 3) ≤
          (json.length + 1 - pos) * (json.length + 3) := Nat.mul_le_mul_right _ (by omega)
      rw [Nat.add_mul] at hshare
      simp only [Scan.left]
      omega
  | @member pos stop q q' h =>
      obtain ⟨-, hq'⟩ : pos ≤ json.length ∧ q' ≤ json.length := hin'
      simp only [Scan.left]
      omega
  | leave pos stop q =>
      obtain ⟨-, hq⟩ : pos ≤ json.length ∧ q ≤ json.length := hin
      simp only [Scan.left]
      omega

/-- What a whole run keeps: positions inside the text, and substrings between quotation marks. -/
theorem run_sound {json needle : Bytes} (hneedle : needle ≠ []) {passes : List Unit} {s s' : Scan}
    {cuts : List Substr} (hin : s.Inside json)
    (hrun : (scanner json needle).run s passes = some (s', cuts)) :
    s'.Inside json ∧ ∀ cut ∈ cuts, Delimits json cut := by
  have hstep : ∀ s cuts (pass : Unit) s' cuts',
      (Scan.Inside json s ∧ ∀ cut ∈ cuts, Delimits json cut) →
        (scanner json needle).step s pass = some (s', cuts') →
          Scan.Inside json s' ∧ ∀ cut ∈ cuts ++ cuts', Delimits json cut := by
    rintro s cuts pass s' cuts' ⟨hin, hcuts⟩ h
    obtain ⟨-, hin', hcuts'⟩ := step_sound hneedle hin h
    refine ⟨hin', fun cut hcut => ?_⟩
    rcases List.mem_append.1 hcut with hcut | hcut
    · exact hcuts cut hcut
    · exact hcuts' cut hcut
  exact Machine.run_induction (m := scanner json needle)
    (P := fun s cuts => Scan.Inside json s ∧ ∀ cut ∈ cuts, Delimits json cut)
    hstep (o := []) ⟨hin, by simp⟩ hrun

/-- **A scan takes no more passes** than the square of the length of the text. -/
theorem length_passes_le {json needle : Bytes} (hneedle : needle ≠ []) {passes : List Unit}
    {s s' : Scan} {cuts : List Substr} (hin : s.Inside json)
    (hrun : (scanner json needle).run s passes = some (s', cuts)) :
    passes.length ≤ s.left json := by
  have hbound := Machine.run_bounded (m := scanner json needle) (P := Scan.Inside json)
    (μ := Scan.left json) (fun s a s' o hs h => ?_) hin hrun
  · omega
  · obtain ⟨hadvances, hin', -⟩ := step_sound hneedle hs h
    exact ⟨hin', left_lt_of_advances hadvances hs hin'⟩

/-- **The loop over an array is left** with what its function returns. -/
theorem run_array (json needle : Bytes) (pos : ℕ) (stop : Option ℕ) : ∀ (fuel q : ℕ),
    q ≤ json.length → json.length < q + fuel → ∃ passes cuts,
      (scanner json needle).run (.array pos stop q) passes = some (.search pos, cuts) ∧
        cuts.map Substr.span = arraySpans json stop fuel q := by
  intro fuel
  induction fuel with
  | zero => intro q hq hfuel; omega
  | succ fuel ih =>
      intro q hq hfuel
      rw [arraySpans_succ]
      cases hpass : arrayPass json stop q with
      | none =>
          have hstep : (scanner json needle).step (.array pos stop q) () =
              some (.search pos, []) := by
            simp only [scanner, scanStep, hpass]
          exact ⟨[()], [], Machine.run_singleton.2 hstep, rfl⟩
      | some cut =>
          obtain ⟨hle, hdelimits⟩ := arrayPass_sound hpass
          have hlt := hdelimits.lt
          obtain ⟨passes, cuts, hrun, hspans⟩ :=
            ih (cut.close + 1) hdelimits.inside (by omega)
          have hstep : (scanner json needle).step (.array pos stop q) () =
              some (.array pos stop (cut.close + 1), [cut]) := by
            simp only [scanner, scanStep, hpass, take_of_delimits hdelimits]
          exact ⟨() :: passes, cut :: cuts, Machine.run_cons.2 ⟨_, _, _, hstep, hrun, rfl⟩,
            congrArg (cut.span :: ·) hspans⟩

/-- **The outer loop ends** with what its function returns. -/
theorem run_search (json : Bytes) {needle : Bytes} (hneedle : needle ≠ []) : ∀ (fuel pos : ℕ),
    pos ≤ json.length → json.length < pos + fuel → ∃ passes cuts,
      (scanner json needle).run (.search pos) passes = some (.ended, cuts) ∧
        cuts.map Substr.span = scanSpans json needle fuel pos := by
  intro fuel
  induction fuel with
  | zero => intro pos hpos hfuel; omega
  | succ fuel ih =>
      intro pos hpos hfuel
      have hsound := searchPass_sound json hneedle pos
      rw [scanSpans_succ]
      cases hpass : searchPass json needle pos with
      | nothing =>
          have hstep : (scanner json needle).step (.search pos) () = some (.ended, []) := by
            simp only [scanner, scanStep, hpass]
          exact ⟨[()], [], Machine.run_singleton.2 hstep, rfl⟩
      | array pos' stop cursor =>
          rw [hpass] at hsound
          obtain ⟨hlt, hpos', hcursor⟩ := hsound
          have hstep : (scanner json needle).step (.search pos) () =
              some (.array pos' stop cursor, []) := by
            simp only [scanner, scanStep, hpass]
          -- through the array, and on behind the name
          obtain ⟨inner, taken, hinner, htaken⟩ := run_array json needle pos' stop
            (json.length + 1) cursor hcursor (by omega)
          obtain ⟨passes, cuts, hrun, hspans⟩ := ih pos' hpos' (by omega)
          refine ⟨() :: (inner ++ passes), taken ++ cuts, ?_, ?_⟩
          · exact Machine.run_cons.2 ⟨_, _, _, hstep,
              Machine.run_append.2 ⟨_, _, _, hinner, hrun, rfl⟩, rfl⟩
          · rw [List.map_append, htaken, hspans]
      | string cut =>
          rw [hpass] at hsound
          obtain ⟨hlt, hdelimits⟩ := hsound
          have hclose := hdelimits.lt
          have hstep : (scanner json needle).step (.search pos) () =
              some (.search (cut.close + 1), [cut]) := by
            simp only [scanner, scanStep, hpass, take_of_delimits hdelimits]
          obtain ⟨passes, cuts, hrun, hspans⟩ :=
            ih (cut.close + 1) hdelimits.inside (by omega)
          exact ⟨() :: passes, cut :: cuts, Machine.run_cons.2 ⟨_, _, _, hstep, hrun, rfl⟩,
            congrArg (cut.span :: ·) hspans⟩
      | other pos' =>
          rw [hpass] at hsound
          obtain ⟨hlt, hpos'⟩ := hsound
          have hstep : (scanner json needle).step (.search pos) () =
              some (.search pos', []) := by
            simp only [scanner, scanStep, hpass]
          obtain ⟨passes, cuts, hrun, hspans⟩ := ih pos' hpos' (by omega)
          exact ⟨() :: passes, cuts, Machine.run_cons.2 ⟨_, _, _, hstep, hrun, rfl⟩, hspans⟩

/-! ### What is returned -/

/-- **What stands between two consecutive quotation marks** is a part of the text without one. -/
theorem Delimits.split {json : Bytes} {cut : Substr} (h : Delimits json cut) :
    (∃ before after, json = before ++ quote :: (cut.span.of json ++ quote :: after)) ∧
      quote ∉ cut.span.of json := by
  have hlt := h.lt
  have hin := h.inside
  constructor
  · refine ⟨json.take cut.first, json.drop (cut.close + 1), ?_⟩
    have hopen : json.drop cut.first = quote :: json.drop (cut.first + 1) := by
      rw [List.drop_eq_getElem_cons (by omega), (List.getElem_eq_iff _).2 h.at_first]
    have hclose : json.drop cut.close = quote :: json.drop (cut.close + 1) := by
      rw [List.drop_eq_getElem_cons hin, (List.getElem_eq_iff _).2 h.at_close]
    have hvalue : json.drop (cut.first + 1) = cut.span.of json ++ json.drop cut.close := by
      have hend : cut.close = cut.first + 1 + (cut.close - cut.first - 1) := by omega
      conv_rhs => rw [hend, ← List.drop_drop]
      exact (List.take_append_drop _ _).symm
    calc json = json.take cut.first ++ json.drop cut.first := (List.take_append_drop _ _).symm
      _ = json.take cut.first ++
          quote :: (cut.span.of json ++ quote :: json.drop (cut.close + 1)) := by
          rw [hopen, hvalue, hclose]
  · intro hmem
    obtain ⟨i, hi⟩ := List.mem_iff_getElem?.1 hmem
    rw [Span.of, Substr.span, List.getElem?_take] at hi
    split_ifs at hi with hilt
    rw [List.getElem?_drop] at hi
    dsimp only at hi hilt
    exact h.between _ (by omega) (by omega) hi

def quoted (key : Bytes) : Bytes := quote :: (key ++ [quote])

/-- **The scan of a text for a name is total.** -/
structure Total (json key : Bytes) : Prop where
  /-- Every pass moves its position forward. -/
  advances : ∀ passes s cuts s' cuts', (scanner json (quoted key)).run (.search 0) passes =
    some (s, cuts) → scanStep json (quoted key) s = some (s', cuts') → Advances s s'
  /-- There are no more passes than the square of the length of the text. -/
  bounded : ∀ passes s cuts, (scanner json (quoted key)).run (.search 0) passes =
    some (s, cuts) → passes.length ≤ (json.length + 1) * (json.length + 3)
  /-- No call of `substr` throws, and each takes what stands between two consecutive quotation
  marks. -/
  inside : ∀ passes s cuts, (scanner json (quoted key)).run (.search 0) passes =
    some (s, cuts) → s ≠ .thrown ∧ ∀ cut ∈ cuts, Delimits json cut
  /-- The scan comes to its end, and returns what its function returns. -/
  returns : ∃ passes cuts, (scanner json (quoted key)).run (.search 0) passes =
    some (.ended, cuts) ∧ jsonStringValues json key = cuts.map fun cut => cut.span.of json
  /-- Every value is a part of the text between two consecutive quotation marks. -/
  delimited : ∀ v ∈ jsonStringValues json key,
    (∃ before after, json = before ++ quote :: (v ++ quote :: after)) ∧ quote ∉ v

/-- **The field scanner is total on hostile input**: on any text and for any name. -/
theorem jsonStringValues_total (json key : Bytes) : Total json key := by
  have hneedle : quoted key ≠ [] := List.cons_ne_nil _ _
  have hstart : Scan.Inside json (.search 0) := Nat.zero_le _
  obtain ⟨passes, cuts, hrun, hspans⟩ := run_search json hneedle (json.length + 1) 0
    (Nat.zero_le _) (by omega)
  have hvalues : jsonStringValues json key = cuts.map fun cut => cut.span.of json := by
    have hfunction : jsonStringSpans json key = cuts.map Substr.span := hspans.symm
    rw [jsonStringValues, hfunction, List.map_map]
    rfl
  constructor
  · intro passes s cuts s' cuts' hrun hstep
    exact (step_sound hneedle (run_sound hneedle hstart hrun).1 hstep).1
  · intro passes s cuts hrun
    exact length_passes_le hneedle hstart hrun
  · intro passes s cuts hrun
    obtain ⟨hin, hcuts⟩ := run_sound hneedle hstart hrun
    refine ⟨?_, hcuts⟩
    rintro rfl
    exact hin
  · exact ⟨passes, cuts, hrun, hvalues⟩
  · intro v hv
    rw [hvalues] at hv
    obtain ⟨cut, hcut, rfl⟩ := List.mem_map.1 hv
    exact ((run_sound hneedle hstart hrun).2 cut hcut).split

end ClearKey
