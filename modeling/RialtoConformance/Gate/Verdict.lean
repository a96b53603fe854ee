/-
**The verdict on a report.**

An xUnit report is a tree whose test suites may be nested, and each suite counts the cases below it
at any depth.  `_adjudicate` sums over all suites, so a case is counted once for every suite it lies
in, or looks at the root alone, where the root is a suite.  The sums are not the numbers of cases,
and the verdict is right all the same.

How a test case tells its outcome is left open: everything holds for any reading of it.

Main definitions:

* `Gate.Xml.cases`, `Gate.Xml.suites` — the test cases below an element, and the suites of a report;
* `Gate.XUnit` — a report whose suites count their cases and leave none out;
* `Gate.caseSum` — what the loop over the suites sums up;
* `Gate.Covers` — suites that leave no case of a report out.

Main results:

* `Gate.descendants_trans` — what lies below an element lies below what that lies in;
* `Gate.tally_eq_caseSum` — what the loop comes to;
* `Gate.caseSum_eq_zero_iff`, `Gate.caseSum_add_not` — **a case that is counted more than once
  decides nothing else**;
* `Gate.adjudicate_xunit` — **the verdict is sound and complete**.
-/
import RialtoConformance.Gate.Conformance

set_option relaxedAutoImplicit false
set_option autoImplicit false

namespace Gate

/-! ### Elements below elements -/

theorem mem_descendantsOf_cons {x y : Xml} {xs : List Xml} :
    y ∈ descendantsOf (x :: xs) ↔ y = x ∨ y ∈ x.descendants ∨ y ∈ descendantsOf xs := by
  rw [descendantsOf, List.mem_cons, List.mem_append]

theorem descendantsOf_trans : ∀ {xs : List Xml} {y z : Xml}, y ∈ descendantsOf xs →
    z ∈ y.descendants → z ∈ descendantsOf xs
  | [], _, _, hy, _ => by
      rw [descendantsOf] at hy
      exact absurd hy List.not_mem_nil
  | .element _ _ children :: xs, y, z, hy, hz => by
      rw [mem_descendantsOf_cons] at hy ⊢
      rw [Xml.descendants] at hy ⊢
      rcases hy with rfl | hy | hy
      · rw [Xml.descendants] at hz
        exact Or.inr (Or.inl hz)
      · exact Or.inr (Or.inl (descendantsOf_trans hy hz))
      · exact Or.inr (Or.inr (descendantsOf_trans hy hz))

/-- **What lies below an element lies below what that lies in.** -/
theorem descendants_trans {x y z : Xml} (hy : y ∈ x.descendants) (hz : z ∈ y.descendants) :
    z ∈ x.descendants := by
  obtain ⟨tag, attributes, children⟩ := x
  rw [Xml.descendants] at hy ⊢
  exact descendantsOf_trans hy hz

/-! ### Reports -/

/-- How a test case went. -/
inductive CaseOutcome
  | passed
  | failed
  | errored
  | skipped
  deriving DecidableEq, Repr

/-- The test cases among the descendants of an element. -/
def Xml.cases (x : Xml) : List Xml := x.descendants.filter fun c => c.tag = "testcase"

/-- The test suites of a report, the root among them where it is one. -/
def Xml.suites (root : Xml) : List Xml :=
  (root :: root.descendants).filter fun x => x.tag = "testsuite"

/-- The attributes of a suite count the cases among its descendants. -/
structure Counts (outcome : Xml → CaseOutcome) (suite : Xml) : Prop where
  tests : suite.count "tests" = some (suite.cases.length : ℤ)
  failures : suite.count "failures" =
    some (suite.cases.countP fun c => outcome c = .failed : ℤ)
  errors : suite.count "errors" =
    some (suite.cases.countP fun c => outcome c = .errored : ℤ)
  skipped : suite.count "skipped" =
    some (suite.cases.countP fun c => outcome c = .skipped : ℤ)

/-- **An xUnit report**: every suite counts its cases, and every case lies in some suite. -/
structure XUnit (outcome : Xml → CaseOutcome) (root : Xml) : Prop where
  root_tag : root.tag = "testsuite" ∨ root.tag = "testsuites"
  counts : ∀ suite ∈ root.suites, Counts outcome suite
  covered : ∀ c ∈ root.cases, ∃ suite ∈ root.suites, c ∈ suite.cases

/-! ### What the loop sums up -/

/-- How often a case with a property is met in some suites: once for every suite it lies in. -/
def caseSum (p : Xml → Bool) (suites : List Xml) : ℕ :=
  (suites.map fun suite => suite.cases.countP p).sum

theorem caseSum_cons (p : Xml → Bool) (suite : Xml) (suites : List Xml) :
    caseSum p (suite :: suites) = suite.cases.countP p + caseSum p suites := by
  rw [caseSum, List.map_cons, List.sum_cons, caseSum]

/-- **What the loop over the suites comes to.** -/
theorem tally_eq_caseSum {outcome : Xml → CaseOutcome} : ∀ {suites : List Xml} {t : Totals},
    (∀ suite ∈ suites, Counts outcome suite) → tally suites t = some
      ⟨t.total + caseSum (fun _ => true) suites,
        t.failures + caseSum (fun c => outcome c = .failed) suites,
        t.errors + caseSum (fun c => outcome c = .errored) suites,
        t.skipped + caseSum (fun c => outcome c = .skipped) suites⟩ := by
  intro suites
  induction suites with
  | nil =>
      intro t _
      simp only [caseSum, List.map_nil, List.sum_nil, Nat.cast_zero, Int.add_zero]
      rfl
  | cons suite suites ih =>
      intro t h
      have hsuite : Counts outcome suite := h suite List.mem_cons_self
      have hrest := fun s hs => h s (List.mem_cons_of_mem _ hs)
      have hlength : suite.cases.countP (fun _ => true) = suite.cases.length :=
        congrFun List.countP_true suite.cases
      rw [tally, hsuite.tests, hsuite.failures, hsuite.errors, hsuite.skipped]
      simp only [Option.bind_eq_bind, Option.bind_some]
      rw [ih hrest]
      simp only [caseSum_cons, hlength, Nat.cast_add, Int.add_assoc]

/-- **Nothing is counted** exactly when no suite has such a case. -/
theorem caseSum_eq_zero_iff {p : Xml → Bool} {suites : List Xml} :
    caseSum p suites = 0 ↔ ∀ suite ∈ suites, ∀ c ∈ suite.cases, p c = false := by
  rw [caseSum, List.sum_eq_zero_iff]
  constructor
  · intro h suite hsuite c hc
    have hzero := h _ (List.mem_map_of_mem hsuite)
    rw [List.countP_eq_zero] at hzero
    exact Bool.eq_false_of_not_eq_true (hzero c hc)
  · intro h n hn
    obtain ⟨suite, hsuite, rfl⟩ := List.mem_map.1 hn
    rw [List.countP_eq_zero]
    intro c hc
    rw [h suite hsuite c hc]
    exact Bool.false_ne_true

/-- **The cases without a property** make up the difference, however often they are counted. -/
theorem caseSum_add_not (p : Xml → Bool) : ∀ suites : List Xml,
    caseSum p suites + caseSum (fun c => !p c) suites = caseSum (fun _ => true) suites := by
  intro suites
  induction suites with
  | nil => rfl
  | cons suite suites ih =>
      have hlength := List.length_eq_countP_add_countP p (l := suite.cases)
      have hnot : suite.cases.countP (fun c => !p c) =
          suite.cases.countP fun c => decide ¬ p c = true := by
        refine List.countP_congr fun c _ => ?_
        simp
      rw [caseSum_cons, caseSum_cons, caseSum_cons, List.countP_true, hnot]
      omega

/-! ### The suites that are summed over -/

/-- Suites that leave no case of a report out, and have no other cases. -/
structure Covers (root : Xml) (suites : List Xml) : Prop where
  inside : ∀ suite ∈ suites, ∀ c ∈ suite.cases, c ∈ root.cases
  all : ∀ c ∈ root.cases, ∃ suite ∈ suites, c ∈ suite.cases

theorem cases_inside {root suite : Xml} (h : suite ∈ root :: root.descendants) :
    ∀ c ∈ suite.cases, c ∈ root.cases := by
  intro c hc
  rcases List.mem_cons.1 h with rfl | h
  · exact hc
  · obtain ⟨hin, htag⟩ := List.mem_filter.1 hc
    exact List.mem_filter.2 ⟨descendants_trans h hin, htag⟩

/-- Suites that cover a report meet a case with a property exactly when the report has one. -/
theorem Covers.caseSum_eq_zero_iff {root : Xml} {suites : List Xml} (h : Covers root suites)
    {p : Xml → Bool} : caseSum p suites = 0 ↔ ∀ c ∈ root.cases, p c = false := by
  rw [Gate.caseSum_eq_zero_iff]
  constructor
  · intro hnone c hc
    obtain ⟨suite, hsuite, hin⟩ := h.all c hc
    exact hnone suite hsuite c hin
  · intro hnone suite hsuite c hc
    exact hnone c (h.inside suite hsuite c hc)

theorem suitesOf_eq {root : Xml} (htag : root.tag = "testsuite" ∨ root.tag = "testsuites") :
    suitesOf root = [root] ∧ root ∈ root.suites ∨ suitesOf root = root.suites := by
  rcases htag with htag | htag
  · refine Or.inl ⟨if_pos htag, ?_⟩
    exact List.mem_filter.2 ⟨List.mem_cons_self, decide_eq_true htag⟩
  · have hne : root.tag ≠ "testsuite" := by
      rw [htag]
      decide
    refine Or.inr ?_
    rw [suitesOf, if_neg hne, Xml.suites, List.filter_cons_of_neg (by simpa using hne)]

/-- **The suites that are summed over** count their cases and cover the report. -/
theorem XUnit.suitesOf {outcome : Xml → CaseOutcome} {root : Xml} (h : XUnit outcome root) :
    (∀ suite ∈ suitesOf root, Counts outcome suite) ∧ Covers root (Gate.suitesOf root) := by
  rcases suitesOf_eq h.root_tag with ⟨heq, hroot⟩ | heq
  · rw [heq]
    refine ⟨?_, ?_, ?_⟩
    · intro suite hsuite
      rw [List.mem_singleton.1 hsuite]
      exact h.counts root hroot
    · intro suite hsuite c hc
      rwa [List.mem_singleton.1 hsuite] at hc
    · intro c hc
      exact ⟨root, List.mem_cons_self, hc⟩
  · rw [heq]
    refine ⟨h.counts, ?_, h.covered⟩
    intro suite hsuite
    exact cases_inside (List.mem_filter.1 hsuite).1

/-! ### The verdict -/

/-- **The verdict is sound and complete**: a report whose suites, nested to any depth, count their
cases and leave none out passes exactly when no case failed, none errored and at least one was not
skipped. -/
theorem adjudicate_xunit {outcome : Xml → CaseOutcome} {root : Xml} (h : XUnit outcome root) :
    adjudicate (some root) = .ok () ↔
      (∀ c ∈ root.cases, outcome c ≠ .failed) ∧ (∀ c ∈ root.cases, outcome c ≠ .errored) ∧
        ∃ c ∈ root.cases, outcome c ≠ .skipped := by
  obtain ⟨hcounts, hcovers⟩ := h.suitesOf
  have htally := tally_eq_caseSum (t := ⟨0, 0, 0, 0⟩) hcounts
  have hsum := caseSum_add_not (fun c => outcome c = .skipped) (suitesOf root)
  have hnone : ∀ result, caseSum (fun c => outcome c = result) (suitesOf root) = 0 ↔
      ∀ c ∈ root.cases, outcome c ≠ result := by
    intro result
    rw [hcovers.caseSum_eq_zero_iff]
    simp only [decide_eq_false_iff_not, ne_eq]
  have hsome : caseSum (fun c => !decide (outcome c = .skipped)) (suitesOf root) ≠ 0 ↔
      ∃ c ∈ root.cases, outcome c ≠ .skipped := by
    rw [ne_eq, hcovers.caseSum_eq_zero_iff]
    simp only [Bool.not_eq_false', decide_eq_true_eq, not_forall, exists_prop, ne_eq]
  rw [adjudicate_eq_ok_iff, ← hnone, ← hnone, ← hsome]
  constructor
  · rintro ⟨root', t, hroot, ht, hfailures, herrors, hpos⟩
    obtain rfl := Option.some.inj hroot
    obtain rfl := Option.some.inj (htally.symm.trans ht)
    dsimp only at hfailures herrors hpos
    omega
  · rintro ⟨hfailures, herrors, hpos⟩
    refine ⟨root, _, rfl, htally, ?_, ?_, ?_⟩
    · dsimp only
      omega
    · dsimp only
      omega
    · dsimp only
      omega

/-- The outcome of a case as it is usually written: an element in it says how it went. -/
def outcomeOf : Xml → CaseOutcome
  | .element _ _ children =>
      if children.any fun x => x.tag = "failure" then .failed
      else if children.any fun x => x.tag = "error" then .errored
      else if children.any fun x => x.tag = "skipped" then .skipped
      else .passed

def passedCase : Xml := .element "testcase" [] []

def skippedCase : Xml := .element "testcase" [] [.element "skipped" [] []]

/-- A suite with that case, in it a suite with the other one. -/
def innerSuite : Xml := .element "testsuite" [("tests", "1")] [passedCase]

/-- The suite around it, which counts both. -/
def outerSuite : Xml :=
  .element "testsuite" [("tests", "2"), ("skipped", "1")] [skippedCase, innerSuite]

def nestedReport : Xml := .element "testsuites" [] [outerSuite]

theorem cases_nestedReport : nestedReport.cases = [skippedCase, passedCase] := by
  simp [Xml.cases, nestedReport, outerSuite, innerSuite, skippedCase, passedCase, Xml.descendants,
    descendantsOf, Xml.tag]

theorem xunit_nestedReport : XUnit outcomeOf nestedReport := by
  have hsuites : nestedReport.suites = [outerSuite, innerSuite] := by
    simp [Xml.suites, nestedReport, outerSuite, innerSuite, skippedCase, passedCase,
      Xml.descendants, descendantsOf, Xml.tag]
  have hcases : nestedReport.cases = outerSuite.cases := by
    simp [Xml.cases, nestedReport, outerSuite, Xml.descendants, descendantsOf, Xml.tag]
  refine ⟨Or.inr rfl, ?_, ?_⟩
  · intro suite hsuite
    rw [hsuites] at hsuite
    rcases List.mem_cons.1 hsuite with rfl | hsuite
    · constructor <;> decide +kernel
    · rw [List.mem_singleton.1 hsuite]
      constructor <;> decide +kernel
  · intro c hc
    rw [hcases] at hc
    exact ⟨outerSuite, by rw [hsuites]; exact List.mem_cons_self, hc⟩

/-- Its inner suite is counted twice, and it passes all the same. -/
theorem adjudicate_nestedReport : adjudicate (some nestedReport) = .ok () := by
  refine (adjudicate_xunit xunit_nestedReport).2 ?_
  rw [cases_nestedReport]
  refine ⟨?_, ?_, passedCase, by simp, by decide⟩
  · simp [outcomeOf, skippedCase, passedCase, Xml.tag]
  · simp [outcomeOf, skippedCase, passedCase, Xml.tag]

end Gate
