/-
**The conformance gate.**

`test_10_run_conformance` runs the binary on the target, collects the newest report of the results
directory, copies it back and adjudicates it.  The results directory survives deployments, and
neither the run's exit status nor its completion marker is looked at, so the report that is
collected need not be this run's.

The console is an interactive shell that runs one command after the other; a command whose marker
does not arrive before the deadline is left behind, and the next one waits for it.  The read that
brings a marker need not bring the status behind it.  Copying a file to the target or back is taken
to raise where it fails.  A report is what the XML reader makes of it.

Main definitions:

* `Gate.onTarget` — a command on the console, with its deadline;
* `Gate.newestReport` — `ls -1t *-report.xml | head -1`;
* `Gate.adjudicate` — the verdict on a report;
* `Gate.testRunConformance` — the test;
* `Gate.OwnReport` — the report of the run is the one collected, and it is clean.

Main results:

* `Gate.adjudicate_eq_ok_iff` — what a clean report is;
* `Gate.newestReport_write` — a newer report is the one that is collected;
* `Gate.testRunConformance_ownReport_iff` — **when a passing test adjudicated its own run**.
-/
import Mathlib.Tactic
import Mathlib.Data.String.Basic

set_option relaxedAutoImplicit false
set_option autoImplicit false

namespace Gate

/-! ### Reports -/

/-- An element of a report: its tag, its attributes and its children. -/
inductive Xml
  | element (tag : String) (attributes : List (String × String)) (children : List Xml)

def Xml.tag : Xml → String
  | .element tag _ _ => tag

/-- `suite.get(name)`. -/
def Xml.get (name : String) : Xml → Option String
  | .element _ attributes _ => attributes.lookup name

mutual

/-- The elements below an element, in document order. -/
def Xml.descendants : Xml → List Xml
  | .element _ _ children => descendantsOf children

/-- The elements of a list and those below them. -/
def descendantsOf : List Xml → List Xml
  | [] => []
  | x :: xs => x :: (x.descendants ++ descendantsOf xs)

end

/-- The value of decimal digits, with single underscores between them. -/
def pyDigits : List Char → ℕ → Option ℕ
  | [], _ => none
  | [c], acc => if c.isDigit then some (10 * acc + (c.toNat - 48)) else none
  | c :: '_' :: cs, acc => if c.isDigit then pyDigits cs (10 * acc + (c.toNat - 48)) else none
  | c :: c' :: cs, acc =>
      if c.isDigit then pyDigits (c' :: cs) (10 * acc + (c.toNat - 48)) else none

/-- `int(text)` on a text of ASCII characters, or `none` where it raises.  There is no limit on the
number of digits here; some interpreters raise behind 4300 of them. -/
def pyInt (text : String) : Option ℤ :=
  let blank : Char → Bool := fun c => c = ' ' || (9 ≤ c.toNat && c.toNat ≤ 13)
  let inner := ((text.toList.dropWhile blank).reverse.dropWhile blank).reverse
  match inner with
  | '-' :: ds => (pyDigits ds 0).map fun n => -(n : ℤ)
  | '+' :: ds => (pyDigits ds 0).map fun n => (n : ℤ)
  | ds => (pyDigits ds 0).map fun n => (n : ℤ)

example : pyInt " 12 " = some 12 ∧ pyInt "-1_0" = some (-10) ∧ pyInt "1__0" = none := by
  decide +kernel

/-! ### The verdict on a report -/

/-- The totals over the suites of a report. -/
structure Totals where
  total : ℤ
  failures : ℤ
  errors : ℤ
  skipped : ℤ
  deriving DecidableEq

/-- `int(suite.get(name, 0))`. -/
def Xml.count (suite : Xml) (name : String) : Option ℤ :=
  match suite.get name with
  | none => some 0
  | some text => pyInt text

def tally : List Xml → Totals → Option Totals
  | [], t => some t
  | suite :: suites, t => do
      let tests ← suite.count "tests"
      let failures ← suite.count "failures"
      let errors ← suite.count "errors"
      let skipped ← suite.count "skipped"
      tally suites ⟨t.total + tests, t.failures + failures, t.errors + errors, t.skipped + skipped⟩

def suitesOf (root : Xml) : List Xml :=
  if root.tag = "testsuite" then [root] else root.descendants.filter fun x => x.tag = "testsuite"

/-- How the test fails. -/
inductive GateFailure
  /-- The HFP could not be fetched or shipped. -/
  | hfp
  /-- `the run produced no xUnit report`. -/
  | noReport
  /-- The report could not be copied back. -/
  | copyBack
  /-- The report is no XML, or a count in it is no number. -/
  | unreadable
  /-- `conformance case(s) failed`. -/
  | failed (failures : ℤ)
  /-- `conformance case(s) errored`. -/
  | errored (errors : ℤ)
  /-- `no applicable cases ran on this target`. -/
  | noCases
  deriving DecidableEq

/-- **`_adjudicate`**: the gate fails on any failure or error, and when nothing ran. -/
def adjudicate (content : Option Xml) : Except GateFailure Unit :=
  match content.bind fun root => tally (suitesOf root) ⟨0, 0, 0, 0⟩ with
  | none => .error .unreadable
  | some t =>
      if t.failures ≠ 0 then .error (.failed t.failures)
      else if t.errors ≠ 0 then .error (.errored t.errors)
      else if t.total - t.skipped > 0 then .ok ()
      else .error .noCases

/-- A clean report: no failure, no error, and at least one case that was not skipped. -/
def Clean (content : Option Xml) : Prop :=
  ∃ root totals, content = some root ∧ tally (suitesOf root) ⟨0, 0, 0, 0⟩ = some totals ∧
    totals.failures = 0 ∧ totals.errors = 0 ∧ 0 < totals.total - totals.skipped

/-- **The gate passes exactly the clean reports.** -/
theorem adjudicate_eq_ok_iff {content : Option Xml} : adjudicate content = .ok () ↔ Clean content := by
  cases content with
  | none => simp [adjudicate, Clean]
  | some root =>
      cases htally : tally (suitesOf root) ⟨0, 0, 0, 0⟩ with
      | none => simp [adjudicate, Clean, htally]
      | some t =>
          simp only [adjudicate, Clean, Option.bind_some, htally]
          constructor
          · intro h
            split_ifs at h with hf he ht
            exact ⟨root, t, rfl, htally, by simpa using hf, by simpa using he, ht⟩
          · rintro ⟨root', t', hroot, ht, hf, he, hpos⟩
            obtain rfl := Option.some.inj hroot
            rw [htally] at ht
            obtain rfl := Option.some.inj ht
            rw [if_neg (by simpa using hf), if_neg (by simpa using he), if_pos hpos]

/-! ### The results directory -/

/-- A file of the results directory. -/
structure RemoteFile where
  name : String
  mtime : ℕ
  /-- What the XML reader makes of it, or `none` where it raises. -/
  content : Option Xml

abbrev Results := List RemoteFile

/-- Writing a file, over one of the same name. -/
def write (results : Results) (file : RemoteFile) : Results :=
  file :: results.filter fun f => f.name ≠ file.name

/-- A name matches `*-report.xml`. -/
def isReport (name : String) : Bool :=
  "-report.xml".toList.isSuffixOf name.toList && name.toList.head? ≠ some '.'

/-- The order of `ls -1t`: newer files first, files of the same time by name. -/
def listedBefore (a b : RemoteFile) : Bool :=
  decide (b.mtime < a.mtime) || (decide (a.mtime = b.mtime) && decide (a.name ≤ b.name))

/-- **`ls -1t *-report.xml | head -1`.** -/
def newestReport (results : Results) : Option RemoteFile :=
  ((results.filter fun f => isReport f.name).mergeSort listedBefore).head?

theorem listedBefore_trans (a b c : RemoteFile) (hab : listedBefore a b = true)
    (hbc : listedBefore b c = true) : listedBefore a c = true := by
  simp only [listedBefore, Bool.or_eq_true, Bool.and_eq_true, decide_eq_true_eq] at *
  rcases hab with hab | ⟨hab, hab'⟩
  · rcases hbc with hbc | ⟨hbc, -⟩
    · exact Or.inl (by omega)
    · exact Or.inl (by omega)
  · rcases hbc with hbc | ⟨hbc, hbc'⟩
    · exact Or.inl (by omega)
    · exact Or.inr ⟨by omega, hab'.trans hbc'⟩

theorem listedBefore_total (a b : RemoteFile) :
    (listedBefore a b || listedBefore b a) = true := by
  simp only [listedBefore, Bool.or_eq_true, Bool.and_eq_true, decide_eq_true_eq]
  rcases Nat.lt_trichotomy a.mtime b.mtime with h | h | h
  · exact Or.inr (Or.inl h)
  · rcases le_total a.name b.name with hn | hn
    · exact Or.inl (Or.inr ⟨h, hn⟩)
    · exact Or.inr (Or.inr ⟨h.symm, hn⟩)
  · exact Or.inl (Or.inl h)

theorem newestReport_spec {results : Results} {file : RemoteFile}
    (h : newestReport results = some file) :
    file ∈ results ∧ isReport file.name = true ∧
      ∀ f ∈ results, isReport f.name = true → f.mtime ≤ file.mtime := by
  obtain ⟨rest, hrest⟩ := List.head?_eq_some_iff.1 h
  have hmem : ∀ f, f ∈ file :: rest ↔ f ∈ results ∧ isReport f.name = true := by
    intro f
    rw [← hrest, List.mem_mergeSort, List.mem_filter]
  have hsorted : (file :: rest).Pairwise fun a b => listedBefore a b = true := by
    rw [← hrest]
    exact List.pairwise_mergeSort listedBefore_trans listedBefore_total _
  obtain ⟨hfile, hreport⟩ := (hmem file).1 (by simp)
  refine ⟨hfile, hreport, fun f hf hrep => ?_⟩
  rcases List.mem_cons.1 ((hmem f).2 ⟨hf, hrep⟩) with rfl | htail
  · exact le_rfl
  · have := List.rel_of_pairwise_cons hsorted htail
    simp only [listedBefore, Bool.or_eq_true, Bool.and_eq_true, decide_eq_true_eq] at this
    omega

theorem isSome_newestReport {results : Results} {f : RemoteFile} (hf : f ∈ results)
    (hreport : isReport f.name = true) : (newestReport results).isSome := by
  have hmem : f ∈ (results.filter fun f => isReport f.name).mergeSort listedBefore := by
    rw [List.mem_mergeSort, List.mem_filter]
    exact ⟨hf, hreport⟩
  rw [newestReport, List.isSome_head?]
  exact List.ne_nil_of_mem hmem

/-- **A report newer than all others is the newest one.** -/
theorem newestReport_write {results : Results} {report : RemoteFile}
    (hreport : isReport report.name = true)
    (hnewer : ∀ f ∈ results, isReport f.name = true → f.mtime < report.mtime) :
    newestReport (write results report) = some report := by
  have hmem : report ∈ write results report := by simp [write]
  obtain ⟨file, hfile⟩ := Option.isSome_iff_exists.1 (isSome_newestReport hmem hreport)
  obtain ⟨hin, hrep, hmax⟩ := newestReport_spec hfile
  have hle := hmax report hmem hreport
  rcases List.mem_cons.1 hin with rfl | hold
  · exact hfile
  · have := hnewer file (List.mem_of_mem_filter hold) hrep
    omega

/-! ### The console -/

/-- A command sent to the target: how long it keeps the shell busy, if it ever returns, the status it
ends with, and whether the read that brings its marker brings the status too. -/
structure Command where
  seconds : Option ℕ
  status : ℕ
  statusRead : Bool

/-- The console: the time, and when the shell is done with what it has been sent, if ever. -/
structure Console where
  now : ℕ
  idleAt : Option ℕ

/-- **`_on_target`**: send a command and read until its marker arrives or the deadline passes; what
is returned is the console, and the exit status where it stands behind the marker in the output.
`RialtoConformance/Gate/Console.lean` says when that is so. -/
def onTarget (console : Console) (command : Command) (timeout : ℕ) : Console × Option ℕ :=
  match console.idleAt, command.seconds with
  | some idleAt, some seconds =>
      let done := max console.now idleAt + seconds
      if done ≤ console.now + timeout then
        (⟨done, some done⟩, if command.statusRead then some command.status else none)
      else (⟨console.now + timeout, some done⟩, none)
  | _, _ => (⟨console.now + timeout, none⟩, none)

/-- The marker of a command arrives before the deadline. -/
def inTime (console : Console) (seconds : Option ℕ) (timeout : ℕ) : Bool :=
  match console.idleAt, seconds with
  | some idleAt, some seconds => max console.now idleAt + seconds ≤ console.now + timeout
  | _, _ => false

/-- The exit status is there when the marker arrives in time and the status with it. -/
theorem onTarget_snd (console : Console) (command : Command) (timeout : ℕ) :
    (onTarget console command timeout).2 =
      if inTime console command.seconds timeout = true ∧ command.statusRead = true then
        some command.status
      else none := by
  obtain ⟨now, idleAt⟩ := console
  obtain ⟨seconds, status, statusRead⟩ := command
  cases idleAt with
  | none => rfl
  | some idleAt =>
      cases seconds with
      | none => rfl
      | some seconds =>
          by_cases htime : max now idleAt + seconds ≤ now + timeout
          · cases statusRead <;> simp [onTarget, inTime, htime]
          · simp [onTarget, inTime, htime]

theorem onTarget_fst (console : Console) {command command' : Command} (timeout : ℕ)
    (h : command.seconds = command'.seconds) :
    (onTarget console command timeout).1 = (onTarget console command' timeout).1 := by
  obtain ⟨now, idleAt⟩ := console
  cases idleAt with
  | none => rfl
  | some idleAt =>
      simp only [onTarget, ← h]
      cases command.seconds with
      | none => rfl
      | some seconds =>
          by_cases hdone : max now idleAt + seconds ≤ now + timeout
          · simp only [if_pos hdone]
          · simp only [if_neg hdone]

/-! ### The test -/

/-- What one execution of the test meets: how its commands go, whether the HFP and the report get
across, and the report that the binary writes, if any. -/
structure Run where
  mkdir : Command
  /-- The HFP is fetched and copied to the target; else the test raises. -/
  hfpShipped : Bool
  binary : Command
  report : Option RemoteFile
  collectSeconds : Option ℕ
  /-- The read that brings the marker of the collection brings its status too. -/
  collectRead : Bool
  copyTime : ℕ
  /-- The report is copied back; else the test raises. -/
  copiedBack : Bool

/-- What an execution of the test leaves behind: the verdict, the results directory, and the file
that was collected. -/
structure Outcome where
  verdict : Except GateFailure Unit
  results : Results
  collected : Option RemoteFile

/-- The results directory once the binary has ended. -/
def Run.resultsAfter (run : Run) (results : Results) : Results :=
  match run.report with
  | none => results
  | some report => write results report

/-- The console once the run's command is done with, in time or not. -/
def Run.consoleAfter (run : Run) : Console :=
  let console := (onTarget ⟨0, some 0⟩ run.mkdir 15).1
  (onTarget console run.binary 900).1

/-- `cp "$(ls -1t *-report.xml | head -1)" rialto_conformance.xml`: it fails when there is nothing
to copy. -/
def Run.collect (run : Run) (results : Results) : Command :=
  ⟨run.collectSeconds, if (newestReport results).isSome then 0 else 1, run.collectRead⟩

/-- **`test_10_run_conformance`.** -/
def testRunConformance (results : Results) (run : Run) : Outcome :=
  if !run.hfpShipped then ⟨.error .hfp, results, none⟩
  else
    let after := run.resultsAfter results
    if (onTarget run.consoleAfter (run.collect after) 30).2 ≠ some 0 then
      ⟨.error .noReport, after, none⟩
    else
      match newestReport after with
      | none => ⟨.error .noReport, after, none⟩
      | some report =>
          let collected := write after ⟨"rialto_conformance.xml", run.copyTime, report.content⟩
          if !run.copiedBack then ⟨.error .copyBack, collected, some report⟩
          else ⟨adjudicate report.content, collected, some report⟩

/-! ### Whose report -/

/-- The report this run wrote is the one that was collected, and it is clean. -/
def OwnReport (run : Run) (outcome : Outcome) : Prop :=
  ∃ report, run.report = some report ∧ outcome.collected = some report ∧ Clean report.content

/-- A report a run writes: it matches the pattern and is newer than the reports already there. -/
def WritesNewer (results : Results) (run : Run) : Prop :=
  ∀ report, run.report = some report → isReport report.name = true ∧
    ∀ f ∈ results, isReport f.name = true → f.mtime < report.mtime

/-- Nothing but the report decides the verdict: the HFP is shipped, the shell gets to the
collection before its deadline and its status is read, and the report is copied back. -/
def Run.Adjudicates (run : Run) : Prop :=
  run.hfpShipped = true ∧ (inTime run.consoleAfter run.collectSeconds 30 = true ∧
    run.collectRead = true) ∧ run.copiedBack = true

/-- **What the test does** when its commands get through: it adjudicates the newest report there is
once the binary has ended. -/
theorem testRunConformance_of_adjudicates {results : Results} {run : Run} {report : RemoteFile}
    (hadj : run.Adjudicates) (hnewest : newestReport (run.resultsAfter results) = some report) :
    (testRunConformance results run).verdict = adjudicate report.content ∧
      (testRunConformance results run).collected = some report := by
  obtain ⟨hhfp, ⟨htime, hread⟩, hcopied⟩ := hadj
  simp [testRunConformance, onTarget_snd, Run.collect, hhfp, htime, hread, hcopied, hnewest]

/-- **The test passes** exactly when its commands get through and the newest report of the
directory, once the binary has ended, is clean. -/
theorem testRunConformance_passed_iff {results : Results} {run : Run} :
    (testRunConformance results run).verdict = .ok () ↔
      run.Adjudicates ∧ ∃ report, newestReport (run.resultsAfter results) = some report ∧
        Clean report.content := by
  cases hnewest : newestReport (run.resultsAfter results) with
  | none =>
      cases hhfp : run.hfpShipped <;> cases htime : inTime run.consoleAfter run.collectSeconds 30 <;>
        simp [testRunConformance, onTarget_snd, Run.collect, hnewest, hhfp, htime]
  | some report =>
      by_cases hadj : run.Adjudicates
      · rw [(testRunConformance_of_adjudicates hadj hnewest).1, adjudicate_eq_ok_iff]
        simp [hadj]
      · refine iff_of_false (fun hpass => hadj ?_) (fun h => hadj h.1)
        simp only [testRunConformance, onTarget_snd, Run.collect, hnewest] at hpass
        split_ifs at hpass with hhfp htime hcopied <;>
          simp_all [Run.Adjudicates]

/-- **When a passing test adjudicated its own run**: when the run wrote a report, or when a run
without one cannot pass, because the newest report left in the directory is not clean or because
the test fails before it is adjudicated. -/
theorem testRunConformance_ownReport_iff {results : Results} {run : Run}
    (hnewer : WritesNewer results run) :
    ((testRunConformance results run).verdict = .ok () →
        OwnReport run (testRunConformance results run)) ↔
      run.report.isSome ∨
        (∀ old, newestReport results = some old → ¬ Clean old.content) ∨ ¬ run.Adjudicates := by
  cases hreport : run.report with
  | some report =>
      obtain ⟨hname, hlt⟩ := hnewer report hreport
      have hafter : newestReport (run.resultsAfter results) = some report := by
        rw [Run.resultsAfter, hreport]
        exact newestReport_write hname hlt
      -- the report of the run is the newest one, so it is the one collected
      refine iff_of_true (fun hpass => ?_) (Or.inl rfl)
      obtain ⟨hadj, report', hnewest, hclean⟩ := testRunConformance_passed_iff.1 hpass
      rw [hafter] at hnewest
      obtain rfl := Option.some.inj hnewest
      exact ⟨report, hreport, (testRunConformance_of_adjudicates hadj hafter).2, hclean⟩
  | none =>
      have hafter : run.resultsAfter results = results := by rw [Run.resultsAfter, hreport]
      have hown : ¬ OwnReport run (testRunConformance results run) := by
        rintro ⟨report, hsome, -⟩
        rw [hreport] at hsome
        simp at hsome
      rw [testRunConformance_passed_iff, hafter]
      constructor
      · intro h
        by_cases hadj : run.Adjudicates
        · refine Or.inr (Or.inl fun old hold hclean => ?_)
          exact hown (h ⟨hadj, old, hold, hclean⟩)
        · exact Or.inr (Or.inr hadj)
      · rintro (h | h | h) ⟨hadj, old, hold, hclean⟩
        · simp at h
        · exact absurd hclean (h old hold)
        · exact absurd hadj h

/-- A report of one suite with a case, which passed or failed. -/
def singleCase (name : String) (mtime : ℕ) (failures : String) : RemoteFile where
  name := name
  mtime := mtime
  content := some (.element "testsuites" []
    [.element "testsuite" [("tests", "1"), ("failures", failures)] []])

/-- The report of a run in which the case passed. -/
def passingReport : RemoteFile := singleCase "ut-log_1-report.xml" 1 "0"

/-- A run whose binary crashes at once and writes nothing. -/
def crashedRun : Run where
  mkdir := ⟨some 0, 0, true⟩
  hfpShipped := true
  binary := ⟨some 1, 139, true⟩
  report := none
  collectSeconds := some 0
  collectRead := true
  copyTime := 4
  copiedBack := true

/-- A directory with the reports of earlier runs, of which the newer one has a failure. -/
def usedResults : Results := [passingReport, singleCase "ut-log_2-report.xml" 2 "1"]

def ownReport : RemoteFile := singleCase "ut-log_3-report.xml" 3 "0"

def cleanRun : Run := { crashedRun with binary := ⟨some 1, 0, true⟩, report := some ownReport }

/-- Where the directory holds older reports, that run passes on its own. -/
theorem testRunConformance_ownReport_used :
    (testRunConformance usedResults cleanRun).verdict = .ok () ∧
      OwnReport cleanRun (testRunConformance usedResults cleanRun) := by
  have hname : isReport ownReport.name = true := by decide +kernel
  have hold : ∀ f ∈ usedResults, isReport f.name = true → f.mtime < ownReport.mtime := by
    intro f hf _
    simp only [usedResults, List.mem_cons, List.not_mem_nil, or_false] at hf
    rcases hf with rfl | rfl <;> decide
  have hnewer : WritesNewer usedResults cleanRun := by
    rintro report hreport
    obtain rfl := Option.some.inj hreport
    exact ⟨hname, hold⟩
  have hpass : (testRunConformance usedResults cleanRun).verdict = .ok () := by
    refine testRunConformance_passed_iff.2
      ⟨⟨rfl, ⟨by decide, rfl⟩, rfl⟩, ownReport, newestReport_write hname hold, ?_⟩
    exact adjudicate_eq_ok_iff.1 (by decide +kernel)
  exact ⟨hpass, (testRunConformance_ownReport_iff hnewer).2 (Or.inl rfl) hpass⟩

/-- A crashed run passes on the report of an older one. -/
theorem testRunConformance_certifies_crash :
    ¬ ∀ (results : Results) (run : Run), WritesNewer results run →
      (testRunConformance results run).verdict = .ok () →
      OwnReport run (testRunConformance results run) := by
  intro h
  have hnewest : newestReport [passingReport] = some passingReport := by
    have hname : isReport passingReport.name = true := by decide +kernel
    have hfilter : [passingReport].filter (fun f => isReport f.name) = [passingReport] :=
      List.filter_cons_of_pos hname
    rw [newestReport, hfilter, List.mergeSort_singleton]
    rfl
  have hpass : (testRunConformance [passingReport] crashedRun).verdict = .ok () := by
    refine testRunConformance_passed_iff.2
      ⟨⟨rfl, ⟨by decide, rfl⟩, rfl⟩, passingReport, hnewest, ?_⟩
    exact adjudicate_eq_ok_iff.1 (by decide +kernel)
  obtain ⟨report, hreport, -⟩ := h [passingReport] crashedRun (by simp [WritesNewer, crashedRun])
    hpass
  simp [crashedRun] at hreport

end Gate
