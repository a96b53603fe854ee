/-
**Which cases run.**

Every case of the suite is in the binary on every target.  What the environment selects, what the
target supports and which release it runs decide case by case: a case that does not apply skips
itself and is reported as skipped, and the report of a run names every case.

How a body goes is left open.  It may depend on the target and on what the bodies before it have
left behind (an element that a process registers once, the state of the target), so that the runs of
two selections need not agree; where a result compares two runs, that they do is a hypothesis of
its own, `Gate.Steady`.

Main definitions:

* `Gate.scopeSelected`, `Gate.tierSelected` — the selection by level and by tier;
* `Gate.TestCase`, `Gate.TestCase.run` — a case with what it requires, and how it goes;
* `Gate.main` — the program: its exit status, and how the cases went where it ran them;
* `Gate.Site.Reaches`, `Gate.Steady` — the worlds a case may find, and a suite to which they make no
  difference;
* `Gate.Reported` — a report of a run;
* `Gate.Target.Above` — a newer release with more features.

Main results:

* `Gate.runTests_goes` — how the cases of a run go;
* `Gate.verdict_iff` — the verdict on the report of a run;
* `Gate.gate_splits` — **the whole of a steady suite and its parts get one verdict**;
* `Gate.gate_mono` — **a newer release or more features skip no case that ran**.
-/
import RialtoConformance.Gate.Release
import RialtoConformance.Gate.Verdict

set_option relaxedAutoImplicit false
set_option autoImplicit false

namespace Gate

/-! ### Selection -/

/-- The environment variables `RIALTO_CONFORMANCE_SCOPE` and `RIALTO_CONFORMANCE_TIER`. -/
structure Selection where
  scope : Option (List Char)
  tier : Option (List Char)
  deriving DecidableEq

/-- `Tier`. -/
inductive Tier
  | core
  | extended
  deriving DecidableEq, Repr

def fullScope : List Char := ['f', 'u', 'l', 'l']

def levels : List (List Char) := [['L', '1'], ['L', '2'], ['L', '3'], ['L', '4']]

/-- `SCOPES`, and the scopes that `main` accepts. -/
def scopes : List (List Char) := fullScope :: levels

/-- `scopeName`: the scope, which is `full` where the variable is not set, or empty. -/
def scopeName : Option (List Char) → List Char
  | some (c :: cs) => c :: cs
  | _ => fullScope

/-- `scopeSelected`, in a case of the suite `suiteName` or outside of a case. -/
def scopeSelected (scope : Option (List Char)) (suiteName : Option (List Char)) : Bool :=
  if scopeName scope = fullScope then true
  else
    match suiteName with
    | none => true
    | some name => (scopeName scope).isPrefixOf name

def coreTier : List Char := ['c', 'o', 'r', 'e']

def extendedTier : List Char := ['e', 'x', 't', 'e', 'n', 'd', 'e', 'd']

/-- `tierSelected`: anything that is neither `core` nor `extended` selects both. -/
def tierSelected (selection : Option (List Char)) (tier : Tier) : Bool :=
  if selection = some coreTier then tier = .core
  else if selection = some extendedTier then tier = .extended
  else true

/-- `scopeIsValid`. -/
def scopeIsValid (scope : Option (List Char)) : Bool := scopes.contains (scopeName scope)

/-! ### Cases -/

/-- The target of a run: the width of its `long`, the release, and the profile loaded with `-p`,
if there is one. -/
structure Target where
  abi : Abi
  release : List Char
  profile : Option (List Char → Bool)

/-- `CapabilityGate::supports`: nothing is supported without a profile. -/
def Target.supports (target : Target) (featureKey : List Char) : Bool :=
  match target.profile with
  | none => false
  | some readBool => readBool (['h', 'f', 'p', '/'] ++ featureKey)

/-- `CONFORMANCE_REQUIRE_CAP` and `CONFORMANCE_REQUIRE_SINCE`. -/
inductive Requirement
  | cap (featureKey : List Char)
  | since (sinceRelease : List Char)

/-- Whether a case goes on behind a requirement; comparing releases may not be defined. -/
def Requirement.met (target : Target) : Requirement → Option Bool
  | .cap featureKey => some (target.supports featureKey)
  | .since sinceRelease => releaseAtLeast target.abi target.release sinceRelease

section

variable {W : Type}

/-- **A case**: the suite it is in, its tier, what it requires, and its body.  How the body goes may
depend on the target and on the world it is run in, which is all that a run finds and changes (in
the process, and on the target), and the body leaves another world behind. -/
structure TestCase (W : Type) where
  suiteName : List Char
  tier : Tier
  requirements : List Requirement
  body : Target → W → CaseOutcome × W

/-- How a case goes: one of its gates skips it, or its body is run. -/
inductive Went
  | gated
  | ran (outcome : CaseOutcome)

def Went.outcome : Went → CaseOutcome
  | .gated => .skipped
  | .ran outcome => outcome

/-- The requirements of a case, one after the other: whether it goes on behind the last one. -/
def goesOn (target : Target) : List Requirement → Option Bool
  | [] => some true
  | requirement :: rest =>
      (requirement.met target).bind fun met => if met then goesOn target rest else some false

/-- **How a case goes**, and the world behind it: `CONFORMANCE_CORE_TEST` or
`CONFORMANCE_EXTENDED_TEST` comes first. -/
def TestCase.run (selection : Selection) (target : Target) (world : W) (t : TestCase W) :
    Option (Went × W) :=
  if !scopeSelected selection.scope (some t.suiteName) then some (.gated, world)
  else if !tierSelected selection.tier t.tier then some (.gated, world)
  else (goesOn target t.requirements).map fun on =>
    if on then (.ran (t.body target world).1, (t.body target world).2) else (.gated, world)

/-- `UT_run_tests`: every case of the suite, each in the world that the one before it has left. -/
def runTests (selection : Selection) (target : Target) :
    W → List (TestCase W) → Option (List Went × W)
  | world, [] => some ([], world)
  | world, t :: ts => do
      let first ← t.run selection target world
      let later ← runTests selection target first.2 ts
      some (first.1 :: later.1, later.2)

/-- **`main`**: the exit status, and how the cases went where they were run.  `probeResult` is the
answer to a registration probe, or negative where none was asked for. -/
def main (probeResult : ℤ) (selection : Selection) (target : Target) (world : W)
    (suite : List (TestCase W)) : Option (ℤ × Option (List Went)) :=
  if probeResult ≥ 0 then some (probeResult, none)
  else if !scopeIsValid selection.scope then some (2, none)
  else (runTests selection target world suite).map fun run => (0, some run.1)

def TestCase.Selected (selection : Selection) (t : TestCase W) : Prop :=
  scopeSelected selection.scope (some t.suiteName) = true ∧ tierSelected selection.tier t.tier = true

instance (selection : Selection) (t : TestCase W) : Decidable (t.Selected selection) :=
  inferInstanceAs (Decidable (_ ∧ _))

/-- A case applies on a target: all its requirements are met. -/
def TestCase.Applies (target : Target) (t : TestCase W) : Prop :=
  ∀ r ∈ t.requirements, r.met target = some true

/-- A case that is selected runs its body where its requirements are met; any other is skipped. -/
theorem run_eq (selection : Selection) (target : Target) (world : W) (t : TestCase W) :
    t.run selection target world =
      if t.Selected selection then (goesOn target t.requirements).map fun on =>
        if on then (.ran (t.body target world).1, (t.body target world).2) else (.gated, world)
      else some (.gated, world) := by
  rw [TestCase.run]
  cases hscope : scopeSelected selection.scope (some t.suiteName) with
  | false => simp [TestCase.Selected, hscope]
  | true => cases htier : tierSelected selection.tier t.tier <;>
      simp [TestCase.Selected, hscope, htier]

theorem goesOn_iff {target : Target} : ∀ {requirements : List Requirement} {on : Bool},
    goesOn target requirements = some on →
      (on = true ↔ ∀ r ∈ requirements, r.met target = some true) := by
  intro requirements
  induction requirements with
  | nil =>
      intro on h
      obtain rfl := Option.some.inj h
      simp
  | cons r rest ih =>
      intro on h
      obtain ⟨met, hmet, hrest⟩ := Option.bind_eq_some_iff.1 h
      cases met with
      | false =>
          obtain rfl := Option.some.inj hrest
          simp [hmet]
      | true => simp [hmet, ih hrest]

/-- **One case**: its body is run, and leaves the next world, exactly where the case is selected and
applies. -/
theorem run_cases {selection : Selection} {target : Target} {world world' : W} {t : TestCase W}
    {went : Went} (h : t.run selection target world = some (went, world')) :
    (¬ (t.Selected selection ∧ t.Applies target) ∧ went = .gated ∧ world' = world) ∨
      ((t.Selected selection ∧ t.Applies target) ∧ went = .ran (t.body target world).1 ∧
        world' = (t.body target world).2) := by
  rw [run_eq] at h
  by_cases hselected : t.Selected selection
  · rw [if_pos hselected] at h
    obtain ⟨on, hon, heq⟩ := Option.map_eq_some_iff.1 h
    have happlies : on = true ↔ t.Applies target := goesOn_iff hon
    cases on with
    | false =>
        obtain ⟨hwent, hworld⟩ := Prod.mk.inj heq
        exact Or.inl ⟨fun h => absurd (happlies.2 h.2) (by decide), hwent.symm, hworld.symm⟩
    | true =>
        obtain ⟨hwent, hworld⟩ := Prod.mk.inj heq
        exact Or.inr ⟨⟨hselected, happlies.1 rfl⟩, hwent.symm, hworld.symm⟩
  · rw [if_neg hselected] at h
    obtain ⟨hwent, hworld⟩ := Prod.mk.inj (Option.some.inj h)
    exact Or.inl ⟨fun h => hselected h.1, hwent.symm, hworld.symm⟩

theorem isSome_runTests {selection : Selection} {target : Target} {world : W}
    {suite : List (TestCase W)}
    (h : ∀ t ∈ suite, (goesOn target t.requirements).isSome = true) :
    (runTests selection target world suite).isSome = true := by
  induction suite generalizing world with
  | nil => rfl
  | cons t ts ih =>
      obtain ⟨on, hon⟩ := Option.isSome_iff_exists.1 (h t List.mem_cons_self)
      obtain ⟨first, hfirst⟩ : ∃ first, t.run selection target world = some first := by
        rw [run_eq, hon]
        split_ifs
        · exact ⟨_, rfl⟩
        · exact ⟨_, rfl⟩
      obtain ⟨later, hlater⟩ := Option.isSome_iff_exists.1
        (@ih first.2 fun u hu => h u (List.mem_cons_of_mem t hu))
      rw [runTests, hfirst]
      simp only [Option.bind_eq_bind, Option.bind_some, hlater, Option.isSome_some]

theorem main_eq_zero_iff {probeResult : ℤ} {selection : Selection} {target : Target} {world : W}
    {suite : List (TestCase W)} {results : List Went} (hprobe : probeResult < 0) :
    main probeResult selection target world suite = some (0, some results) ↔
      scopeIsValid selection.scope = true ∧
        ∃ world', runTests selection target world suite = some (results, world') := by
  rw [main, if_neg (by omega)]
  cases hvalid : scopeIsValid selection.scope with
  | false => simp
  | true => simp [Option.map_eq_some_iff]

/-! ### The worlds of a run -/

/-- Where a run begins: the target, and the world the first case finds. -/
structure Site (W : Type) where
  target : Target
  world : W

/-- The world behind the bodies of some cases. -/
def Site.after (site : Site W) (earlier : List (TestCase W)) : W :=
  earlier.foldl (fun world t => (t.body site.target world).2) site.world

/-- **A world that a case of the suite may find**: some of the other cases, which apply on the
target, have run before it. -/
def Site.Reaches (site : Site W) (suite : List (TestCase W)) (world : W) : Prop :=
  ∃ earlier, earlier.Sublist suite ∧ (∀ t ∈ earlier, t.Applies site.target) ∧
    site.after earlier = world

/-- **A steady suite**: how the body of a case goes, where the case applies, depends neither on the
site of the run nor on which of the other cases have run before it. -/
def Steady (suite : List (TestCase W)) (sites : Set (Site W)) : Prop :=
  ∀ t ∈ suite, ∀ site ∈ sites, ∀ site' ∈ sites, t.Applies site.target → t.Applies site'.target →
    ∀ world world', site.Reaches suite world → site'.Reaches suite world' →
      (t.body site.target world).1 = (t.body site'.target world').1

/-- How a case goes in a run: in some world that it may find, where it is selected and applies. -/
def TestCase.Goes (selection : Selection) (site : Site W) (suite : List (TestCase W))
    (t : TestCase W) (went : Went) : Prop :=
  (¬ (t.Selected selection ∧ t.Applies site.target) ∧ went = .gated) ∨
    ((t.Selected selection ∧ t.Applies site.target) ∧
      ∃ world, site.Reaches suite world ∧ went = .ran (t.body site.target world).1)

/-- **How the cases of a run go.**  The induction carries the cases whose bodies have been run. -/
theorem runTests_goes {selection : Selection} {site : Site W} {suite : List (TestCase W)}
    {results : List Went} {world : W}
    (h : runTests selection site.target site.world suite = some (results, world)) :
    List.Forall₂ (TestCase.Goes selection site suite) suite results := by
  have hrest : ∀ (ts before earlier : List (TestCase W)) (results : List Went) (world : W),
      before ++ ts = suite → earlier.Sublist before → (∀ t ∈ earlier, t.Applies site.target) →
        runTests selection site.target (site.after earlier) ts = some (results, world) →
          List.Forall₂ (TestCase.Goes selection site suite) ts results := by
    intro ts
    induction ts with
    | nil =>
        intro before earlier results world _ _ _ hrun
        obtain rfl := (Prod.mk.inj (Option.some.inj hrun)).1
        exact .nil
    | cons t ts ih =>
        intro before earlier results world hsuite hsub happlies hrun
        simp only [runTests, Option.bind_eq_bind, Option.bind_eq_some_iff, Option.some.injEq]
          at hrun
        obtain ⟨first, hfirst, later, hlater, heq⟩ := hrun
        obtain rfl := (Prod.mk.inj heq).1
        have hsuite' : (before ++ [t]) ++ ts = suite := by
          rw [List.append_assoc, List.singleton_append, hsuite]
        have hreaches : site.Reaches suite (site.after earlier) := by
          refine ⟨earlier, hsub.trans ?_, happlies, rfl⟩
          rw [← hsuite]
          exact List.sublist_append_left before (t :: ts)
        rcases run_cases (show t.run selection site.target (site.after earlier) =
          some (first.1, first.2) from hfirst) with ⟨hgated, hwent, hworld⟩ | ⟨hruns, hwent, hworld⟩
        · rw [hworld] at hlater
          exact .cons (Or.inl ⟨hgated, hwent⟩) (ih (before ++ [t]) earlier later.1 later.2 hsuite'
            (hsub.trans (List.sublist_append_left before [t])) happlies hlater)
        · -- the body of this case has been run too
          have hafter : first.2 = site.after (earlier ++ [t]) := by
            rw [hworld, Site.after, Site.after, List.foldl_append]
            rfl
          rw [hafter] at hlater
          refine .cons (Or.inr ⟨hruns, _, hreaches, hwent⟩) (ih (before ++ [t]) (earlier ++ [t])
            later.1 later.2 hsuite' (hsub.append (List.Sublist.refl [t])) ?_ hlater)
          intro u hu
          rcases List.mem_append.1 hu with hu | hu
          · exact happlies u hu
          · rw [List.mem_singleton.1 hu]
            exact hruns.2
  exact hrest suite [] [] results world rfl (List.Sublist.refl []) (by simp) h

theorem Site.reaches_world (site : Site W) (suite : List (TestCase W)) :
    site.Reaches suite site.world :=
  ⟨[], List.nil_sublist suite, by simp, rfl⟩

/-- **What a run of a steady suite reports**, skips apart. -/
theorem mem_outcomes_iff {suite : List (TestCase W)} {sites : Set (Site W)}
    (hsteady : Steady suite sites) {site site' : Site W} (hsite : site ∈ sites)
    (hsite' : site' ∈ sites) (htarget : site'.target = site.target) {selection : Selection}
    {results : List Went} {world : W}
    (h : runTests selection site.target site.world suite = some (results, world))
    {o : CaseOutcome} (ho : o ≠ .skipped) :
    o ∈ results.map Went.outcome ↔ ∃ t ∈ suite, (t.Selected selection ∧ t.Applies site.target) ∧
      (t.body site'.target site'.world).1 = o := by
  have hgoes := List.forall₂_iff_get.1 (runTests_goes h)
  have hsame : ∀ t ∈ suite, t.Applies site.target → ∀ world, site.Reaches suite world →
      (t.body site.target world).1 = (t.body site'.target site'.world).1 :=
    fun t ht happlies world hworld => hsteady t ht site hsite site' hsite' happlies
      (by rwa [htarget]) world _ hworld (site'.reaches_world suite)
  rw [List.mem_map]
  constructor
  · rintro ⟨went, hwent, rfl⟩
    obtain ⟨k, hk, rfl⟩ := List.getElem_of_mem hwent
    have hk' : k < suite.length := hgoes.1 ▸ hk
    have ht : suite[k] ∈ suite := List.getElem_mem hk'
    rcases hgoes.2 k hk' hk with ⟨-, hgated⟩ | ⟨hruns, world, hworld, hran⟩
    · exact absurd (congrArg Went.outcome hgated) ho
    · refine ⟨suite[k], ht, hruns, ?_⟩
      rw [← hsame _ ht hruns.2 world hworld]
      exact (congrArg Went.outcome hran).symm
  · rintro ⟨t, ht, hruns, rfl⟩
    obtain ⟨k, hk', rfl⟩ := List.getElem_of_mem ht
    have hk : k < results.length := hgoes.1 ▸ hk'
    refine ⟨results[k], List.getElem_mem hk, ?_⟩
    rcases hgoes.2 k hk' hk with ⟨hnot, -⟩ | ⟨-, world, hworld, hran⟩
    · exact absurd hruns hnot
    · rw [← hsame _ ht hruns.2 world hworld]
      exact congrArg Went.outcome hran

/-! ### The report of a run -/

/-- **A report of a run**: an xUnit report whose cases went as those of the run. -/
def Reported (outcomes : List CaseOutcome) (root : Xml) : Prop :=
  ∃ outcome, XUnit outcome root ∧ (root.cases.map outcome).Perm outcomes

def Spotless (outcomes : List CaseOutcome) : Prop := ∀ o ∈ outcomes, o ≠ .failed ∧ o ≠ .errored

def Ran (outcomes : List CaseOutcome) : Prop := ∃ o ∈ outcomes, o ≠ .skipped

/-- The verdict on a report finds no fault with a case. -/
def Faultless (root : Xml) : Prop :=
  adjudicate (some root) = .ok () ∨ adjudicate (some root) = .error .noCases

instance (root : Xml) : Decidable (Faultless root) := inferInstanceAs (Decidable (_ ∨ _))

/-- **The verdict on the report of a run**: no fault is found when no case failed or errored, and
the gate passes when, moreover, a case was not skipped. -/
theorem verdict_iff {outcomes : List CaseOutcome} {root : Xml} (h : Reported outcomes root) :
    (Faultless root ↔ Spotless outcomes) ∧
      (adjudicate (some root) = .ok () ↔ Spotless outcomes ∧ Ran outcomes) := by
  obtain ⟨outcome, hxunit, hperm⟩ := h
  obtain ⟨hcounts, hcovers⟩ := hxunit.suitesOf
  have hsum := caseSum_add_not (fun c => outcome c = .skipped) (suitesOf root)
  have hnone : ∀ result, caseSum (fun c => outcome c = result) (suitesOf root) = 0 ↔
      ∀ o ∈ outcomes, o ≠ result := by
    intro result
    rw [hcovers.caseSum_eq_zero_iff]
    simp only [decide_eq_false_iff_not, ← hperm.mem_iff, List.mem_map, forall_exists_index,
      and_imp, forall_apply_eq_imp_iff₂, ne_eq]
  have hran : caseSum (fun c => !decide (outcome c = .skipped)) (suitesOf root) ≠ 0 ↔
      Ran outcomes := by
    rw [ne_eq, hcovers.caseSum_eq_zero_iff]
    simp only [Ran, Bool.not_eq_false', decide_eq_true_eq, not_forall, ← hperm.mem_iff,
      List.mem_map, exists_exists_and_eq_and, exists_prop, ne_eq]
  have hspotless : Spotless outcomes ↔
      caseSum (fun c => outcome c = .failed) (suitesOf root) = 0 ∧
        caseSum (fun c => outcome c = .errored) (suitesOf root) = 0 := by
    rw [hnone, hnone]
    exact ⟨fun h => ⟨fun o ho => (h o ho).1, fun o ho => (h o ho).2⟩,
      fun h o ho => ⟨h.1 o ho, h.2 o ho⟩⟩
  rw [Faultless, hspotless, ← hran, adjudicate, Option.bind_some,
    tally_eq_caseSum (t := ⟨0, 0, 0, 0⟩) hcounts]
  dsimp only
  split_ifs with hfailed herrored hcases
  · simp only [reduceCtorEq, Except.error.injEq, or_self, false_iff]
    omega
  · simp only [reduceCtorEq, Except.error.injEq, or_self, false_iff]
    omega
  · simp only [true_or, true_iff]
    omega
  · simp only [or_true, true_iff, false_iff]
    omega

/-! ### The parts of a suite -/

/-- **Parts of a selection**: what the whole selects is what some part selects. -/
def Splits (suite : List (TestCase W)) (whole : Selection) (parts : List Selection) : Prop :=
  ∀ t ∈ suite, t.Selected whole ↔ ∃ part ∈ parts, t.Selected part

/-- The runs of several selections on a target, each in a world of its own to begin with. -/
def runSites (target : Target) (start : Selection → W) : Set (Site W) :=
  Set.range fun selection => ⟨target, start selection⟩

theorem outcomes_split {suite : List (TestCase W)} {target : Target} {start : Selection → W}
    (hsteady : Steady suite (runSites target start)) {whole : Selection} {parts : List Selection}
    (hsplit : Splits suite whole parts) {results : Selection → List Went}
    (hruns : ∀ selection ∈ whole :: parts, ∃ world,
      runTests selection target (start selection) suite = some (results selection, world)) :
    ∀ o, o ≠ .skipped → (o ∈ (results whole).map Went.outcome ↔
      ∃ part ∈ parts, o ∈ (results part).map Went.outcome) := by
  intro o ho
  -- an outcome that is no skip comes from a case that is selected, and is the same in every run
  have hmem : ∀ selection ∈ whole :: parts, o ∈ (results selection).map Went.outcome ↔
      ∃ t ∈ suite, (t.Selected selection ∧ t.Applies target) ∧
        (t.body target (start whole)).1 = o := by
    intro selection hselection
    obtain ⟨world, hrun⟩ := hruns selection hselection
    have hsite : ∀ s, (⟨target, start s⟩ : Site W) ∈ runSites target start := fun s => ⟨s, rfl⟩
    exact mem_outcomes_iff hsteady (hsite selection) (hsite whole) rfl hrun ho
  rw [hmem whole List.mem_cons_self]
  constructor
  · rintro ⟨t, ht, ⟨hselected, happlies⟩, hbody⟩
    obtain ⟨part, hpart, hselected'⟩ := (hsplit t ht).1 hselected
    exact ⟨part, hpart, (hmem part (List.mem_cons_of_mem _ hpart)).2
      ⟨t, ht, ⟨hselected', happlies⟩, hbody⟩⟩
  · rintro ⟨part, hpart, hin⟩
    obtain ⟨t, ht, ⟨hselected, happlies⟩, hbody⟩ :=
      (hmem part (List.mem_cons_of_mem _ hpart)).1 hin
    exact ⟨t, ht, ⟨(hsplit t ht).2 ⟨part, hpart, hselected⟩, happlies⟩, hbody⟩

theorem verdict_split {suite : List (TestCase W)} {target : Target} {start : Selection → W}
    (hsteady : Steady suite (runSites target start)) {whole : Selection} {parts : List Selection}
    (hsplit : Splits suite whole parts) {report : Selection → Xml}
    (hruns : ∀ selection ∈ whole :: parts, ∃ results,
      (∃ world, runTests selection target (start selection) suite = some (results, world)) ∧
        Reported (results.map Went.outcome) (report selection)) :
    adjudicate (some (report whole)) = .ok () ↔ (∀ part ∈ parts, Faultless (report part)) ∧
      ∃ part ∈ parts, adjudicate (some (report part)) = .ok () := by
  choose! results hrun hreport using hruns
  have hmem := outcomes_split hsteady hsplit hrun
  have hpart := fun part hpart => verdict_iff (hreport part (List.mem_cons_of_mem _ hpart))
  rw [(verdict_iff (hreport whole List.mem_cons_self)).2]
  constructor
  · rintro ⟨hspotless, o, ho, hran⟩
    have hall : ∀ part ∈ parts, Spotless ((results part).map Went.outcome) := by
      intro part hp o ho
      by_cases hskipped : o = .skipped
      · simp [hskipped]
      · exact hspotless o ((hmem o hskipped).2 ⟨part, hp, ho⟩)
    obtain ⟨part, hp, hin⟩ := (hmem o hran).1 ho
    exact ⟨fun part hp => (hpart part hp).1.2 (hall part hp), part, hp,
      (hpart part hp).2.2 ⟨hall part hp, o, hin, hran⟩⟩
  · rintro ⟨hfaultless, part, hp, hok⟩
    obtain ⟨-, o, ho, hran⟩ := (hpart part hp).2.1 hok
    refine ⟨fun o ho => ?_, o, (hmem o hran).2 ⟨part, hp, ho⟩, hran⟩
    by_cases hskipped : o = .skipped
    · simp [hskipped]
    · obtain ⟨other, hother, hin⟩ := (hmem o hskipped).1 ho
      exact (hpart other hother).1.1 (hfaultless other hother) o hin

/-- **A suite that is named by levels**: the name of every suite class starts with one. -/
def Levelled (suite : List (TestCase W)) : Prop :=
  ∀ t ∈ suite, ∃ level ∈ levels, level <+: t.suiteName

theorem scopeSelected_level {level name : List Char} (h : level ∈ levels) :
    scopeSelected (some level) (some name) = true ↔ level <+: name := by
  have hname : scopeName (some level) = level ∧ level ≠ fullScope := by
    simp only [levels, List.mem_cons, List.not_mem_nil, or_false] at h
    rcases h with rfl | rfl | rfl | rfl <;> exact ⟨rfl, by decide⟩
  rw [scopeSelected, hname.1, if_neg hname.2]
  exact List.isPrefixOf_iff_prefix

theorem splits_levels {suite : List (TestCase W)} (h : Levelled suite) (tier : Option (List Char)) :
    Splits suite ⟨some fullScope, tier⟩ (levels.map fun level => ⟨some level, tier⟩) := by
  intro t ht
  have hfull : scopeSelected (some fullScope) (some t.suiteName) = true := if_pos rfl
  simp only [TestCase.Selected, hfull, true_and, List.mem_map, exists_exists_and_eq_and]
  constructor
  · intro htier
    obtain ⟨level, hlevel, hstarts⟩ := h t ht
    exact ⟨level, hlevel, (scopeSelected_level hlevel).2 hstarts, htier⟩
  · rintro ⟨level, -, -, htier⟩
    exact htier

theorem splits_tiers (suite : List (TestCase W)) (scope : Option (List Char))
    {tier : Option (List Char)} (hcore : tier ≠ some coreTier)
    (hextended : tier ≠ some extendedTier) :
    Splits suite ⟨scope, tier⟩ [⟨scope, some coreTier⟩, ⟨scope, some extendedTier⟩] := by
  intro t _
  have hall : tierSelected tier t.tier = true := by
    rw [tierSelected, if_neg hcore, if_neg hextended]
  have hne : some extendedTier ≠ some coreTier := by decide
  have hboth : tierSelected (some coreTier) t.tier = decide (t.tier = .core) ∧
      tierSelected (some extendedTier) t.tier = decide (t.tier = .extended) :=
    ⟨if_pos rfl, (if_neg hne).trans (if_pos rfl)⟩
  simp only [TestCase.Selected, hall, hboth, and_true, List.mem_cons, List.not_mem_nil, or_false,
    exists_eq_or_imp, exists_eq_left, decide_eq_true_eq]
  cases t.tier <;> simp

theorem scopeIsValid_of_level {level : List Char} (h : level ∈ levels) :
    scopeIsValid (some level) = true := by
  simp only [levels, List.mem_cons, List.not_mem_nil, or_false] at h
  rcases h with rfl | rfl | rfl | rfl <;> decide

/-- **The whole suite and its parts get one verdict.**  For a suite that is named by levels and
steady, on any target, the gate passes the run of the whole suite exactly when it finds no fault
with the run of any level and passes one of them, in any tier; and it passes a run in both tiers
exactly when it finds no fault with the run of either and passes one of them, in any scope. -/
theorem gate_splits {suite : List (TestCase W)} {target : Target} {start : Selection → W}
    {report : Selection → Xml} (hlevelled : Levelled suite)
    (hsteady : Steady suite (runSites target start))
    (hruns : ∀ selection, scopeIsValid selection.scope = true → ∃ results,
      main (-1) selection target (start selection) suite = some (0, some results) ∧
        Reported (results.map Went.outcome) (report selection)) :
    (∀ tier, adjudicate (some (report ⟨some fullScope, tier⟩)) = .ok () ↔
      (∀ level ∈ levels, Faultless (report ⟨some level, tier⟩)) ∧
        ∃ level ∈ levels, adjudicate (some (report ⟨some level, tier⟩)) = .ok ()) ∧
      ∀ scope tier, scopeIsValid scope = true → tier ≠ some coreTier → tier ≠ some extendedTier →
        (adjudicate (some (report ⟨scope, tier⟩)) = .ok () ↔
          (Faultless (report ⟨scope, some coreTier⟩) ∧
            Faultless (report ⟨scope, some extendedTier⟩)) ∧
          (adjudicate (some (report ⟨scope, some coreTier⟩)) = .ok () ∨
            adjudicate (some (report ⟨scope, some extendedTier⟩)) = .ok ())) := by
  have hruns' : ∀ selection, scopeIsValid selection.scope = true → ∃ results,
      (∃ world, runTests selection target (start selection) suite = some (results, world)) ∧
        Reported (results.map Went.outcome) (report selection) := by
    intro selection hvalid
    obtain ⟨results, hmain, hreport⟩ := hruns selection hvalid
    exact ⟨results, ((main_eq_zero_iff (by decide)).1 hmain).2, hreport⟩
  refine ⟨fun tier => ?_, fun scope tier hvalid hcore hextended => ?_⟩
  · have hparts : ∀ selection ∈ (⟨some fullScope, tier⟩ : Selection) ::
        levels.map (fun level => ⟨some level, tier⟩), scopeIsValid selection.scope = true := by
      intro selection hselection
      rcases List.mem_cons.1 hselection with rfl | hselection
      · rfl
      · obtain ⟨level, hlevel, rfl⟩ := List.mem_map.1 hselection
        exact scopeIsValid_of_level hlevel
    have hverdict := verdict_split hsteady (splits_levels hlevelled tier)
      fun selection hselection => hruns' selection (hparts selection hselection)
    simpa only [List.mem_map, forall_exists_index, and_imp, forall_apply_eq_imp_iff₂,
      exists_exists_and_eq_and] using hverdict
  · have hparts : ∀ selection ∈ ([⟨scope, tier⟩, ⟨scope, some coreTier⟩,
        ⟨scope, some extendedTier⟩] : List Selection), scopeIsValid selection.scope = true := by
      intro selection hselection
      simp only [List.mem_cons, List.not_mem_nil, or_false] at hselection
      rcases hselection with rfl | rfl | rfl <;> exact hvalid
    have hverdict := verdict_split hsteady (splits_tiers suite scope hcore hextended)
      fun selection hselection => hruns' selection (hparts selection hselection)
    simpa using hverdict

def caseOf : CaseOutcome → Xml
  | .passed => passedCase
  | .failed => .element "testcase" [] [.element "failure" [] []]
  | .errored => .element "testcase" [] [.element "error" [] []]
  | .skipped => skippedCase

def suiteOf (o : CaseOutcome) : Xml :=
  let count : CaseOutcome → String := fun result => if o = result then "1" else "0"
  .element "testsuite" [("tests", "1"), ("failures", count .failed), ("errors", count .errored),
    ("skipped", count .skipped)] [caseOf o]

/-- A report with one suite for each case. -/
def reportOf (outcomes : List CaseOutcome) : Xml :=
  .element "testsuites" [] (outcomes.map suiteOf)

theorem counts_suiteOf : ∀ o : CaseOutcome,
    Counts outcomeOf (suiteOf o) ∧ outcomeOf (caseOf o) = o := by
  intro o
  cases o with
  | passed => exact ⟨by constructor <;> decide +kernel, by simp [outcomeOf, caseOf, passedCase]⟩
  | failed => exact ⟨by constructor <;> decide +kernel, by simp [outcomeOf, caseOf, Xml.tag]⟩
  | errored => exact ⟨by constructor <;> decide +kernel, by simp [outcomeOf, caseOf, Xml.tag]⟩
  | skipped =>
      exact ⟨by constructor <;> decide +kernel, by simp [outcomeOf, caseOf, skippedCase, Xml.tag]⟩

theorem reportOf_parts : ∀ outcomes : List CaseOutcome,
    (reportOf outcomes).suites = outcomes.map suiteOf ∧
      (reportOf outcomes).cases = outcomes.map caseOf := by
  intro outcomes
  have hparts : ∀ outcomes : List CaseOutcome,
      (descendantsOf (outcomes.map suiteOf)).filter (fun x => x.tag = "testsuite") =
          outcomes.map suiteOf ∧
        (descendantsOf (outcomes.map suiteOf)).filter (fun x => x.tag = "testcase") =
          outcomes.map caseOf := by
    intro outcomes
    induction outcomes with
    | nil => exact ⟨rfl, rfl⟩
    | cons o outcomes ih =>
        obtain ⟨hsuites, hcases⟩ := ih
        cases o <;>
          simpa [descendantsOf, suiteOf, caseOf, passedCase, skippedCase, Xml.descendants, Xml.tag]
            using And.intro hsuites hcases
  rw [Xml.suites, List.filter_cons_of_neg (by simp [reportOf, Xml.tag]), Xml.cases, reportOf,
    Xml.descendants]
  exact hparts outcomes

theorem reported_reportOf (outcomes : List CaseOutcome) : Reported outcomes (reportOf outcomes) := by
  obtain ⟨hsuites, hcases⟩ := reportOf_parts outcomes
  refine ⟨outcomeOf, ⟨Or.inr rfl, ?_, ?_⟩, ?_⟩
  · intro suite hsuite
    rw [hsuites] at hsuite
    obtain ⟨o, -, rfl⟩ := List.mem_map.1 hsuite
    exact (counts_suiteOf o).1
  · intro c hc
    rw [hcases] at hc
    obtain ⟨o, ho, rfl⟩ := List.mem_map.1 hc
    refine ⟨suiteOf o, by rw [hsuites]; exact List.mem_map_of_mem ho, ?_⟩
    cases o <;> simp [Xml.cases, suiteOf, caseOf, passedCase, skippedCase, Xml.descendants,
      descendantsOf, Xml.tag]
  · rw [hcases, List.map_map]
    have hsame : outcomeOf ∘ caseOf = id := funext fun o => (counts_suiteOf o).2
    rw [hsame, List.map_id]

/-- Three cases of three levels, which count the bodies that are run.  The second one needs a
feature and asks for it; the last one fails. -/
def mixedSuite : List (TestCase ℕ) :=
  [⟨['L', '1', 'A'], .core, [], fun _ n => (.passed, n + 1)⟩,
    ⟨['L', '2', 'B'], .core, [.cap ['b']],
      fun target n => (if target.supports ['b'] then .passed else .failed, n + 1)⟩,
    ⟨['L', '4', 'C'], .extended, [.since ['v', '0', '.', '2', '3']], fun _ n => (.failed, n + 1)⟩]

/-- It is steady everywhere: where the second case applies, the feature is there. -/
theorem steady_mixedSuite (sites : Set (Site ℕ)) : Steady mixedSuite sites := by
  intro t ht site _ site' _ happlies happlies' world world' _ _
  simp only [mixedSuite, List.mem_cons, List.not_mem_nil, or_false] at ht
  rcases ht with rfl | rfl | rfl
  · rfl
  · have h : (Requirement.cap ['b']).met site.target = some true := happlies _ (by simp)
    have h' : (Requirement.cap ['b']).met site'.target = some true := happlies' _ (by simp)
    simp only [Option.some.inj h, Option.some.inj h']
  · rfl

/-- A target without a profile, and one with every feature. -/
def bareTarget : Target := ⟨⟨2147483647, le_rfl⟩, kTargetRialtoRelease, none⟩

def richTarget : Target := { bareTarget with profile := some fun _ => true }

/-- The report of a run of the suite on the second one. -/
def mixedReport (selection : Selection) : Xml :=
  reportOf (((runTests selection richTarget 0 mixedSuite).map Prod.fst).getD [] |>.map Went.outcome)

theorem reported_mixedReport {selection : Selection} (hvalid : scopeIsValid selection.scope = true) :
    ∃ results, main (-1) selection richTarget 0 mixedSuite = some (0, some results) ∧
      Reported (results.map Went.outcome) (mixedReport selection) := by
  have hgoesOn : ∀ t ∈ mixedSuite, (goesOn richTarget t.requirements).isSome = true := by
    intro t ht
    simp only [mixedSuite, List.mem_cons, List.not_mem_nil, or_false] at ht
    rcases ht with rfl | rfl | rfl <;> decide +kernel
  have hsome : (runTests selection richTarget 0 mixedSuite).isSome = true :=
    isSome_runTests hgoesOn
  obtain ⟨run, hrun⟩ := Option.isSome_iff_exists.1 hsome
  refine ⟨run.1, (main_eq_zero_iff (by decide)).2 ⟨hvalid, run.2, hrun⟩, ?_⟩
  rw [mixedReport, hrun]
  exact reported_reportOf _

/-- In both tiers the gate passes the first level of that suite and fails the last one, and so it
fails the whole; in the first tier it finds no fault with any level. -/
theorem gate_splits_mixedSuite :
    adjudicate (some (mixedReport ⟨some ['L', '1'], none⟩)) = .ok () ∧
      ¬ Faultless (mixedReport ⟨some ['L', '4'], none⟩) ∧
      adjudicate (some (mixedReport ⟨some fullScope, none⟩)) ≠ .ok () ∧
      adjudicate (some (mixedReport ⟨some fullScope, some coreTier⟩)) = .ok () := by
  have hlevelled : Levelled mixedSuite := by simp [Levelled, mixedSuite, levels]
  have hsplits := (gate_splits hlevelled (steady_mixedSuite _)
    fun _ hvalid => reported_mixedReport hvalid).1
  have hlast : ¬ Faultless (mixedReport ⟨some ['L', '4'], none⟩) := by decide +kernel
  refine ⟨by decide +kernel, hlast, fun hwhole => ?_, (hsplits _).2 ⟨?_, ['L', '1'], ?_, ?_⟩⟩
  · exact hlast (((hsplits none).1 hwhole).1 _ (by simp [levels]))
  · decide +kernel
  · decide
  · decide +kernel

/-! ### Newer releases and more features -/

theorem length_parse {abi : Abi} {s : List Char} {out : List Int32}
    (h : parse abi s = some out) : out.length = 3 := by
  have hloop : ∀ (cs : List Char) (n idx : ℕ) (out out' : List Int32),
      parseLoop abi cs n idx out = some out' → out'.length = out.length := by
    intro cs
    induction cs with
    | nil =>
        intro n idx out out' h
        obtain rfl := Option.some.inj h
        split_ifs
        · exact List.length_set
        · rfl
    | cons c cs ih =>
        intro n idx out out' h
        rw [parseLoop] at h
        dsimp only at h
        split_ifs at h
        · exact (ih _ _ _ _ h).trans List.length_set
        · exact ih _ _ _ _ h
        · exact ih _ _ _ _ h
        · rw [Option.some.inj h]
  exact hloop _ _ _ _ _ h

/-- **The order of what is read is transitive.** -/
theorem compareLoop_trans : ∀ {a b c : List Int32}, a.length = b.length → b.length = c.length →
    compareLoop a b = true → compareLoop b c = true → compareLoop a c = true := by
  intro a
  induction a with
  | nil => intro b c _ _ _ _; rfl
  | cons x a ih =>
      intro b c hab hbc h₁ h₂
      cases b with
      | nil => simp at hab
      | cons y b =>
          cases c with
          | nil => rfl
          | cons z c =>
              simp only [List.length_cons, Nat.add_right_cancel_iff] at hab hbc
              rw [compareLoop] at h₁ h₂ ⊢
              by_cases hxy : x = y
              · subst hxy
                rw [if_neg (by simp)] at h₁
                by_cases hxz : x = z
                · subst hxz
                  rw [if_neg (by simp)] at h₂ ⊢
                  exact ih hab hbc h₁ h₂
                · rw [if_pos hxz] at h₂ ⊢
                  exact h₂
              · rw [if_pos hxy, decide_eq_true_eq] at h₁
                by_cases hyz : y = z
                · subst hyz
                  rw [if_pos hxy]
                  exact decide_eq_true h₁
                · rw [if_pos hyz, decide_eq_true_eq] at h₂
                  have hxz : z < x := Int32.lt_trans h₂ h₁
                  rw [if_pos (Int32.ne_of_lt hxz).symm]
                  exact decide_eq_true hxz

/-- **Releases that can be read are ordered**, whatever their text. -/
theorem releaseAtLeast_trans {abi : Abi} {a b c : List Char}
    (h₁ : releaseAtLeast abi a b = some true) (h₂ : releaseAtLeast abi b c = some true) :
    releaseAtLeast abi a c = some true := by
  simp only [releaseAtLeast, Option.bind_eq_bind, Option.bind_eq_some_iff, Option.some.injEq]
    at h₁ h₂ ⊢
  obtain ⟨x, hx, y, hy, hxy⟩ := h₁
  obtain ⟨y', hy', z, hz, hyz⟩ := h₂
  obtain rfl := Option.some.inj (hy.symm.trans hy')
  exact ⟨x, hx, z, hz, compareLoop_trans ((length_parse hx).trans (length_parse hy).symm)
    ((length_parse hy).trans (length_parse hz).symm) hxy hyz⟩

/-- **A target with a release that is no older, and with features of its own besides those of the
other.** -/
structure Target.Above (target' target : Target) : Prop where
  abi : target'.abi = target.abi
  release : releaseAtLeast target.abi target'.release target.release = some true
  features : ∀ featureKey, target.supports featureKey = true → target'.supports featureKey = true

theorem met_above {target target' : Target} (h : target'.Above target) {r : Requirement}
    (hmet : r.met target = some true) : r.met target' = some true := by
  cases r with
  | cap featureKey => exact congrArg some (h.features featureKey (Option.some.inj hmet))
  | since sinceRelease =>
      rw [Requirement.met, h.abi]
      exact releaseAtLeast_trans h.release hmet

/-- **How the cases go above.**  A body that is run below is run above, and where the suite is
steady it goes the same. -/
theorem results_above {suite : List (TestCase W)} {selection : Selection} {site site' : Site W}
    (habove : site'.target.Above site.target) {results results' : List Went} {world world' : W}
    (hrun : runTests selection site.target site.world suite = some (results, world))
    (hrun' : runTests selection site'.target site'.world suite = some (results', world')) :
    List.Forall₂ (fun went went' => went ≠ .gated → went' ≠ .gated ∧
      (Steady suite {site, site'} → went' = went)) results results' := by
  have hgoes := List.forall₂_iff_get.1 (runTests_goes hrun)
  have hgoes' := List.forall₂_iff_get.1 (runTests_goes hrun')
  refine List.forall₂_iff_get.2 ⟨hgoes.1.symm.trans hgoes'.1, fun k hk hk' hran => ?_⟩
  have hsuite : k < suite.length := hgoes.1 ▸ hk
  rcases hgoes.2 k hsuite hk with ⟨-, hgated⟩ | ⟨⟨hselected, happlies⟩, found, hfound, hwent⟩
  · exact absurd hgated hran
  · have happlies' : (suite.get ⟨k, hsuite⟩).Applies site'.target :=
      fun r hr => met_above habove (happlies r hr)
    rcases hgoes'.2 k hsuite hk' with ⟨hnot, -⟩ | ⟨-, found', hfound', hwent'⟩
    · exact absurd ⟨hselected, happlies'⟩ hnot
    · rw [hwent, hwent']
      refine ⟨by simp, fun hsteady => congrArg Went.ran ?_⟩
      exact (hsteady _ (List.get_mem suite ⟨k, hsuite⟩) site (Or.inl rfl) site' (Or.inr rfl)
        happlies happlies' found found' hfound hfound').symm

/-- **A newer release or more features skip no case that ran.**  Over the whole suite, in any
selection, a case whose body is run on a target has its body run above; and where the suite is
steady it goes as it went, so that only skipped cases may go another way, and a target with which
the gate finds no fault above gave it no reason for one. -/
theorem gate_mono {suite : List (TestCase W)} {selection : Selection} {site site' : Site W}
    (habove : site'.target.Above site.target) {results results' : List Went}
    (hrun : main (-1) selection site.target site.world suite = some (0, some results))
    (hrun' : main (-1) selection site'.target site'.world suite = some (0, some results'))
    {root root' : Xml} (hreport : Reported (results.map Went.outcome) root)
    (hreport' : Reported (results'.map Went.outcome) root') :
    List.Forall₂ (fun went went' => went ≠ .gated → went' ≠ .gated) results results' ∧
      (Steady suite {site, site'} →
        List.Forall₂ (fun went went' => went ≠ .gated → went' = went) results results' ∧
          (Faultless root' → Faultless root) ∧
            (adjudicate (some root) = .ok () → Faultless root' →
              adjudicate (some root') = .ok ())) := by
  obtain ⟨-, world, hrun⟩ := (main_eq_zero_iff (by decide)).1 hrun
  obtain ⟨-, world', hrun'⟩ := (main_eq_zero_iff (by decide)).1 hrun'
  have habove' := results_above habove hrun hrun'
  refine ⟨habove'.imp fun _ _ h hran => (h hran).1, fun hsteady => ?_⟩
  have hpoint : List.Forall₂ (fun went went' => went ≠ .gated → went' = went) results results' :=
    habove'.imp fun _ _ h hran => (h hran).2 hsteady
  -- what ran before is still there
  have hmem : ∀ o, o ≠ .skipped → o ∈ results.map Went.outcome →
      o ∈ results'.map Went.outcome := by
    intro o ho hin
    obtain ⟨went, hwent, rfl⟩ := List.mem_map.1 hin
    obtain ⟨k, hk, rfl⟩ := List.getElem_of_mem hwent
    obtain ⟨hlength, hget⟩ := List.forall₂_iff_get.1 hpoint
    have hk' : k < results'.length := hlength ▸ hk
    have hran : results[k] ≠ .gated := fun hgated => ho (congrArg Went.outcome hgated)
    exact List.mem_map.2
      ⟨results'[k], List.getElem_mem hk', congrArg Went.outcome (hget k hk hk' hran)⟩
  refine ⟨hpoint, ?_, ?_⟩
  · rw [(verdict_iff hreport).1, (verdict_iff hreport').1]
    intro h o ho
    by_cases hskipped : o = .skipped
    · simp [hskipped]
    · exact h o (hmem o hskipped ho)
  · rw [(verdict_iff hreport).2, (verdict_iff hreport').1, (verdict_iff hreport').2]
    rintro ⟨-, o, ho, hran⟩ hspotless
    exact ⟨hspotless, o, hmem o hran ho, hran⟩

/-- The world that an earlier run has left on the first target, and a new one on the second. -/
def bareSite : Site ℕ := ⟨bareTarget, 7⟩

def richSite : Site ℕ := ⟨richTarget, 0⟩

/-- In both tiers what fails below fails above; in the first one the second case is run above and
passes, and so does the gate. -/
theorem gate_mono_mixedSuite :
    ¬ Faultless (reportOf [.passed, .passed, .failed]) ∧
      adjudicate (some (reportOf [.passed, .passed, .skipped])) = .ok () := by
  have habove : richSite.target.Above bareSite.target :=
    ⟨rfl, by decide +kernel, fun _ h => absurd h (by simp [Target.supports, bareSite, bareTarget])⟩
  have hreport : ∀ results : List Went, Reported (results.map Went.outcome)
      (reportOf (results.map Went.outcome)) := fun results => reported_reportOf _
  have hboth : main (-1) ⟨none, none⟩ bareSite.target bareSite.world mixedSuite =
      some (0, some [.ran .passed, .gated, .ran .failed]) := rfl
  have hboth' : main (-1) ⟨none, none⟩ richSite.target richSite.world mixedSuite =
      some (0, some [.ran .passed, .ran .passed, .ran .failed]) := rfl
  have hcore : main (-1) ⟨none, some coreTier⟩ bareSite.target bareSite.world mixedSuite =
      some (0, some [.ran .passed, .gated, .gated]) := rfl
  have hcore' : main (-1) ⟨none, some coreTier⟩ richSite.target richSite.world mixedSuite =
      some (0, some [.ran .passed, .ran .passed, .gated]) := rfl
  have hmono := (gate_mono habove hboth hboth' (hreport _) (hreport _)).2 (steady_mixedSuite _)
  have hmono' := (gate_mono habove hcore hcore' (hreport _) (hreport _)).2 (steady_mixedSuite _)
  refine ⟨fun hfaultless => ?_, hmono'.2.2 (by decide +kernel) (by decide +kernel)⟩
  have hbelow : ¬ Faultless (reportOf [.passed, .skipped, .failed]) := by decide +kernel
  exact hbelow (hmono.2.1 hfaultless)

end

end Gate
