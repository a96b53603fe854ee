/-
**Deploying the package.**

`test_00_deploy_package` ships the package to the target, unpacks it into the install directory and
asks whether the binary is there.  The install directory survives from one deployment to the next,
and what `mkdir` and `tar` end with is not looked at, so the binary that is there need not come from
the package.

An unpacking that succeeds writes the entries of the archive in order; of one that fails nothing is
known.

Main definitions:

* `Gate.Directory`, `Gate.Package` — what a directory and an archive hold;
* `Gate.Deployment.unpack` — `mkdir -p … && tar -xzf …`;
* `Gate.testDeployPackage` — the test;
* `Gate.Fresh` — the package was unpacked completely, and its binary is the one installed.

Main results:

* `Gate.fetch_passed_iff` — when the test passes;
* `Gate.fresh_of_installs`, `Gate.unpack_executable_of_not_installs` — whose binary stands where it
  belongs;
* `Gate.testDeployPackage_fresh_iff` — **when a passing test has installed its package**.
-/
import RialtoConformance.Lib.Override
import RialtoConformance.Gate.Conformance

set_option relaxedAutoImplicit false
set_option autoImplicit false

namespace Gate

open Override

/-! ### The install directory -/

/-- An entry of a directory, as far as it matters here. -/
structure Entry where
  content : List UInt8
  executable : Bool
  deriving DecidableEq

/-- **A directory**: its entries by their paths. -/
abbrev Directory := Std.ExtTreeMap String Entry

/-- **A package**: the entries of the archive, in order. -/
abbrev Package := List (String × Entry)

/-- `test -x`. -/
def Directory.executable (dir : Directory) (path : String) : Bool :=
  (dir[path]?).any Entry.executable

/-! ### The test -/

/-- What one execution of the test meets: whether the package is found and gets across, how the
commands end and how long they take. -/
structure Deployment where
  deployMode : String
  /-- What `_resolve_package` comes to, or `none` where it fails. -/
  package : Option Package
  /-- The package is copied to the target; else the test raises. -/
  shipped : Bool
  mkdirStatus : ℕ
  tarStatus : ℕ
  /-- What a `tar` that fails makes of the directory. -/
  spoil : Directory → Directory
  unpackSeconds : Option ℕ
  unpackRead : Bool
  checkSeconds : Option ℕ
  /-- The read that brings the marker of the check brings its status too. -/
  statusRead : Bool

/-- **`mkdir -p … && tar -xzf …`**: the directory behind it, and what the command ends with. -/
def Deployment.unpack (run : Deployment) (package : Package) (dir : Directory) : Directory × ℕ :=
  if run.mkdirStatus ≠ 0 then (dir, run.mkdirStatus)
  else if run.tarStatus ≠ 0 then (run.spoil dir, run.tarStatus)
  else (override dir package, 0)

/-- How the test fails. -/
inductive DeployFailure
  /-- `unknown conformance.deploy`. -/
  | unknownMode
  /-- `no prebuilt package`, or the package could not be fetched. -/
  | noPackage
  /-- The package could not be copied to the target. -/
  | copyTo
  /-- `conformance binary not present/executable`. -/
  | notPresent
  deriving DecidableEq

/-- `test -x …`, and whether `DEPLOY_DONE_0` is in what is read of it. -/
def Deployment.check (run : Deployment) (binary : String) (dir : Directory) (console : Console) :
    Except DeployFailure Unit :=
  let command : Command :=
    ⟨run.checkSeconds, if dir.executable binary then 0 else 1, run.statusRead⟩
  if (onTarget console command 30).2 = some 0 then .ok () else .error .notPresent

def freshConsole : Console := ⟨0, some 0⟩

/-- The console once the unpacking is done with, in time or not. -/
def Deployment.consoleAfter (run : Deployment) (status : ℕ) : Console :=
  (onTarget freshConsole ⟨run.unpackSeconds, status, run.unpackRead⟩ 60).1

/-- The steps of `fetch` mode: ship the package, unpack it and look for the binary. -/
def Deployment.fetch (run : Deployment) (binary : String) (dir : Directory) :
    Except DeployFailure Unit × Directory :=
  match run.package with
  | none => (.error .noPackage, dir)
  | some package =>
      if !run.shipped then (.error .copyTo, dir)
      else
        let unpacked := run.unpack package dir
        (run.check binary unpacked.1 (run.consoleAfter unpacked.2), unpacked.1)

/-- **`test_00_deploy_package`**: the verdict, and the install directory behind it. -/
def testDeployPackage (dir : Directory) (binary : String) (run : Deployment) :
    Except DeployFailure Unit × Directory :=
  if run.deployMode = "none" then (run.check binary dir freshConsole, dir)
  else if run.deployMode ≠ "fetch" then (.error .unknownMode, dir)
  else run.fetch binary dir

/-! ### When it passes -/

/-- The status of the check is read: its marker arrives before the deadline, and the status with
it. -/
def Deployment.ChecksInTime (run : Deployment) : Prop :=
  inTime (run.consoleAfter 0) run.checkSeconds 30 = true ∧ run.statusRead = true

/-- Nothing but the check decides the verdict: the package is found and shipped, and the status of
the check is read. -/
def Deployment.GetsThrough (run : Deployment) : Prop :=
  run.package.isSome = true ∧ run.shipped = true ∧ run.ChecksInTime

theorem check_eq_ok_iff {run : Deployment} {binary : String} {dir : Directory} {status : ℕ} :
    run.check binary dir (run.consoleAfter status) = .ok () ↔
      run.ChecksInTime ∧ dir.executable binary = true := by
  have hconsole : run.consoleAfter status = run.consoleAfter 0 := onTarget_fst _ _ rfl
  rw [Deployment.check, onTarget_snd, hconsole]
  simp only [Deployment.ChecksInTime]
  cases inTime (run.consoleAfter 0) run.checkSeconds 30 <;> cases run.statusRead <;>
    cases dir.executable binary <;> simp

theorem testDeployPackage_of_fetch (dir : Directory) (binary : String) {run : Deployment}
    (hmode : run.deployMode = "fetch") :
    testDeployPackage dir binary run = run.fetch binary dir := by
  rw [testDeployPackage, if_neg (by rw [hmode]; decide), if_neg (not_not_intro hmode)]

/-- **What `fetch` does** with a package that is found and shipped: it unpacks it, and looks for the
binary. -/
theorem fetch_of_shipped {dir : Directory} {binary : String} {run : Deployment}
    {package : Package} (hpackage : run.package = some package) (hshipped : run.shipped = true) :
    run.fetch binary dir =
      (run.check binary (run.unpack package dir).1 (run.consoleAfter (run.unpack package dir).2),
        (run.unpack package dir).1) := by
  rw [Deployment.fetch, hpackage]
  simp only [hshipped, Bool.not_true, Bool.false_eq_true, if_false]

/-- **When `fetch` passes**: it gets as far as the check, and something executable stands where the
binary belongs. -/
theorem fetch_passed_iff {dir : Directory} {binary : String} {run : Deployment} :
    (run.fetch binary dir).1 = .ok () ↔ run.GetsThrough ∧
      ∃ package, run.package = some package ∧
        (run.fetch binary dir).2 = (run.unpack package dir).1 ∧
        (run.unpack package dir).1.executable binary = true := by
  cases hpackage : run.package with
  | none => simp [Deployment.fetch, Deployment.GetsThrough, hpackage]
  | some package =>
      cases hshipped : run.shipped with
      | false => simp [Deployment.fetch, Deployment.GetsThrough, hpackage, hshipped]
      | true =>
          rw [fetch_of_shipped hpackage hshipped, check_eq_ok_iff]
          simp [Deployment.GetsThrough, hpackage, hshipped]

/-! ### Whose binary -/

/-- **A fresh installation**: `mkdir` and `tar` have succeeded, and where the binary belongs stands
the one of the package. -/
structure Fresh (run : Deployment) (binary : String) (dir : Directory) : Prop where
  mkdir : run.mkdirStatus = 0
  tar : run.tarStatus = 0
  binary_eq : ∃ package, run.package = some package ∧ dir[binary]? = lastValue binary package

/-- The package is unpacked completely, and it has the binary. -/
structure Deployment.Installs (run : Deployment) (binary : String) : Prop where
  mkdir : run.mkdirStatus = 0
  tar : run.tarStatus = 0
  has : ∀ package, run.package = some package → (lastValue binary package).isSome = true

/-- Where the package does not bring the binary: the directory as it was, or as a `tar` that failed
has left it. -/
def Deployment.leftover (run : Deployment) (dir : Directory) : Directory :=
  if run.mkdirStatus = 0 ∧ run.tarStatus ≠ 0 then run.spoil dir else dir

/-- A complete unpacking of a package with the binary is a fresh installation. -/
theorem fresh_of_installs {run : Deployment} {binary : String} {package : Package}
    {dir : Directory} (h : run.Installs binary) (hpackage : run.package = some package) :
    Fresh run binary (run.unpack package dir).1 := by
  refine ⟨h.mkdir, h.tar, package, hpackage, ?_⟩
  rw [Deployment.unpack, if_neg (not_not_intro h.mkdir), if_neg (not_not_intro h.tar),
    getElem?_override]
  exact Option.or_of_isSome (h.has package hpackage)

/-- **Without it, what the check finds is left over.** -/
theorem unpack_executable_of_not_installs {run : Deployment} {binary : String} {package : Package}
    {dir : Directory} (h : ¬ run.Installs binary) (hpackage : run.package = some package) :
    (run.unpack package dir).1.executable binary = (run.leftover dir).executable binary := by
  by_cases hmkdir : run.mkdirStatus = 0
  · by_cases htar : run.tarStatus = 0
    · -- the package has no binary
      have hnone : lastValue binary package = none := by
        by_contra hsome
        refine h ⟨hmkdir, htar, fun package' hpackage' => ?_⟩
        obtain rfl := Option.some.inj (hpackage.symm.trans hpackage')
        exact Option.isSome_iff_ne_none.2 hsome
      rw [Deployment.leftover, if_neg (fun hfails => hfails.2 htar), Deployment.unpack,
        if_neg (not_not_intro hmkdir), if_neg (not_not_intro htar), Directory.executable,
        Directory.executable, getElem?_override, hnone, Option.none_or]
    · rw [Deployment.leftover, if_pos ⟨hmkdir, htar⟩, Deployment.unpack,
        if_neg (not_not_intro hmkdir), if_pos htar]
  · rw [Deployment.leftover, if_neg (fun hfails => hmkdir hfails.1), Deployment.unpack,
      if_pos hmkdir]

/-- A fresh installation with something executable in it comes from the package. -/
theorem Fresh.installs {run : Deployment} {binary : String} {dir : Directory}
    (h : Fresh run binary dir) (hthere : dir.executable binary = true) : run.Installs binary := by
  refine ⟨h.mkdir, h.tar, fun package hpackage => ?_⟩
  obtain ⟨package', hpackage', heq⟩ := h.binary_eq
  obtain rfl := Option.some.inj (hpackage.symm.trans hpackage')
  rw [← heq]
  exact Option.isSome_of_any hthere

/-- **When a passing test has installed its package**: when the package is unpacked completely and
has the binary, or when the test cannot pass, because nothing executable is left over where the
binary belongs or because the test fails before it looks there. -/
theorem testDeployPackage_fresh_iff {dir : Directory} {binary : String} {run : Deployment}
    (hmode : run.deployMode = "fetch") :
    ((testDeployPackage dir binary run).1 = .ok () →
        Fresh run binary (testDeployPackage dir binary run).2) ↔
      run.Installs binary ∨ (run.leftover dir).executable binary = false ∨ ¬ run.GetsThrough := by
  rw [testDeployPackage_of_fetch dir binary hmode, fetch_passed_iff]
  constructor
  · intro h
    by_cases hthrough : run.GetsThrough
    · by_cases hinstalls : run.Installs binary
      · exact Or.inl hinstalls
      · refine Or.inr (Or.inl ?_)
        obtain ⟨package, hpackage⟩ := Option.isSome_iff_exists.1 hthrough.1
        have hsnd : (run.fetch binary dir).2 = (run.unpack package dir).1 :=
          congrArg Prod.snd (fetch_of_shipped hpackage hthrough.2.1)
        rw [← unpack_executable_of_not_installs hinstalls hpackage]
        by_contra hthere
        rw [Bool.not_eq_false] at hthere
        have hfresh := h ⟨hthrough, package, hpackage, hsnd, hthere⟩
        rw [hsnd] at hfresh
        exact hinstalls (hfresh.installs hthere)
    · exact Or.inr (Or.inr hthrough)
  · rintro hcases ⟨hthrough, package, hpackage, hsnd, hthere⟩
    rw [hsnd]
    by_cases hinstalls : run.Installs binary
    · exact fresh_of_installs hinstalls hpackage
    · rw [unpack_executable_of_not_installs hinstalls hpackage] at hthere
      rcases hcases with h | h | h
      · exact absurd h hinstalls
      · rw [h] at hthere
        exact absurd hthere Bool.false_ne_true
      · exact absurd hthrough h

def newBinary : Entry := ⟨[2], true⟩

def oldBinary : Entry := ⟨[1], true⟩

/-- An install directory that an earlier deployment has left. -/
def oldDirectory : Directory := (∅ : Directory).insert "rialto_conformance" oldBinary

theorem oldDirectory_executable : oldDirectory.executable "rialto_conformance" = true := by
  rw [Directory.executable, oldDirectory, Std.ExtTreeMap.getElem?_insert_self]
  rfl

/-- A deployment on which everything goes well. -/
def goodDeployment : Deployment where
  deployMode := "fetch"
  package := some [("rialto_conformance", newBinary)]
  shipped := true
  mkdirStatus := 0
  tarStatus := 0
  spoil := id
  unpackSeconds := some 1
  unpackRead := true
  checkSeconds := some 1
  statusRead := true

/-- It brings the binary of its package over an older one. -/
theorem fresh_goodDeployment :
    (testDeployPackage oldDirectory "rialto_conformance" goodDeployment).1 = .ok () ∧
      Fresh goodDeployment "rialto_conformance"
        (testDeployPackage oldDirectory "rialto_conformance" goodDeployment).2 := by
  have hinstalls : goodDeployment.Installs "rialto_conformance" := by
    refine ⟨rfl, rfl, fun package hpackage => ?_⟩
    obtain rfl := Option.some.inj hpackage
    rfl
  have hthere : Directory.executable (override oldDirectory [("rialto_conformance", newBinary)])
      "rialto_conformance" = true := by
    rw [Directory.executable, getElem?_override]
    rfl
  have hpass : (testDeployPackage oldDirectory "rialto_conformance" goodDeployment).1 = .ok () := by
    rw [testDeployPackage_of_fetch _ _ rfl]
    exact fetch_passed_iff.2 ⟨⟨rfl, rfl, by decide, rfl⟩, _, rfl, rfl, hthere⟩
  exact ⟨hpass, (testDeployPackage_fresh_iff rfl).2 (Or.inl hinstalls) hpass⟩

/-- A deployment whose archive is corrupt. -/
def corruptDeployment : Deployment := { goodDeployment with tarStatus := 2 }

/-- It passes on the binary that an earlier deployment has left. -/
theorem testDeployPackage_certifies_leftover :
    ¬ ∀ (dir : Directory) (binary : String) (run : Deployment), run.deployMode = "fetch" →
      (testDeployPackage dir binary run).1 = .ok () →
        Fresh run binary (testDeployPackage dir binary run).2 := by
  intro h
  have hpass :
      (testDeployPackage oldDirectory "rialto_conformance" corruptDeployment).1 = .ok () := by
    rw [testDeployPackage_of_fetch _ _ rfl]
    exact fetch_passed_iff.2
      ⟨⟨rfl, rfl, by decide, rfl⟩, _, rfl, rfl, oldDirectory_executable⟩
  exact absurd (h oldDirectory "rialto_conformance" corruptDeployment rfl hpass).tar (by decide)

end Gate
