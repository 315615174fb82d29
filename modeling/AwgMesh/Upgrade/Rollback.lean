import AwgMesh.Clock
import AwgMesh.Lib.Machine

/-!
# The upgrade of one node

`UpgradeNode` of `pkg/upgrade/driver.go` and `rollbackNode` of `pkg/upgrade/rollback.go`, as far as
they act on the two compose files of a node: the live one, and the snapshot that is taken of it
before a new one is rendered.
-/

namespace AwgMesh.Upgrade

structure Files where
  live : Option Bytes := none
  backup : Option Bytes := none

inductive StepStatus where
  | running
  | done
  | failed
  | rolledBack
  deriving DecidableEq

structure WriteFault where
  err : String
  left : Option (Option Bytes) := none

def WriteFault.leaves (fault : WriteFault) (file : Option Bytes) : Option Bytes :=
  fault.left.getD file

structure Attempt where
  liveUnreadable : Bool := false
  snapshotFault : Option WriteFault := none
  /-- `RenderCompose`, if it is configured. -/
  render : Option (Except WriteFault Bytes)
  deploy : Option String := none
  waitReady : Option String := none
  init : Option String := none
  verify : Option String := none
  backupUnreadable : Option String := none
  restoreFault : Option WriteFault := none
  redeploy : Option String := none
  recover : Option String := none
  reconcile : Option String := none

structure Node where
  name : String
  livePath : String
  backupPath : String

/-! ## Prepare -/

/-- The snapshot of `phasePrepare`. -/
def snapshot (node : Node) (a : Attempt) (f : Files) : Files × Option String :=
  match f.live with
  | none => (f, none)
  | some existing =>
    if a.liveUnreadable then (f, none)
    else match a.snapshotFault with
      | some fault =>
        ({ f with backup := fault.leaves f.backup },
          some ("snapshot current compose to " ++ node.backupPath ++ ": " ++ fault.err))
      | none => ({ f with backup := some existing }, none)

def renderCompose (a : Attempt) (f : Files) : Files × Option String :=
  match a.render with
  | none => (f, some "RenderCompose is not configured")
  | some (.error fault) => ({ f with live := fault.leaves f.live }, some fault.err)
  | some (.ok compose) => ({ f with live := some compose }, none)

def phasePrepare (node : Node) (a : Attempt) (f : Files) : Files × Option String :=
  match snapshot node a f with
  | (f, some err) => (f, some err)
  | (f, none) => renderCompose a f

/-! ## Roll-back -/

/-- The first step of `rollbackNode`. -/
def restore (node : Node) (a : Attempt) (f : Files) : Files × Option String :=
  match f.backup with
  | none => (f, none)
  | some backup =>
    match a.backupUnreadable with
    | some err =>
      (f, some ("rollback " ++ node.name ++ ": read backup compose " ++ node.backupPath ++ ": " ++
        err))
    | none =>
      match a.restoreFault with
      | some fault =>
        ({ f with live := fault.leaves f.live },
          some ("rollback " ++ node.name ++ ": restore compose to " ++ node.livePath ++ ": " ++
            fault.err))
      | none => ({ f with live := some backup }, none)

def rollbackNode (node : Node) (a : Attempt) (f : Files) : Files × Option String :=
  match restore node a f with
  | (f, some err) => (f, some err)
  | (f, none) =>
    match a.redeploy with
    | some err => (f, some ("rollback " ++ node.name ++ ": SSH redeploy: " ++ err))
    | none =>
      match a.recover with
      | some err => (f, some ("rollback " ++ node.name ++ ": node did not recover: " ++ err))
      | none => (f, a.reconcile.map fun err =>
        "rollback " ++ node.name ++ ": reconcile: " ++ err)

/-! ## The pipeline -/

structure LogEntry where
  phase : String
  status : String
  reason : String := ""

def phaseLog (phase : String) (err : Option String) : List LogEntry :=
  [ { phase := phase, status := "running" },
    match err with
    | some err => { phase := phase, status := "failed", reason := err }
    | none => { phase := phase, status := "ok" } ]

inductive UpgradeError where
  | phaseFailed (phase err : String)
  | rollbackFailed (verifyErr rollbackErr : String)
  | rolledBack (verifyErr : String)

structure Outcome where
  files : Files
  status : StepStatus
  log : List LogEntry
  err : Option UpgradeError

def runPhases : List (String × Option String) → List LogEntry × Option UpgradeError
  | [] => ([], none)
  | (phase, some err) :: _ => (phaseLog phase (some err), some (.phaseFailed phase err))
  | (phase, none) :: rest =>
    let (log, err) := runPhases rest
    (phaseLog phase none ++ log, err)

def verifyOrRollback (node : Node) (a : Attempt) (f : Files) : Outcome :=
  match a.verify with
  | none => { files := f, status := .done, log := phaseLog "verify" none, err := none }
  | some verifyErr =>
    match rollbackNode node a f with
    | (f, some err) =>
      { files := f
        status := .failed
        log := phaseLog "verify" (some verifyErr) ++ phaseLog "rollback" (some err)
        err := some (.rollbackFailed verifyErr err) }
    | (f, none) =>
      { files := f
        status := .rolledBack
        log := phaseLog "verify" (some verifyErr) ++ phaseLog "rollback" none
        err := some (.rolledBack verifyErr) }

def upgradeNode (node : Node) (a : Attempt) (f : Files) : Outcome :=
  match phasePrepare node a f with
  | (f, some err) =>
    { files := f, status := .failed, log := phaseLog "prepare" (some err)
      err := some (.phaseFailed "prepare" err) }
  | (f, none) =>
    match runPhases [("deploy", a.deploy), ("wait_ready", a.waitReady), ("init", a.init)] with
    | (log, some err) =>
      { files := f, status := .failed, log := phaseLog "prepare" none ++ log, err := some err }
    | (log, none) =>
      let out := verifyOrRollback node a f
      { out with log := phaseLog "prepare" none ++ log ++ out.log }

/-! ## What a roll-back restores -/

open Lib Attempt

structure History where
  files : Files
  since : Option (Option Bytes) := none

namespace History

def baseline (h : History) : Option Bytes := h.since.getD h.files.live

def attempt (node : Node) (h : History) (a : Attempt) : History :=
  let out := upgradeNode node a h.files
  { files := out.files
    since := if out.status = .done ∨ out.status = .rolledBack then none else some h.baseline }

end History

def upgrades (node : Node) (files : Files) : Machine History Attempt where
  init := { files := files }
  step h a := some (h.attempt node a)

section

variable {node : Node} {a : Attempt} {f : Files} {h : History}

/-! ## One attempt -/

def Attempt.SnapshotFails (a : Attempt) (f : Files) : Prop :=
  a.liveUnreadable = false ∧ f.live.isSome ∧ a.snapshotFault.isSome

/-- The backup behind `snapshot`. -/
def Attempt.kept (a : Attempt) (f : Files) : Option Bytes :=
  if a.liveUnreadable = false ∧ f.live.isSome then f.live else f.backup

theorem snapshot_spec (node : Node) (a : Attempt) (f : Files) :
    (snapshot node a f).1.live = f.live ∧
      ((snapshot node a f).2 = none ↔ ¬ a.SnapshotFails f) ∧
      ((snapshot node a f).2 = none → (snapshot node a f).1.backup = a.kept f) := by
  unfold snapshot kept SnapshotFails
  obtain ⟨live, backup⟩ := f
  cases live <;> cases a.liveUnreadable <;> cases a.snapshotFault <;> simp

/-- A phase before `verify` fails. -/
def Attempt.Undeployed (a : Attempt) : Prop :=
  a.deploy.isSome ∨ a.waitReady.isSome ∨ a.init.isSome

theorem runPhases_eq_none_iff (a : Attempt) :
    (runPhases [("deploy", a.deploy), ("wait_ready", a.waitReady), ("init", a.init)]).2 = none ↔
      ¬ a.Undeployed := by
  unfold Undeployed
  cases a.deploy <;> cases a.waitReady <;> cases a.init <;> simp [runPhases]

def Attempt.RestoreFails (a : Attempt) (backup : Option Bytes) : Prop :=
  backup.isSome ∧ (a.backupUnreadable.isSome ∨ a.restoreFault.isSome)

/-- The live compose behind `restore`. -/
def Attempt.restores (a : Attempt) (backup live : Option Bytes) : Option Bytes :=
  match backup, a.backupUnreadable, a.restoreFault with
  | some backup, none, none => some backup
  | some _, none, some fault => fault.leaves live
  | _, _, _ => live

theorem restore_spec (node : Node) (a : Attempt) (f : Files) :
    (restore node a f).1.live = a.restores f.backup f.live ∧
      ((restore node a f).2 = none ↔ ¬ a.RestoreFails f.backup) := by
  unfold restore restores RestoreFails
  obtain ⟨live, backup⟩ := f
  cases backup <;> cases a.backupUnreadable <;> cases a.restoreFault <;> simp

def Attempt.RollbackFails (a : Attempt) (backup : Option Bytes) : Prop :=
  a.RestoreFails backup ∨ a.redeploy.isSome ∨ a.recover.isSome ∨ a.reconcile.isSome

theorem rollbackNode_spec (node : Node) (a : Attempt) (f : Files) :
    (rollbackNode node a f).1.live = a.restores f.backup f.live ∧
      ((rollbackNode node a f).2 = none ↔ ¬ a.RollbackFails f.backup) := by
  obtain ⟨hlive, hok⟩ := restore_spec node a f
  unfold rollbackNode RollbackFails
  rcases hrestore : restore node a f with ⟨g, _ | err⟩
  · rw [hrestore] at hlive hok
    rw [← hlive]
    have hrestored := hok.mp rfl
    cases a.redeploy <;> cases a.recover <;> cases a.reconcile <;> simp [hrestored]
  · rw [hrestore] at hlive hok
    have hfails : a.RestoreFails f.backup := by simpa using hok
    exact ⟨hlive, by simp [hfails]⟩

theorem restores_of_ok {backup live : Option Bytes} (h : ¬ a.RollbackFails backup) :
    a.restores backup live = if backup.isSome then backup else live := by
  cases backup with
  | none => rfl
  | some backup =>
    have hok : a.backupUnreadable = none ∧ a.restoreFault = none := by
      simpa [RestoreFails] using mt Or.inl h
    simp [restores, hok]

/-- What an attempt comes to. -/
inductive Attempt.Ends (a : Attempt) (f : Files) : StepStatus → Option Bytes → Prop
  | unsaved : a.SnapshotFails f → a.Ends f .failed f.live
  | unconfigured : a.render = none → a.Ends f .failed f.live
  | unrendered {fault : WriteFault} : ¬ a.SnapshotFails f → a.render = some (.error fault) →
      a.Ends f .failed (fault.leaves f.live)
  | undeployed {compose : Bytes} : ¬ a.SnapshotFails f → a.render = some (.ok compose) →
      a.Undeployed → a.Ends f .failed (some compose)
  | done {compose : Bytes} : a.render = some (.ok compose) → a.Ends f .done (some compose)
  | lost {compose : Bytes} : ¬ a.SnapshotFails f → a.render = some (.ok compose) →
      ¬ a.Undeployed → a.verify.isSome → a.RollbackFails (a.kept f) →
      a.Ends f .failed (a.restores (a.kept f) (some compose))
  | rolledBack {compose : Bytes} : a.render = some (.ok compose) → ¬ a.RollbackFails (a.kept f) →
      a.Ends f .rolledBack (a.restores (a.kept f) (some compose))

theorem upgradeNode_ends (node : Node) (a : Attempt) (f : Files) :
    a.Ends f (upgradeNode node a f).status (upgradeNode node a f).files.live := by
  obtain ⟨hlive, hok, hbackup⟩ := snapshot_spec node a f
  unfold upgradeNode phasePrepare
  rcases hsnapshot : snapshot node a f with ⟨⟨live, backup⟩, _ | err⟩
  · rw [hsnapshot] at hlive hok hbackup
    have hsaved := hok.mp rfl
    obtain rfl : live = f.live := hlive
    obtain rfl : backup = a.kept f := hbackup rfl
    unfold renderCompose
    rcases hrender : a.render with _ | fault | compose
    · exact .unconfigured hrender
    · exact .unrendered hsaved hrender
    have hphases := runPhases_eq_none_iff a
    dsimp only
    split
    · next hruns =>
        rw [hruns] at hphases
        exact .undeployed hsaved hrender (by simpa using hphases)
    next hruns =>
    rw [hruns] at hphases
    have hdeployed := hphases.mp rfl
    obtain ⟨hlive, hrollback⟩ := rollbackNode_spec node a ⟨some compose, a.kept f⟩
    unfold verifyOrRollback
    dsimp only
    split
    · exact .done hrender
    next hverify =>
    split
    · next hfailed =>
        rw [hfailed] at hlive hrollback
        exact hlive ▸ .lost hsaved hrender hdeployed (hverify ▸ rfl) (by simpa using hrollback)
    · next hrolled =>
        rw [hrolled] at hlive hrollback
        exact hlive ▸ .rolledBack hrender (hrollback.mp rfl)
  · rw [hsnapshot] at hlive hok
    exact hlive ▸ .unsaved (by simpa using hok)

theorem upgradeNode_rolledBack (hread : a.liveUnreadable = false)
    (h : (upgradeNode node a f).status = .rolledBack) :
    ∃ compose, a.render = some (.ok compose) ∧ (upgradeNode node a f).files.live =
        if f.live.isSome then f.live else if f.backup.isSome then f.backup else some compose := by
  have hends := upgradeNode_ends node a f
  rw [h] at hends
  generalize (upgradeNode node a f).files.live = live at hends
  cases hends with
  | rolledBack hrender hrolled =>
    refine ⟨_, hrender, ?_⟩
    rw [restores_of_ok hrolled, kept, hread]
    cases f.live <;> rfl

/-! ## Attempt after attempt -/

/-- The steps of the attempt that fail leave the live compose as it was. -/
def SparesLive (h : History) (a : Attempt) : Prop :=
  a.SnapshotFails h.files ∨
    (∀ fault, a.render = some (.error fault) → fault.leaves h.files.live = h.files.live) ∧
    ∀ compose, a.render = some (.ok compose) →
      (a.Undeployed → some compose = h.files.live) ∧
      (¬ a.Undeployed → a.verify.isSome → a.RollbackFails (a.kept h.files) →
        a.restores (a.kept h.files) (some compose) = h.files.live)

theorem baseline_attempt (hbase : h.baseline = h.files.live) (hspares : SparesLive h a) :
    (h.attempt node a).baseline = (h.attempt node a).files.live := by
  have hends := upgradeNode_ends node a h.files
  unfold History.attempt
  dsimp only
  split
  · rfl
  next hstatus =>
  refine hbase.trans (Eq.symm ?_)
  generalize (upgradeNode node a h.files).status = status at hends hstatus
  generalize (upgradeNode node a h.files).files.live = live at hends ⊢
  cases hends with
  | unsaved => rfl
  | unconfigured => rfl
  | unrendered hsaved hrender => exact (hspares.resolve_left hsaved).1 _ hrender
  | undeployed hsaved hrender h => exact ((hspares.resolve_left hsaved).2 _ hrender).1 h
  | lost hsaved hrender hdeployed hverify h =>
    exact ((hspares.resolve_left hsaved).2 _ hrender).2 hdeployed hverify h
  | done => exact absurd (.inl rfl) hstatus
  | rolledBack => exact absurd (.inr rfl) hstatus

theorem baseline_exec {files : Files} {attempts : List Attempt}
    (hspares : (upgrades node files).Along SparesLive (upgrades node files).init attempts)
    (hexec : (upgrades node files).exec (upgrades node files).init attempts = some h) :
    h.baseline = h.files.live := by
  have hthroughout : (upgrades node files).Throughout (fun h => h.baseline = h.files.live)
      (upgrades node files).init attempts := by
    refine Machine.throughout_of_along (J := fun _ => True) (fun _ _ => trivial) ?_ trivial rfl
      hspares
    intro s a t _ hbase hC hstep
    cases hstep
    exact baseline_attempt hbase hC
  exact hthroughout.last hexec

end

/-- **What a roll-back restores.** In a sequence of attempts whose failed ones left the live compose
as they found it, an attempt that ends rolled back leaves the live compose with the content it had
before the first attempt since the last one that was done or rolled back. -/
theorem rolled_back_restores (node : Node) (files : Files) {attempts : List Attempt} {h : History}
    (hspares : (upgrades node files).Along SparesLive (upgrades node files).init attempts)
    (hexec : (upgrades node files).exec (upgrades node files).init attempts = some h)
    {a : Attempt} (hread : a.liveUnreadable = false)
    (hrolled : (upgradeNode node a h.files).status = .rolledBack) :
    (h.baseline ≠ none → (h.attempt node a).files.live = h.baseline) ∧
      (h.baseline = none → h.files.backup = none → ∃ compose, a.render = some (.ok compose) ∧
          (h.attempt node a).files.live = some compose) := by
  have hbase := baseline_exec hspares hexec
  obtain ⟨compose, hcompose, hlive⟩ := upgradeNode_rolledBack hread hrolled
  constructor
  · intro hsome
    show (upgradeNode node a h.files).files.live = _
    rw [hlive, hbase]
    rw [hbase] at hsome
    rw [if_pos (Option.isSome_iff_ne_none.mpr hsome)]
  · intro hnone hbackup
    refine ⟨compose, hcompose, ?_⟩
    show (upgradeNode node a h.files).files.live = _
    rw [← hbase, hnone, hbackup] at hlive
    exact hlive

/-! ## Samples -/

def sampleNode : Node :=
  { name := "m1", livePath := "nodes/m1/m1-docker-compose.yml"
    backupPath := "nodes/m1/m1-docker-compose.yml.bak" }

def unverified (compose : Bytes) : Attempt :=
  { render := some (.ok compose), verify := some "data-plane verification failed" }

def undeployed (compose : Bytes) : Attempt :=
  { render := some (.ok compose), deploy := some "SSH deploy: connection refused" }

def afterFailedRender : History :=
  History.attempt sampleNode { files := { live := some [1] } }
    { render := some (.error { err := "template" }) }

/-- Rolled back then, the node has `[1]` again. -/
theorem rolled_back_restores_after_failed_render :
    (afterFailedRender.attempt sampleNode (unverified [2])).files.live = some [1] := by
  have hspares : (upgrades sampleNode { live := some [1] }).Along SparesLive
      (upgrades sampleNode { live := some [1] }).init
        [{ render := some (.error { err := "template" }) }] := by
    refine ⟨.inr ⟨?_, nofun⟩, fun _ _ => trivial⟩
    rintro _ ⟨⟩
    rfl
  exact (rolled_back_restores sampleNode { live := some [1] } hspares
    (Eq.refl (some afterFailedRender)) rfl rfl).1 (by decide)

def afterFailedDeploy : History :=
  History.attempt sampleNode { files := { live := some [1] } } (undeployed [2])

def firstDeployment : History := { files := {} }

/-- Two ways not to get the last good compose back. -/
theorem rolled_back_to_rendered :
    ((upgradeNode sampleNode (unverified [2]) firstDeployment.files).status = .rolledBack ∧
        firstDeployment.baseline = none ∧
        (firstDeployment.attempt sampleNode (unverified [2])).files.live = some [2]) ∧
      (upgradeNode sampleNode (unverified [3]) afterFailedDeploy.files).status = .rolledBack ∧
        afterFailedDeploy.baseline = some [1] ∧
        (afterFailedDeploy.attempt sampleNode (unverified [3])).files.live = some [2] := by
  decide

end AwgMesh.Upgrade
