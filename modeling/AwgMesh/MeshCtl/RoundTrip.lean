import AwgMesh.Lib.Coding
import AwgMesh.MeshCtl.Restore

/-! # Backup and restore -/

namespace AwgMesh.MeshCtl.Backup

open Lib Lib.Checks ByteText PathText FileSystem RestoreOptions List

/-! ## The archive is accepted -/

section

variable {c : Codec} {a : Archive} {m : Manifest} {hasControl : Prop} [Decidable hasControl]

def Archive.Portable (a : Archive) : Prop :=
  (∀ e ∈ a.config ++ a.control, ∀ x ∈ e.1, backslash ∉ x.1) ∧ backslash ∉ a.topologyName.1

theorem member_name_ne_manifest (statePrefix : Bytes) (e : Path × Node Bytes) :
    (member statePrefix e).name ≠ backupManifestName := by
  intro h
  have hmem : slash ∈ (member statePrefix e).name := by simp [member_name]
  rw [h] at hmem
  exact slash_notMem_prefixes.2.2.2 hmem

theorem readBackupManifest_members (hjson : c.unmarshal (c.marshal a.manifest) = some m) :
    readBackupManifest c (a.members c) = .ok m := by
  have hfind : (a.members c).find? (fun e => e.name = backupManifestName) =
      some (manifestMember c a.manifest) := by
    unfold Archive.members
    rw [find?_append, find?_eq_none.mpr, Option.none_or]
    · rfl
    · intro e he
      rw [decide_eq_true_eq]
      simp only [mem_append, mem_map, mem_singleton] at he
      rcases he with (⟨d, -, rfl⟩ | rfl) | ⟨d, -, rfl⟩ <;> exact member_name_ne_manifest _ _
  rw [readBackupManifest, hfind]
  simp only [bind_eq_ok, require_eq_ok, Option.some.injEq, exists_eq_left']
  exact hjson

theorem checkMember_member {statePrefix : Bytes} {e : Path × Node Bytes}
    (hpfx : statePrefix = backupLocalConfigPrefix ∨ statePrefix = backupTopologyPrefix ∨
      statePrefix = backupControlPlanePrefix ∧ m.includes.controlPlaneState = true)
    (he : e.1 ≠ []) :
    checkMember m (member statePrefix e) = .ok () ↔ ∀ x ∈ e.1, backslash ∉ x.1 := by
  have hname : (member statePrefix e).name = memberName statePrefix e.1 e.2.isDir := by
    rw [member_name, restName, memberName]
    simp
  have hproper : IsName statePrefix ∧ backslash ∉ statePrefix := by
    rcases hpfx with rfl | rfl | ⟨rfl, -⟩ <;> decide
  have hbranch : (if statePrefix = backupLocalConfigPrefix ∨ statePrefix = backupTopologyPrefix then
      (.ok () : Except RestoreError Unit)
      else if statePrefix = backupControlPlanePrefix then
        refuseIf (m.includes.controlPlaneState = false) .undeclaredControlPlane
      else .error (.unsupportedPrefix statePrefix)) = .ok () := by
    rcases hpfx with rfl | rfl | ⟨rfl, hcontrol⟩
    · exact if_pos (.inl rfl)
    · exact if_pos (.inr rfl)
    · rw [if_neg (by decide), if_pos rfl, refuseIf_eq_ok, hcontrol]
      decide
  unfold checkMember
  rw [if_neg (member_name_ne_manifest statePrefix e), hname]
  simp only [bind_eq_ok, mapError_eq_ok,
    validateArchiveMemberName_memberName hproper.1 hproper.2 he]
  constructor
  · rintro ⟨_, ⟨hback, -⟩, -⟩
    exact hback
  · intro hback
    exact ⟨statePrefix, ⟨hback, rfl⟩, hbranch⟩

structure Declares (m : Manifest) (hasControl : Prop) [Decidable hasControl] : Prop where
  format : m.format = backupArchiveFormat
  version : m.version = backupArchiveVersion
  localConfig : m.includes.localConfig = true
  topology : m.includes.topology = true
  controlPlaneState : m.includes.controlPlaneState = decide hasControl

structure Archive.Stored (c : Codec) (hasControl : Prop) [Decidable hasControl] (a : Archive)
    (content : Bytes) : Prop where
  opens : c.unzip content = some (a.members c)
  manifest : ∃ m, c.unmarshal (c.marshal a.manifest) = some m ∧ Declares m hasControl
  config : Listing a.config
  configNoLink : ∀ q leadsTo, (q, .link leadsTo) ∉ a.config
  control : Listing a.control
  controlNoLink : ∀ q leadsTo, (q, .link leadsTo) ∉ a.control
  noControl : ¬ hasControl → a.control = []

theorem validateBackupArchive_eq_ok {content : Bytes} (ha : a.Stored c hasControl content)
    (hm : Declares m hasControl) : validateBackupArchive (a.members c) m = .ok () ↔ a.Portable := by
  have hmanifest : checkMember m (manifestMember c a.manifest) = .ok () := if_pos rfl
  have hseen : ¬ ∀ e ∈ a.members c, e.name ≠ backupManifestName := fun h =>
    h (manifestMember c a.manifest) (by simp [Archive.members]) rfl
  have hconfig' : (∀ e ∈ a.config, checkMember m (member backupLocalConfigPrefix e) = .ok ()) ↔
      ∀ e ∈ a.config, ∀ x ∈ e.1, backslash ∉ x.1 :=
    forall₂_congr fun e he => checkMember_member (.inl rfl) (ha.config.ne_nil e he)
  have hcontrol' : (∀ e ∈ a.control, checkMember m (member backupControlPlanePrefix e) = .ok ()) ↔
      ∀ e ∈ a.control, ∀ x ∈ e.1, backslash ∉ x.1 := by
    refine forall₂_congr fun e he => checkMember_member (.inr (.inr ⟨rfl, ?_⟩))
      (ha.control.ne_nil e he)
    rw [hm.controlPlaneState, decide_eq_true_eq]
    exact not_imp_comm.mp ha.noControl (ne_nil_of_mem he)
  have htopology : checkMember m (member backupTopologyPrefix
      ([a.topologyName], .file a.topologyPerm a.topology)) = .ok () ↔
        backslash ∉ a.topologyName.1 := by
    rw [checkMember_member (.inr (.inl rfl)) (cons_ne_nil _ _)]
    exact forall_mem_singleton
  unfold validateBackupArchive
  simp only [bind_eq_ok, refuseIf_eq_ok, exists_const, hm.format, hm.version, hm.localConfig,
    hm.topology, forM_eq_ok, hseen, not_false_eq_true, ne_eq, not_true_eq_false, and_true, true_and,
    Bool.true_eq_false]
  unfold Archive.members Archive.Portable
  simp only [forall_mem_append, forall_mem_map, forall_mem_singleton, hmanifest,
    hconfig', hcontrol', htopology, and_true]
  exact and_right_comm

end

/-! ## Targets apart from each other -/

def Apart (a b : Path) : Prop := ¬ a <:+ b ∧ ¬ b <:+ a

section

variable {proc : Process} {s s' : FS} {target p : Path}

theorem Apart.symm {a b : Path} (h : Apart a b) : Apart b a := ⟨h.2, h.1⟩

theorem Apart.below {a b : Path} (h : Apart a b) (q : Path) : Apart a (q ++ b) := by
  constructor
  · intro hsuffix
    rcases suffix_or_suffix_of_suffix hsuffix (suffix_append q b) with hab | hba
    · exact h.1 hab
    · exact h.2 hba
  · exact fun hsuffix => h.2 ((suffix_append q b).trans hsuffix)

variable (h : Beside proc s target s')

include h

theorem Beside.node_of_apart (hp : Apart target p) : s'.node p = s.node p := by
  rw [h p hp.1, withDirs, if_neg]
  exact fun hdirs => hp.2 (hdirs.1.trans (tail_suffix target))

theorem Beside.cases (hp : ¬ target <:+ p) :
    s'.node p = s.node p ∨ p <:+ target ∧ s.node p = none ∧
      s'.node p = some (.dir backupDefaultDirMode (proc.mayFill backupDefaultDirMode)) := by
  rw [h p hp, withDirs]
  split
  · next hdirs => exact .inr ⟨hdirs.1.trans (tail_suffix target), hdirs.2, rfl⟩
  · exact .inl rfl

/-- Nothing has changed at `p`, but for directories made above a target. -/
def Kept (targets : List Path) (s s' : FS) (p : Path) : Prop :=
  s'.node p = s.node p ∨ s.node p = none ∧ s'.IsDir p ∧ ∃ target ∈ targets, p <:+ target

theorem Beside.kept (hp : ¬ target <:+ p) : Kept [target] s s' p := by
  rcases h.cases hp with heq | ⟨habove, hnone, hdir⟩
  · exact .inl heq
  · exact .inr ⟨hnone, ⟨_, _, hdir⟩, target, mem_singleton_self target, habove⟩

omit h in
theorem Kept.trans {s₁ : FS} {l k : List Path} (h : Kept l s s₁ p) (h' : Kept k s₁ s' p) :
    Kept (l ++ k) s s' p := by
  rcases h' with heq' | ⟨hnone', hdir', target', htarget', habove'⟩
  · rcases h with heq | ⟨hnone, ⟨perm, ok, hdir⟩, target, htarget, habove⟩
    · exact .inl (heq'.trans heq)
    · exact .inr ⟨hnone, ⟨perm, ok, heq'.trans hdir⟩, target, mem_append_left k htarget,
        habove⟩
  · rcases h with heq | ⟨-, ⟨perm, ok, hdir⟩, -⟩
    · exact .inr ⟨heq ▸ hnone', hdir', target', mem_append_right l htarget', habove'⟩
    · rw [hdir] at hnone'
      cases hnone'

theorem Beside.keepsTarget (hfill : proc.mayFill backupDefaultDirMode = true) (hp : Apart target p)
    (ht : Target s p) :
    Target s' p where
  trimmed := ht.trimmed
  free := (h.node_of_apart hp).trans ht.free
  room := by
    refine room_mono ht.room fun q hq hne => ?_
    rcases h.cases fun hsuffix => hp.1 (hsuffix.trans hq) with heq | ⟨-, hnone, hdir⟩
    · exact .inl heq
    · exact .inr ⟨hnone, _, hdir.trans (by rw [hfill])⟩

theorem Beside.keepsContains {l : List (Path × Node Bytes)} (hp : Apart target p)
    (hc : Contains proc s p l) : Contains proc s' p l where
  isDir := by
    obtain ⟨perm, ok, hdir⟩ := hc.isDir
    exact ⟨perm, ok, (h.node_of_apart hp).trans hdir⟩
  below q n hq := by
    rw [h.node_of_apart (hp.below q), hc.below q n hq]

end

/-! ## The command -/

namespace RestoreOptions

variable (o : RestoreOptions) (cwd : Path)

def archive : Path := abs cwd (trimSpace o.archivePath)

def config : Path := abs cwd (trimSpace o.configDir)

def topology : Path := abs cwd (trimSpace o.topologyPath)

def control : Path := abs cwd (trimSpace o.controlPlaneStateDir)

def places (hasControl : Prop) [Decidable hasControl] : List Path :=
  [o.config cwd] ++ [o.topology cwd] ++ if hasControl then [o.control cwd] else []

end RestoreOptions

/-- Nothing exists at the targets, there is room for them, and they lie apart. -/
structure Fresh (env : Env) (nano nano' : Int) (o : RestoreOptions) (hasControl : Prop)
    [Decidable hasControl] (t : FS) : Prop where
  confirm : o.confirm = true
  topologyGiven : trimSpace o.topologyPath ≠ []
  controlGiven : hasControl → trimSpace o.controlPlaneStateDir ≠ []
  free : ∀ p ∈ o.places env.cwd hasControl, t.node p = none ∧ t.Room p
  apart : (o.places env.cwd hasControl).Pairwise Apart
  config_temp : t.node (tempRoot (o.config env.cwd) nano) = none
  topology_temp : t.node (tempFile (o.topology env.cwd)) = none ∧
    Apart (o.config env.cwd) (tempFile (o.topology env.cwd))
  control_temp : hasControl → t.node (tempRoot (o.control env.cwd) nano') = none ∧
    Apart (o.config env.cwd) (tempRoot (o.control env.cwd) nano') ∧
    Apart (o.topology env.cwd) (tempRoot (o.control env.cwd) nano')

/-- The command trims each target twice; the second time there is nothing to trim. -/
def ReadTwice (cwd : Path) (o : RestoreOptions) (hasControl : Prop) [Decidable hasControl] : Prop :=
  ∀ p ∈ o.places cwd hasControl, trimSpace (text p) = text p

def SparesHome (env : Env) (o : RestoreOptions) (hasControl : Prop) : Prop :=
  env.home.map (abs env.cwd) ≠ some (o.config env.cwd) ∧
    (hasControl → env.home.map (abs env.cwd) ≠ some (o.control env.cwd))

structure Prepared (env : Env) (nano nano' : Int) (o : RestoreOptions) (hasControl : Prop)
    (t : FS) : Prop where
  confirm : o.confirm = true
  config : DirTarget env t nano (o.config env.cwd)
  topology : FileTarget t (o.topology env.cwd)
  topologyGiven : trimSpace o.topologyPath ≠ []
  config_topology : Apart (o.config env.cwd) (o.topology env.cwd)
  config_tempFile : Apart (o.config env.cwd) (tempFile (o.topology env.cwd))
  control : hasControl → DirTarget env t nano' (o.control env.cwd)
  controlGiven : hasControl → trimSpace o.controlPlaneStateDir ≠ []
  config_control : hasControl → Apart (o.config env.cwd) (o.control env.cwd)
  topology_control : hasControl → Apart (o.topology env.cwd) (o.control env.cwd)
  config_tempRoot : hasControl → Apart (o.config env.cwd) (tempRoot (o.control env.cwd) nano')
  topology_tempRoot : hasControl → Apart (o.topology env.cwd) (tempRoot (o.control env.cwd) nano')

theorem Fresh.prepared {env : Env} {nano nano' : Int} {o : RestoreOptions} {hasControl : Prop}
    [Decidable hasControl] {t : FS} (h : Fresh env nano nano' o hasControl t)
    (hread : ReadTwice env.cwd o hasControl) (hhome : SparesHome env o hasControl) :
    Prepared env nano nano' o hasControl t := by
  obtain ⟨hconfirm, htopology, hcontrol, hfree, hapart, hconfigTemp, htopologyTemp,
    hcontrolTemp⟩ := h
  have htarget : ∀ p ∈ o.places env.cwd hasControl, Target t p := fun p hp =>
    ⟨hread p hp, (hfree p hp).1, (hfree p hp).2⟩
  have hplace : hasControl → o.control env.cwd ∈ o.places env.cwd hasControl := fun hc => by
    simp [places, hc]
  refine ⟨hconfirm, ⟨htarget _ ?_, hhome.1, hconfigTemp⟩, ⟨htarget _ ?_, htopologyTemp.1⟩,
    htopology, ?_, htopologyTemp.2,
    fun hc => ⟨htarget _ (hplace hc), hhome.2 hc, (hcontrolTemp hc).1⟩, hcontrol, fun hc => ?_,
    fun hc => ?_, fun hc => (hcontrolTemp hc).2.1, fun hc => (hcontrolTemp hc).2.2⟩
  · simp [places]
  · simp [places]
  all_goals simp_all [places]

section

variable {c : Codec} {env : Env} {nano nano' : Int} {o : RestoreOptions} {t t' : FS} {a : Archive}
  {hasControl : Prop} {perm : Nat} {content : Bytes}

theorem pathWithinDirectory_eq_false {archive target : Path} (hfree : t.node target = none)
    (harchive : t.node archive = some (.file perm content)) :
    pathWithinDirectory archive target = false := by
  have hout : ¬ target <:+ archive := by
    rintro ⟨q, rfl⟩
    rw [node_below_none hfree q] at harchive
    cases harchive
  rw [pathWithinDirectory, decide_eq_false_iff_not]
  exact fun h => h.2.1 (dotdot_prefix_rel hout)

theorem validateRestoreDirectory_of_target {raw : Bytes} {target : Path}
    (hraw : abs env.cwd (trimSpace raw) = target) (ht : DirTarget env t nano target) :
    validateRestoreDirectory env raw = .ok target := by
  have hne : target ≠ [] := by
    obtain ⟨y, p, rfl⟩ := ht.exists_cons
    exact cons_ne_nil y p
  simp only [validateRestoreDirectory, rejectDangerousRestoreTarget, hraw, bind_eq_ok,
    refuseIf_eq_ok, pure_eq_ok, hne, ht.notHome, not_false_eq_true, and_self, exists_const]

theorem runRestoreCommand_iff [Decidable hasControl] (hgiven : trimSpace o.archivePath ≠ [])
    (hfile : t.node (o.archive env.cwd) = some (.file perm content))
    (ha : a.Stored c hasControl content) (hprep : Prepared env nano nano' o hasControl t) :
    runRestoreCommand c env nano nano' o t = .ok t' ↔
      a.Portable ∧ ∃ t₁, restoreDirectoryPrefix env nano (a.members c) backupLocalConfigPrefix
          (o.config env.cwd) t = .ok t₁ ∧
        ∃ t₂, restoreTopologyFile env (a.members c) (o.topology env.cwd) t₁ = .ok t₂ ∧
          restoreControl env nano' (a.members c)
            (if hasControl then some (o.control env.cwd) else none) t₂ = .ok t' := by
  obtain ⟨m, hjson, hm⟩ := ha.manifest
  have hreader : openReader c t (o.archive env.cwd) = some (a.members c) := by
    rw [openReader, hfile]
    exact ha.opens
  have hconfigTarget : validateRestoreDirectory env o.configDir = .ok (o.config env.cwd) :=
    validateRestoreDirectory_of_target rfl hprep.config
  have hwithin := pathWithinDirectory_eq_false hprep.config.free hfile
  have hcontrolTarget : controlTarget env o (o.archive env.cwd) m =
      .ok (if hasControl then some (o.control env.cwd) else none) := by
    unfold controlTarget
    rw [hm.controlPlaneState]
    by_cases hc : hasControl
    · have hwithin' := pathWithinDirectory_eq_false (hprep.control hc).free hfile
      have htarget : validateRestoreDirectory env o.controlPlaneStateDir =
          .ok (o.control env.cwd) := validateRestoreDirectory_of_target rfl (hprep.control hc)
      simp only [hc, decide_true, if_true, bind_eq_ok, htarget, refuseIf_eq_ok, hwithin',
        pure_eq_ok, Except.ok.injEq, exists_eq_left', Bool.false_eq_true, not_false_eq_true,
        true_and, exists_const]
    · simp [hc]
  have hrequired :
      ¬ (m.includes.controlPlaneState = true ∧ trimSpace o.controlPlaneStateDir = []) := by
    rintro ⟨hdeclared, hnone⟩
    rw [hm.controlPlaneState, decide_eq_true_eq] at hdeclared
    exact hprep.controlGiven hdeclared hnone
  have harchive : normalizedArchivePath RestoreError.archiveRequired env.cwd o.archivePath =
      .ok (o.archive env.cwd) := by
    simp only [normalizedArchivePath, bind_eq_ok, refuseIf_eq_ok, pure_eq_ok]
    exact ⟨(), hgiven, rfl⟩
  have htopologyTarget : validateRestoreFile env o.topologyPath = .ok (o.topology env.cwd) := by
    simp only [validateRestoreFile, bind_eq_ok, refuseIf_eq_ok, pure_eq_ok]
    exact ⟨(), hprep.topologyGiven, rfl⟩
  simp only [runRestoreCommand, bind_eq_ok, refuseIf_eq_ok, require_eq_ok, exists_const, harchive,
    hreader, readBackupManifest_members hjson, validateBackupArchive_eq_ok ha hm,
    hrequired, hconfigTarget, htopologyTarget, hwithin, hcontrolTarget, hprep.confirm,
    not_false_eq_true, true_and, exists_eq_left', Option.some.injEq, Except.ok.injEq,
    Bool.false_eq_true, Bool.true_eq_false]

theorem sparesHome_of_restore [Decidable hasControl]
    (hfile : t.node (o.archive env.cwd) = some (.file perm content))
    (ha : a.Stored c hasControl content) (h : runRestoreCommand c env nano nano' o t = .ok t') :
    SparesHome env o hasControl := by
  obtain ⟨m, hjson, hm⟩ := ha.manifest
  simp only [runRestoreCommand, normalizedArchivePath, bind_eq_ok, refuseIf_eq_ok, require_eq_ok,
    pure_eq_ok, exists_const] at h
  obtain ⟨_, ⟨-, rfl⟩, es, hes, m', hm', -, -, -, config, hconfig, -, -, -, control, hcontrol,
    -⟩ := h
  have hreader : openReader c t (o.archive env.cwd) = some (a.members c) := by
    rw [openReader, hfile]
    exact ha.opens
  cases hes.symm.trans hreader
  cases hm'.symm.trans (readBackupManifest_members hjson)
  have hnotHome : ∀ raw target, validateRestoreDirectory env raw = .ok target →
      env.home.map (abs env.cwd) ≠ some (abs env.cwd (trimSpace raw)) := by
    intro raw target htarget
    simp only [validateRestoreDirectory, rejectDangerousRestoreTarget, bind_eq_ok, refuseIf_eq_ok,
      pure_eq_ok, exists_const] at htarget
    exact htarget.1.2
  refine ⟨hnotHome _ _ hconfig, fun hc => ?_⟩
  rw [controlTarget, hm.controlPlaneState, if_pos (by simpa using hc)] at hcontrol
  simp only [bind_eq_ok] at hcontrol
  obtain ⟨target, htarget, -⟩ := hcontrol
  exact hnotHome _ _ htarget

structure Outcome (env : Env) (o : RestoreOptions) (hasControl : Prop) [Decidable hasControl]
    (a : Archive) (t t' : FS) : Prop where
  config : Contains env.proc t' (o.config env.cwd) a.config
  topology : t'.node (o.topology env.cwd) = some (.file (fileMode a.topologyPerm) a.topology)
  control : hasControl → Contains env.proc t' (o.control env.cwd) a.control
  elsewhere : ∀ p, (∀ target ∈ o.places env.cwd hasControl, ¬ target <:+ p) →
    Kept (o.places env.cwd hasControl) t t' p

def Archive.CanBeRestored (proc : Process) (hasControl : Prop) (a : Archive) : Prop :=
  a.Portable ∧ Restorable proc a.config ∧ (hasControl → Restorable proc a.control)

theorem Restorable.mayFill {proc : Process} {l : List (Path × Node Bytes)}
    (h : Restorable proc l) (hl : Listing l) :
    proc.mayFill backupDefaultDirMode = true := by
  obtain ⟨hne, -, hready⟩ := h
  obtain ⟨x, n, hmem⟩ := hl.first hne
  exact (hready x [] n hmem).1 rfl

section Steps

variable {t₁ t₂ : FS} (hprep : Prepared env nano nano' o hasControl t)
  (hfill : env.proc.mayFill backupDefaultDirMode = true)
  (h₁ : Beside env.proc t (o.config env.cwd) t₁)

include hprep hfill h₁

theorem Prepared.fileTarget : FileTarget t₁ (o.topology env.cwd) where
  toTarget := h₁.keepsTarget hfill hprep.config_topology hprep.topology.toTarget
  tempFree := (h₁.node_of_apart hprep.config_tempFile).trans hprep.topology.tempFree

theorem Prepared.controlTarget (hc : hasControl) (h₂ : Beside env.proc t₁ (o.topology env.cwd) t₂) :
    DirTarget env t₂ nano' (o.control env.cwd) where
  toTarget := h₂.keepsTarget hfill (hprep.topology_control hc)
    (h₁.keepsTarget hfill (hprep.config_control hc) (hprep.control hc).toTarget)
  notHome := (hprep.control hc).notHome
  tempFree := (h₂.node_of_apart (hprep.topology_tempRoot hc)).trans
    ((h₁.node_of_apart (hprep.config_tempRoot hc)).trans (hprep.control hc).tempFree)

end Steps

section Run

variable [Decidable hasControl] (hgiven : trimSpace o.archivePath ≠ [])
  (hfile : t.node (o.archive env.cwd) = some (.file perm content))
  (ha : a.Stored c hasControl content) (hprep : Prepared env nano nano' o hasControl t)

include hgiven hfile ha hprep

theorem runRestoreCommand_eq_ok (h : runRestoreCommand c env nano nano' o t = .ok t') :
    a.CanBeRestored env.proc hasControl ∧ Outcome env o hasControl a t t' := by
  obtain ⟨hportable, t₁, hconfig, t₂, htopology, hcontrol⟩ :=
    (runRestoreCommand_iff hgiven hfile ha hprep).mp h
  obtain ⟨hrestorable, hcontains₁, h₁⟩ := restoreDirectoryPrefix_eq_ok hprep.config ha.config
    ha.configNoLink (members_config ha.config.ne_nil) hconfig
  have hfill := hrestorable.mayFill ha.config
  obtain ⟨t₂', htopology', hnode₂, h₂⟩ := exists_restoreTopologyFile (c := c) (a := a)
    (hprep.fileTarget hfill h₁) hfill
  obtain rfl : t₂' = t₂ := Except.ok.inj (htopology'.symm.trans htopology)
  have hcontains₂ := h₂.keepsContains hprep.config_topology.symm hcontains₁
  by_cases hc : hasControl
  · rw [if_pos hc] at hcontrol
    obtain ⟨hrestorable', hcontains', h'⟩ := restoreDirectoryPrefix_eq_ok
      (hprep.controlTarget hfill h₁ hc h₂) ha.control ha.controlNoLink
      (members_control ha.control.ne_nil) hcontrol
    refine ⟨⟨hportable, hrestorable, fun _ => hrestorable'⟩,
      h'.keepsContains (hprep.config_control hc).symm hcontains₂,
      (h'.node_of_apart (hprep.topology_control hc).symm).trans hnode₂, fun _ => hcontains', ?_⟩
    intro p hp
    simp only [places, if_pos hc, forall_mem_append, forall_mem_singleton]
      at hp ⊢
    exact ((h₁.kept hp.1.1).trans (h₂.kept hp.1.2)).trans (h'.kept hp.2)
  · rw [if_neg hc] at hcontrol
    obtain rfl : t₂' = t' := Except.ok.inj hcontrol
    refine ⟨⟨hportable, hrestorable, fun h => absurd h hc⟩, hcontains₂, hnode₂,
      fun h => absurd h hc, ?_⟩
    intro p hp
    simp only [places, if_neg hc, append_nil, forall_mem_append,
      forall_mem_singleton] at hp ⊢
    exact (h₁.kept hp.1).trans (h₂.kept hp.2)

theorem exists_runRestoreCommand (h : a.CanBeRestored env.proc hasControl) :
    ∃ t', runRestoreCommand c env nano nano' o t = .ok t' := by
  obtain ⟨hportable, hconfig, hcontrol⟩ := h
  have hfill := hconfig.mayFill ha.config
  obtain ⟨t₁, ht₁⟩ := exists_restoreDirectoryPrefix hprep.config ha.config ha.configNoLink
    (members_config (c := c) ha.config.ne_nil) hconfig
  obtain ⟨-, -, h₁⟩ := restoreDirectoryPrefix_eq_ok hprep.config ha.config ha.configNoLink
    (members_config ha.config.ne_nil) ht₁
  obtain ⟨t₂, ht₂, -, h₂⟩ := exists_restoreTopologyFile (c := c) (a := a)
    (hprep.fileTarget hfill h₁) hfill
  obtain ⟨t', ht'⟩ : ∃ t', restoreControl env nano' (a.members c)
      (if hasControl then some (o.control env.cwd) else none) t₂ = .ok t' := by
    by_cases hc : hasControl
    · rw [if_pos hc]
      exact exists_restoreDirectoryPrefix (hprep.controlTarget hfill h₁ hc h₂) ha.control
        ha.controlNoLink (members_control ha.control.ne_nil) (hcontrol hc)
    · rw [if_neg hc]
      exact ⟨t₂, rfl⟩
  exact ⟨t', (runRestoreCommand_iff hgiven hfile ha hprep).mpr
    ⟨hportable, t₁, ht₁, t₂, ht₂, ht'⟩⟩

end Run

end

/-! ## A restore after a backup -/

inductive Kind where
  | directory
  | file (content : Bytes)
  | link (leadsTo : Option Bool)

def kind : Node Bytes → Kind
  | .dir .. => .directory
  | .file _ content => .file content
  | .link leadsTo => .link leadsTo

/-- At and below `target` there is what was found at and below `root`. -/
def SameTree (found : Path → Option (Node Bytes)) (root : Path) (t : FS) (target : Path) : Prop :=
  ∀ q, (t.node (q ++ target)).map kind = (found (q ++ root)).map kind

/-- What the backup found is back, and nothing else has changed. -/
structure Recreated (env env' : Env) (o : BackupOptions) (r : RestoreOptions) (s t t' : FS) :
    Prop where
  config : SameTree (o.found env s) (o.config env.cwd) t' (r.config env'.cwd)
  topology : (t'.node (r.topology env'.cwd)).map kind =
    (o.found env s (o.topology env.cwd)).map kind
  control : o.HasControl → SameTree (o.found env s) (o.control env.cwd) t' (r.control env'.cwd)
  elsewhere : ∀ p, (∀ target ∈ r.places env'.cwd o.HasControl, ¬ target <:+ p) →
    Kept (r.places env'.cwd o.HasControl) t t' p

/-- The tree is not empty, its names are safe, and its directories can be filled. -/
structure Recoverable (proc : Process) (found : Path → Option (Node Bytes)) (root : Path) :
    Prop where
  entry : ∃ q, q ≠ [] ∧ found (q ++ root) ≠ none
  safe : ∀ q, q ≠ [] → found (q ++ root) ≠ none → Safe q
  fillRoot : proc.mayFill backupDefaultDirMode = true
  fill : ∀ x q perm ok, q ≠ [] → found (x :: (q ++ root)) ≠ none →
    found (q ++ root) = some (.dir perm ok) → proc.mayFill (directoryMode perm) = true

section

variable {found : Path → Option (Node Bytes)} {root : Path} {l : List (Path × Node Bytes)}

theorem Lists.restorable_iff (h : Lists found root l) (proc : Process) :
    Restorable proc l ↔ Recoverable proc found root := by
  have hmem : ∀ q, q ≠ [] → found (q ++ root) ≠ none → ∃ n, (q, n) ∈ l := by
    intro q hq hfound
    obtain ⟨n, hn⟩ := Option.ne_none_iff_exists'.mp hfound
    exact ⟨n, (h.mem q n).mpr ⟨hq, hn⟩⟩
  have hfound : ∀ q n, (q, n) ∈ l → q ≠ [] ∧ found (q ++ root) ≠ none := by
    intro q n hn
    obtain ⟨hq, hsome⟩ := (h.mem q n).mp hn
    exact ⟨hq, by simp [hsome]⟩
  constructor
  · intro hr
    have hfill := hr.mayFill h.listing
    obtain ⟨hne, hsafe, hready⟩ := hr
    refine ⟨?_, fun q hq hq' => ?_, hfill, fun x q perm ok hq hx hdir => ?_⟩
    · obtain ⟨⟨q, n⟩, hn⟩ := exists_mem_of_ne_nil l hne
      exact ⟨q, hfound q n hn⟩
    · obtain ⟨n, hn⟩ := hmem q hq hq'
      exact hsafe (q, n) hn
    · obtain ⟨n, hn⟩ := hmem (x :: q) (cons_ne_nil x q) hx
      have hmemDir : (q, Node.dir perm ok) ∈ l := (h.mem q _).mpr ⟨hq, hdir⟩
      exact (hready x q n hn).2 (directoryMode perm) _ (mem_map.mpr ⟨_, hmemDir, rfl⟩)
  · rintro ⟨⟨q, hq, hq'⟩, hsafe, hroot, hfill⟩
    obtain ⟨n, hn⟩ := hmem q hq hq'
    refine ⟨ne_nil_of_mem hn, fun e he => ?_, fun x q n hn => ⟨fun _ => hroot, ?_⟩⟩
    · obtain ⟨hne, hsome⟩ := hfound e.1 e.2 he
      exact hsafe e.1 hne hsome
    · intro perm ok' hdir
      obtain ⟨⟨q', d⟩, hd, heq⟩ := mem_map.mp hdir
      obtain ⟨rfl, hd'⟩ := Prod.mk.inj heq
      -- Only a directory becomes one.
      cases d with
      | file => cases hd'
      | link => cases hd'
      | dir perm₀ ok =>
        cases hd'
        obtain ⟨hq, hsome⟩ := (h.mem q' _).mp hd
        exact hfill x q' perm₀ ok hq (hfound _ n hn).2 hsome

theorem Lists.sameTree {proc : Process} {t : FS} {target : Path} (h : Lists found root l)
    (hc : Contains proc t target l) : SameTree found root t target := by
  intro q
  by_cases hq : q = []
  · subst hq
    obtain ⟨perm, ok, hdir⟩ := h.isDir
    obtain ⟨perm', ok', hdir'⟩ := hc.isDir
    rw [nil_append, nil_append, hdir, hdir']
    rfl
  · cases hfound : found (q ++ root) with
    | some n =>
      have hmem : (q, n) ∈ l := (h.mem q n).mpr ⟨hq, hfound⟩
      rw [(hc.below q (restored proc n) hq).mpr (mem_map.mpr ⟨_, hmem, rfl⟩)]
      cases n <;> rfl
    | none =>
      have hnone : t.node (q ++ target) = none := by
        refine Option.eq_none_iff_forall_ne_some.mpr fun n hn => ?_
        obtain ⟨⟨q', n'⟩, hmem, heq⟩ := mem_map.mp ((hc.below q n hq).mp hn)
        obtain ⟨rfl, -⟩ := Prod.mk.inj heq
        rw [((h.mem q' n').mp hmem).2] at hfound
        cases hfound
      rw [hnone]

end

section

variable {c : Codec} {env env' : Env} {now nano nano' : Int} {o : BackupOptions}
  {r : RestoreOptions} {s s' t t' : FS} {a : Archive}

theorem Holds.stored (hc : c.Faithful) (h : Holds env o s a) :
    a.Stored c o.HasControl (c.zip (a.members c)) where
  opens := hc.unzip_zip (a.members c)
  manifest := by
    obtain ⟨m, hm, hformat, hversion, hincludes⟩ := hc.unmarshal_marshal a.manifest
    rw [h.includes] at hincludes
    exact ⟨m, hm, hformat.trans h.format, hversion.trans h.version, by rw [hincludes],
      by rw [hincludes], by rw [hincludes]⟩
  config := h.config.listing
  configNoLink := h.config.noLink
  control := by
    by_cases hcontrol : o.HasControl
    · exact (h.control hcontrol).listing
    · rw [h.noControl hcontrol]
      exact ⟨by simp, by simp, by simp⟩
  controlNoLink := by
    by_cases hcontrol : o.HasControl
    · exact (h.control hcontrol).noLink
    · rw [h.noControl hcontrol]
      exact fun _ _ => not_mem_nil
  noControl := h.noControl

theorem Holds.canBeRestored_iff (h : Holds env o s a) (proc : Process) :
    a.CanBeRestored proc o.HasControl ↔ Recoverable proc (o.found env s) (o.config env.cwd) ∧
      backslash ∉ base (o.topology env.cwd) ∧
      (o.HasControl → Recoverable proc (o.found env s) (o.control env.cwd)) := by
  have hbase : base (o.topology env.cwd) = a.topologyName.1 := by
    obtain ⟨p, hp⟩ := h.topologyName
    rw [hp, base]
  have hcontrol : (o.HasControl → Restorable proc a.control) ↔
      (o.HasControl → Recoverable proc (o.found env s) (o.control env.cwd)) :=
    forall_congr' fun hc => (h.control hc).restorable_iff proc
  rw [hbase, ← h.config.restorable_iff, ← hcontrol]
  constructor
  · rintro ⟨⟨-, htopology⟩, hconfig, hcontrol⟩
    exact ⟨hconfig, htopology, hcontrol⟩
  · rintro ⟨hconfig, htopology, hcontrol⟩
    refine ⟨⟨?_, htopology⟩, hconfig, hcontrol⟩
    rw [forall_mem_append]
    refine ⟨fun e he => (hconfig.2.1 e he).1, fun e he => ?_⟩
    by_cases hc : o.HasControl
    · exact ((hcontrol hc).2.1 e he).1
    · rw [h.noControl hc] at he
      cases he

section Restore

variable {content : Bytes} {perm perm' : Nat} (hc : c.Faithful)
  (hbackup : runBackupCommand c env now o s = .ok s')
  (hwritten : s'.node (o.archive env.cwd) = some (.file perm content))
  (hgiven : trimSpace r.archivePath ≠ [])
  (hfile : t.node (r.archive env'.cwd) = some (.file perm' content))
  (hfresh : Fresh env' nano nano' r o.HasControl t) (hread : ReadTwice env'.cwd r o.HasControl)

include hc hbackup hwritten hgiven hfile hfresh hread

theorem exists_restore_iff :
    (∃ t', runRestoreCommand c env' nano nano' r t = .ok t') ↔ SparesHome env' r o.HasControl ∧
      Recoverable env'.proc (o.found env s) (o.config env.cwd) ∧
      backslash ∉ base (o.topology env.cwd) ∧
      (o.HasControl → Recoverable env'.proc (o.found env s) (o.control env.cwd)) := by
  obtain ⟨a, _, h, hnode⟩ := runBackupCommand_eq_ok hbackup
  cases hwritten.symm.trans hnode
  have ha := h.stored hc
  rw [← h.canBeRestored_iff]
  constructor
  · rintro ⟨t', ht'⟩
    have hhome := sparesHome_of_restore hfile ha ht'
    exact ⟨hhome, (runRestoreCommand_eq_ok hgiven hfile ha (hfresh.prepared hread hhome) ht').1⟩
  · rintro ⟨hhome, hcan⟩
    exact exists_runRestoreCommand hgiven hfile ha (hfresh.prepared hread hhome) hcan

theorem recreated_of_restore (hne : o.topology env.cwd ≠ o.archive env.cwd)
    (hrestore : runRestoreCommand c env' nano nano' r t = .ok t') :
    Recreated env env' o r s t t' := by
  obtain ⟨a, _, h, hnode⟩ := runBackupCommand_eq_ok hbackup
  cases hwritten.symm.trans hnode
  have ha := h.stored hc
  have hhome := sparesHome_of_restore hfile ha hrestore
  have hout :=
    (runRestoreCommand_eq_ok hgiven hfile ha (hfresh.prepared hread hhome) hrestore).2
  refine ⟨h.config.sameTree hout.config, ?_, fun hc => (h.control hc).sameTree (hout.control hc),
    hout.elsewhere⟩
  rw [hout.topology, h.topology hne]
  rfl

end Restore

end

section Sample

open Coding

def entryCoding : Coding ZipEntry :=
  (byte.list.pair (bool.pair (number.pair byte.list))).map
    (fun e => (e.name, e.dirBit, e.perm, e.content)) (fun x => ⟨x.1, x.2.1, x.2.2.1, x.2.2.2⟩)
    fun _ => rfl

def includesCoding : Coding Includes :=
  (bool.pair (bool.pair bool)).map (fun i => (i.localConfig, i.topology, i.controlPlaneState))
    (fun x => ⟨x.1, x.2.1, x.2.2⟩) fun _ => rfl

def manifestCoding : Coding (String × Int × Includes) :=
  string.pair (int.pair includesCoding)

def sampleCodec : Codec where
  zip := entryCoding.list.write
  unzip := entryCoding.list.readAll
  marshal m := manifestCoding.write (m.format, m.version, m.includes)
  unmarshal b := (manifestCoding.readAll b).map fun m => ⟨m.1, m.2.1, 0, [], [], m.2.2, []⟩

theorem sampleCodec_faithful : sampleCodec.Faithful where
  unzip_zip := entryCoding.list.readAll_write
  unmarshal_marshal m := by
    refine ⟨⟨m.format, m.version, 0, [], [], m.includes, []⟩, ?_, rfl, rfl, rfl⟩
    simp only [sampleCodec, readAll_write, Option.map_some]

def sampleConfig : Name := ⟨ascii "c", by decide⟩

def sampleTopology : Name := ⟨ascii "t", by decide⟩

def sampleFile : Name := ⟨ascii "f", by decide⟩

def sampleState (full : Bool) : FS where
  nodes := [([], .dir 0o755 true), ([sampleConfig], .dir 0o755 true),
    ([sampleTopology], .file 0o644 (ascii "x"))] ++
      if full then [([sampleFile, sampleConfig], .file 0o644 (ascii "y"))] else []
  nodup := by cases full <;> decide
  parent := by
    intro x p n h
    refine ⟨.dir 0o755 true, ?_, rfl⟩
    cases full <;> simp at h ⊢ <;> grind

def sampleEnv : Env := ⟨[], none, ⟨true, 0⟩, fun _ => true⟩

def sampleBackup : BackupOptions := ⟨ascii "/a", ascii "/t", ascii "/c", []⟩

def sampleRestore : RestoreOptions := ⟨ascii "/a", ascii "/u", ascii "/d", [], true⟩

variable (c : Codec) (full : Bool)

def sampleBacked : FS :=
  (runBackupCommand c sampleEnv 0 sampleBackup (sampleState full)).toOption.getD (sampleState full)

theorem runBackupCommand_sample :
    runBackupCommand c sampleEnv 0 sampleBackup (sampleState full) = .ok (sampleBacked c full) := by
  cases full <;> rfl

theorem node_sampleBacked : ∃ content,
    (sampleBacked c full).node (sampleBackup.archive []) = some (.file 0o600 content) := by
  cases full <;> exact ⟨_, rfl⟩

theorem sample_places : sampleRestore.places [] sampleBackup.HasControl =
    [[⟨ascii "d", by decide⟩], [⟨ascii "u", by decide⟩]] := by rfl

theorem sample_fresh : Fresh sampleEnv 0 0 sampleRestore sampleBackup.HasControl
    (sampleBacked c full) where
  confirm := rfl
  topologyGiven := by decide
  controlGiven h := absurd rfl h
  free := by
    change ∀ p ∈ sampleRestore.places [] sampleBackup.HasControl, _
    rw [sample_places, forall_mem_cons, forall_mem_singleton]
    cases full <;> exact ⟨⟨rfl, .inl ⟨_, rfl⟩⟩, rfl, .inl ⟨_, rfl⟩⟩
  apart := by
    change (sampleRestore.places [] sampleBackup.HasControl).Pairwise _
    rw [sample_places, pairwise_pair]
    unfold Apart
    decide
  config_temp := by cases full <;> rfl
  topology_temp := by
    refine ⟨by cases full <;> rfl, ?_⟩
    unfold Apart
    decide
  control_temp h := absurd rfl h

theorem sample_readTwice : ReadTwice [] sampleRestore sampleBackup.HasControl := by
  unfold ReadTwice
  rw [sample_places, forall_mem_cons, forall_mem_singleton]
  decide

theorem sample_found {full : Bool} {p : Path} {n : Node Bytes}
    (h : sampleBackup.found sampleEnv (sampleState full) p = some n) :
    (p, n) ∈ (sampleState full).nodes := by
  obtain ⟨-, hdirs⟩ := update_none_eq_some.mp h
  have hroot : ¬ (p <:+ [] ∧ (sampleState full).node p = none) := by
    rintro ⟨hp, hnone⟩
    rw [suffix_nil] at hp
    subst hp
    cases full <;> cases hnone
  change withDirs _ _ _ [] p = _ at hdirs
  rw [withDirs, if_neg hroot] at hdirs
  exact node_eq_some.mp hdirs

theorem sample_below {full : Bool} {q : Path} (hq : q ≠ [])
    (h : sampleBackup.found sampleEnv (sampleState full) (q ++ [sampleConfig]) ≠ none) :
    full = true ∧ q = [sampleFile] := by
  obtain ⟨n, hn⟩ := Option.ne_none_iff_exists'.mp h
  have hmem := sample_found hn
  have hlength : 2 ≤ (q ++ [sampleConfig]).length := by
    rw [length_append]
    exact Nat.succ_le_succ (length_pos_iff.mpr hq)
  simp only [sampleState, mem_append, mem_cons, Prod.mk.injEq, not_mem_nil,
    or_false] at hmem
  rcases hmem with (⟨hnil, -⟩ | ⟨hone, -⟩ | ⟨hone, -⟩) | hmem
  · simp [hnil] at hlength
  · simp [hone] at hlength
  · simp [hone] at hlength
  · cases full with
    | false => simp at hmem
    | true =>
      simp only [if_true, mem_singleton, Prod.mk.injEq] at hmem
      have hconfig : q ++ [sampleConfig] = [sampleFile] ++ [sampleConfig] := hmem.1
      exact ⟨rfl, append_cancel_right hconfig⟩

theorem sample_recoverable : Recoverable sampleEnv.proc
    (sampleBackup.found sampleEnv (sampleState true)) (sampleBackup.config []) where
  entry := ⟨[sampleFile], by decide, by decide⟩
  safe q hq h := by
    obtain ⟨-, rfl⟩ := sample_below hq h
    decide
  fillRoot := rfl
  fill _ _ _ _ _ _ _ := rfl

end Sample

end AwgMesh.MeshCtl.Backup
