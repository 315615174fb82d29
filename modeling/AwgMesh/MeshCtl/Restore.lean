import AwgMesh.MeshCtl.Backup
import Mathlib.Algebra.Group.Nat.Defs

/-!
# `mesh-ctl restore`

`runRestoreCommand` of `cmd/mesh-ctl/cmd/backup.go` as a function on file systems.
-/

namespace AwgMesh.MeshCtl.Backup

open Lib Lib.Checks ByteText PathText FileSystem Function List

structure RestoreOptions where
  archivePath : Bytes
  topologyPath : Bytes
  configDir : Bytes
  controlPlaneStateDir : Bytes
  confirm : Bool

inductive RestoreError where
  | archiveRequired
  | openArchive
  | manifestMissing
  | decodeManifest
  | unsupportedFormat (format : String)
  | unsupportedVersion (version : Int)
  | noLocalConfig
  | noTopology
  | member (err : MemberError)
  | undeclaredControlPlane
  | unsupportedPrefix (statePrefix : Bytes)
  | controlTargetRequired
  | filesystemRoot (target : Path)
  | homeDirectory (target : Path)
  | fileRequired
  | archiveInside (archive target : Path)
  | notConfirmed
  | createParent (err : OsError)
  | createTemp (err : OsError)
  | outside (rel : Bytes)
  | createDirectory (path : Path) (err : OsError)
  | createFileParent (path : Path) (err : OsError)
  | createFile (path : Path) (err : OsError)
  | noEntries (statePrefix : Bytes)
  | replaceTarget (target : Path) (err : OsError)
  | topologyNotSingle (name : Bytes)
  | manyTopologies
  | noTopologyFile
  | createTopologyDirectory (err : OsError)
  | removeTopology (target : Path) (err : OsError)
  | replaceTopology (target : Path) (err : OsError)

/-! ## Reading the archive -/

def openReader (c : Codec) (s : FS) (archive : Path) : Option (List ZipEntry) :=
  match s.node archive with
  | some (.file _ content) => c.unzip content
  | _ => none

def readBackupManifest (c : Codec) (es : List ZipEntry) : Except RestoreError Manifest := do
  let e ← require (es.find? fun e => e.name = backupManifestName) .manifestMissing
  require (c.unmarshal e.content) .decodeManifest

def checkMember (m : Manifest) (e : ZipEntry) : Except RestoreError Unit :=
  if e.name = backupManifestName then .ok ()
  else do
    let statePrefix ← (validateArchiveMemberName e.name).mapError .member
    if statePrefix = backupLocalConfigPrefix ∨ statePrefix = backupTopologyPrefix then .ok ()
    else if statePrefix = backupControlPlanePrefix then
      refuseIf (m.includes.controlPlaneState = false) .undeclaredControlPlane
    else .error (.unsupportedPrefix statePrefix)

def validateBackupArchive (es : List ZipEntry) (m : Manifest) : Except RestoreError Unit := do
  refuseIf (m.format ≠ backupArchiveFormat) (.unsupportedFormat m.format)
  refuseIf (m.version ≠ backupArchiveVersion) (.unsupportedVersion m.version)
  refuseIf (m.includes.localConfig = false) .noLocalConfig
  refuseIf (m.includes.topology = false) .noTopology
  es.forM (checkMember m)
  refuseIf (∀ e ∈ es, e.name ≠ backupManifestName) .manifestMissing

/-! ## Targets -/

def rejectDangerousRestoreTarget (env : Env) (target : Path) : Except RestoreError Unit := do
  refuseIf (target = []) (.filesystemRoot target)
  refuseIf (env.home.map (abs env.cwd) = some target) (.homeDirectory target)

def validateRestoreDirectory (env : Env) (raw : Bytes) : Except RestoreError Path := do
  rejectDangerousRestoreTarget env (abs env.cwd (trimSpace raw))
  return abs env.cwd (trimSpace raw)

def validateRestoreFile (env : Env) (raw : Bytes) : Except RestoreError Path := do
  refuseIf (trimSpace raw = []) .fileRequired
  return abs env.cwd (trimSpace raw)

def pathWithinDirectory (candidate dir : Path) : Bool :=
  rel dir candidate ≠ dot ∧ ¬ dotdot <+: rel dir candidate ∧ (rel dir candidate).head? ≠ some slash

def safeRestorePath (root : Path) (archiveRel : Bytes) : Except RestoreError Path := do
  let _ ← (validateArchiveMemberName (ascii "x/" ++ archiveRel)).mapError .member
  refuseIf (rel root (resolve root archiveRel) = dot ∨
    dotdot <+: rel root (resolve root archiveRel) ∨
    (rel root (resolve root archiveRel)).head? = some slash) (.outside archiveRel)
  return resolve root archiveRel

def fileMode (perm : Nat) : Nat := if perm = 0 then backupDefaultFileMode else perm

def directoryMode (perm : Nat) : Nat := if perm = 0 then backupDefaultDirMode else perm

/-! ## Directories -/

def hexDigits (width n : Nat) : Bytes :=
  (range width).reverse.map fun i =>
    UInt8.ofNat (if n / 16 ^ i % 16 < 10 then 48 + n / 16 ^ i % 16 else 87 + n / 16 ^ i % 16)

def strconvUnixNano (nano : Int) : Bytes :=
  if nano < 0 then 0x2d :: hexDigits 35 nano.natAbs else hexDigits 36 nano.natAbs

def tempRoot (target : Path) (nano : Int) : Path :=
  resolve target.tail (dot ++ base target ++ ascii ".restore-" ++ strconvUnixNano nano)

def members (statePrefix : Bytes) (es : List ZipEntry) : List (Bytes × ZipEntry) :=
  es.filterMap fun e =>
    if statePrefix ++ [slash] <+: e.name ∧ e.name ≠ statePrefix ++ [slash] then
      some (e.name.drop (statePrefix.length + 1), e)
    else none

def restoreMember (env : Env) (root : Path) (s : FS) (m : Bytes × ZipEntry) :
    Except RestoreError FS := do
  let target ← safeRestorePath root m.1
  if m.2.isDir then
    (s.mkdirAll env.proc (directoryMode m.2.perm) target).mapError (.createDirectory target)
  else do
    let s' ← (s.mkdirAll env.proc backupDefaultDirMode target.tail).mapError
      (.createFileParent target)
    (s'.writeFile (fileMode m.2.perm) m.2.content target).mapError (.createFile target)

def restoreDirectoryPrefix (env : Env) (nano : Int) (es : List ZipEntry) (statePrefix : Bytes)
    (target : Path) (s : FS) : Except RestoreError FS := do
  let targetRoot ← validateRestoreDirectory env (text target)
  let parent ← (s.mkdirAll env.proc backupDefaultDirMode targetRoot.tail).mapError .createParent
  let temp ← (parent.mkdirAll env.proc backupDefaultDirMode (tempRoot targetRoot nano)).mapError
    .createTemp
  let filled ← (members statePrefix es).foldlM (restoreMember env (tempRoot targetRoot nano)) temp
  refuseIf (members statePrefix es = []) (.noEntries statePrefix)
  ((filled.removeAll targetRoot).rename (tempRoot targetRoot nano) targetRoot).mapError
    (.replaceTarget targetRoot)

/-! ## The topology file -/

def findTopology : Option ZipEntry → List (Bytes × ZipEntry) → Except RestoreError (Option ZipEntry)
  | found, [] => .ok found
  | found, (rel, e) :: ms =>
    if e.isDir then findTopology found ms
    else if slash ∈ rel then .error (.topologyNotSingle e.name)
    else if found.isSome then .error .manyTopologies
    else findTopology (some e) ms

def tempFile (target : Path) : Path := resolve [] (text target ++ ascii ".restore-tmp")

def removeTopology (s : FS) (target : Path) : Except RestoreError FS :=
  match s.remove target with
  | .ok s' => .ok s'
  | .error .notExist => .ok s
  | .error err => .error (.removeTopology target err)

def restoreTopologyFile (env : Env) (es : List ZipEntry) (target : Path) (s : FS) :
    Except RestoreError FS := do
  let targetPath ← validateRestoreFile env (text target)
  let found ← findTopology none (members backupTopologyPrefix es)
  let e ← require found .noTopologyFile
  let parent ← (s.mkdirAll env.proc backupDefaultDirMode targetPath.tail).mapError
    .createTopologyDirectory
  let written ← (parent.writeFile (fileMode e.perm) e.content (tempFile targetPath)).mapError
    (.createFile (tempFile targetPath))
  let removed ← removeTopology written targetPath
  (removed.rename (tempFile targetPath) targetPath).mapError (.replaceTopology targetPath)

/-! ## The command -/

def controlTarget (env : Env) (o : RestoreOptions) (archive : Path) (m : Manifest) :
    Except RestoreError (Option Path) :=
  if m.includes.controlPlaneState then do
    let target ← validateRestoreDirectory env o.controlPlaneStateDir
    refuseIf (pathWithinDirectory archive target) (.archiveInside archive target)
    return some target
  else .ok none

def restoreControl (env : Env) (nano : Int) (es : List ZipEntry) (target : Option Path) (s : FS) :
    Except RestoreError FS :=
  match target with
  | some target => restoreDirectoryPrefix env nano es backupControlPlanePrefix target s
  | none => .ok s

def runRestoreCommand (c : Codec) (env : Env) (nano nano' : Int) (o : RestoreOptions) (s : FS) :
    Except RestoreError FS := do
  let archive ← normalizedArchivePath .archiveRequired env.cwd o.archivePath
  let es ← require (openReader c s archive) .openArchive
  let manifest ← readBackupManifest c es
  validateBackupArchive es manifest
  refuseIf (manifest.includes.controlPlaneState ∧ trimSpace o.controlPlaneStateDir = [])
    .controlTargetRequired
  let config ← validateRestoreDirectory env o.configDir
  let topology ← validateRestoreFile env o.topologyPath
  refuseIf (pathWithinDirectory archive config) (.archiveInside archive config)
  let control ← controlTarget env o archive manifest
  refuseIf (o.confirm = false) .notConfirmed
  let s ← restoreDirectoryPrefix env nano es backupLocalConfigPrefix config s
  let s ← restoreTopologyFile env es topology s
  restoreControl env nano' es control s

/-! ## The members under a prefix -/

def restName (e : Path × Node Bytes) : Bytes := spell e.1 ++ if e.2.isDir then [slash] else []

theorem member_name (statePrefix : Bytes) (e : Path × Node Bytes) :
    (member statePrefix e).name = statePrefix ++ slash :: restName e := by
  obtain ⟨q, n⟩ := e
  cases n <;> simp [member, memberName, restName, Node.isDir]

variable {e : Path × Node Bytes}

theorem restName_ne_nil (h : e.1 ≠ []) : restName e ≠ [] := by
  obtain ⟨_ | ⟨x, q⟩, n⟩ := e
  · exact absurd rfl h
  · obtain ⟨b, hb⟩ := exists_spell_cons q
    simp [restName, hb, x.2.1]

section

variable {statePrefix other : Bytes} {l : List (Path × Node Bytes)}

theorem members_append (es es' : List ZipEntry) :
    members statePrefix (es ++ es') = members statePrefix es ++ members statePrefix es' :=
  filterMap_append

theorem members_map_self (hl : ∀ e ∈ l, e.1 ≠ []) :
    members statePrefix (l.map (member statePrefix)) =
      l.map fun e => (restName e, member statePrefix e) := by
  unfold members
  rw [filterMap_map, ← filterMap_eq_map]
  refine filterMap_congr fun e he => ?_
  have hne := restName_ne_nil (hl e he)
  have hcut : statePrefix ++ [slash] <+: statePrefix ++ slash :: restName e := ⟨restName e, by simp⟩
  have hrest : statePrefix ++ slash :: restName e ≠ statePrefix ++ [slash] := by simp [hne]
  simp only [comp_apply, member_name]
  rw [if_pos ⟨hcut, hrest⟩, drop_append]
  simp

theorem members_eq_nil {es : List ZipEntry} (h : ∀ e ∈ es, ¬ statePrefix ++ [slash] <+: e.name) :
    members statePrefix es = [] :=
  filterMap_eq_nil_iff.mpr fun e he => if_neg fun hcut => h e he hcut.1

theorem members_map_other (hself : slash ∉ statePrefix) (hother : slash ∉ other)
    (hne : statePrefix ≠ other) : members statePrefix (l.map (member other)) = [] := by
  refine members_eq_nil fun e he => ?_
  obtain ⟨e, -, rfl⟩ := mem_map.mp he
  rintro ⟨b, hb⟩
  rw [member_name, append_assoc, singleton_append] at hb
  -- The first element of the name is the prefix.
  have hsplit := congrArg split hb
  rw [split_append hself, split_append hother] at hsplit
  exact hne (cons.inj hsplit).1

end

theorem slash_notMem_prefixes : slash ∉ backupLocalConfigPrefix ∧ slash ∉ backupTopologyPrefix ∧
    slash ∉ backupControlPlanePrefix ∧ slash ∉ backupManifestName := by decide

section

variable {c : Codec} {a : Archive}

theorem members_manifest {statePrefix : Bytes} :
    members statePrefix [manifestMember c a.manifest] = [] := by
  refine members_eq_nil fun e he => ?_
  rw [mem_singleton] at he
  subst he
  intro hcut
  have hmem : slash ∈ backupManifestName := hcut.subset (by simp)
  exact absurd hmem slash_notMem_prefixes.2.2.2

theorem members_config (ha : ∀ e ∈ a.config, e.1 ≠ []) :
    members backupLocalConfigPrefix (a.members c) =
      a.config.map fun e => (restName e, member backupLocalConfigPrefix e) := by
  obtain ⟨hconfig, htopology, hcontrol, -⟩ := slash_notMem_prefixes
  unfold Archive.members
  rw [members_append, members_append, members_append, members_map_self ha, members_manifest,
    members_map_other hconfig hcontrol (by decide), ← map_singleton,
    members_map_other hconfig htopology (by decide)]
  simp

theorem members_control (ha : ∀ e ∈ a.control, e.1 ≠ []) :
    members backupControlPlanePrefix (a.members c) =
      a.control.map fun e => (restName e, member backupControlPlanePrefix e) := by
  obtain ⟨hconfig, htopology, hcontrol, -⟩ := slash_notMem_prefixes
  unfold Archive.members
  rw [members_append, members_append, members_append, members_map_self ha, members_manifest,
    members_map_other hcontrol hconfig (by decide), ← map_singleton,
    members_map_other hcontrol htopology (by decide)]
  simp

theorem members_topology :
    members backupTopologyPrefix (a.members c) = [(a.topologyName.1, member backupTopologyPrefix
        ([a.topologyName], .file a.topologyPerm a.topology))] := by
  obtain ⟨hconfig, htopology, hcontrol, -⟩ := slash_notMem_prefixes
  unfold Archive.members
  rw [members_append, members_append, members_append, members_manifest,
    members_map_other htopology hconfig (by decide),
    members_map_other htopology hcontrol (by decide), ← map_singleton,
    members_map_self (by simp)]
  simp [restName, Node.isDir]
  rfl

end

/-! ## One member -/

def Safe (q : Path) : Prop := (∀ x ∈ q, backslash ∉ x.1) ∧ ¬ dotdot <+: spell q

instance (q : Path) : Decidable (Safe q) := inferInstanceAs (Decidable (_ ∧ _))

def restored (proc : Process) : Node Bytes → Node Bytes
  | .dir perm _ => .dir (directoryMode perm) (proc.mayFill (directoryMode perm))
  | .file perm content => .file (fileMode perm) content
  | .link leadsTo => .link leadsTo

theorem restored_isDir (proc : Process) (n : Node Bytes) : (restored proc n).isDir = n.isDir := by
  cases n <;> rfl

theorem resolve_restName (root : Path) (h : e.1 ≠ []) :
    resolve root (restName e) = e.1 ++ root := by
  unfold restName
  split
  · exact resolve_spell_slash root h
  · rw [append_nil, resolve_spell]

theorem safeRestorePath_restName {root target : Path} (h : e.1 ≠ []) :
    safeRestorePath root (restName e) = .ok target ↔ Safe e.1 ∧ e.1 ++ root = target := by
  have hname : ascii "x/" ++ restName e = memberName (ascii "x") e.1 e.2.isDir := rfl
  have hhead : (spell e.1).head? ≠ some slash :=
    head?_join_ne_slash fun _ h => ⟨(isName_of_mem h).1, notMem_slash_of_mem h⟩
  unfold safeRestorePath
  rw [hname, resolve_restName root h, rel_append root h]
  simp only [bind_eq_ok, mapError_eq_ok, refuseIf_eq_ok, pure_eq_ok, exists_const, not_or,
    validateArchiveMemberName_memberName (by decide : IsName (ascii "x")) (by decide) h,
    spell_ne_dot h, hhead, Safe]
  simp
  tauto

section

variable {env : Env} {statePrefix : Bytes} {root q : Path} {x : Name} {s s' : FS}

theorem member_isDir (statePrefix : Bytes) (e : Path × Node Bytes) (h : e.1 ≠ []) :
    (member statePrefix e).isDir = e.2.isDir := by
  obtain ⟨q, n⟩ := e
  have hlast := getLast?_spell_ne_slash h statePrefix
  cases n <;> simp_all [member, ZipEntry.isDir, Node.isDir, memberName]

theorem restoreMember_eq_ok {n : Node Bytes} (hlink : ∀ l, n ≠ .link l) (hdir : s.IsDir (q ++ root))
    (hfree : s.node (x :: (q ++ root)) = none) :
    restoreMember env root s (restName (x :: q, n), member statePrefix (x :: q, n)) = .ok s' ↔
      Safe (x :: q) ∧ s.make x (q ++ root) (restored env.proc n) = .ok s' := by
  have hne : ((x :: q, n) : Path × Node Bytes).1 ≠ [] := cons_ne_nil x q
  have hmake : ∀ target, target = x :: (q ++ root) → ((if n.isDir = true then
          (s.mkdirAll env.proc (directoryMode (member statePrefix (x :: q, n)).perm)
            target).mapError (RestoreError.createDirectory target)
        else do
          let s₁ ← (s.mkdirAll env.proc backupDefaultDirMode target.tail).mapError
            (.createFileParent target)
          (s₁.writeFile (fileMode (member statePrefix (x :: q, n)).perm)
            (member statePrefix (x :: q, n)).content target).mapError (.createFile target)) =
        .ok s' ↔ s.make x (q ++ root) (restored env.proc n) = .ok s') := by
    rintro target rfl
    cases n with
    | link leadsTo => exact absurd rfl (hlink leadsTo)
    | dir perm ok =>
      simp only [Node.isDir, if_true, mapError_eq_ok, mkdirAll_child hdir hfree]
      rfl
    | file perm content =>
      simp only [Node.isDir, Bool.false_eq_true, if_false, bind_eq_ok, mapError_eq_ok,
        tail_cons, mkdirAll_of_isDir hdir, Except.ok.injEq, exists_eq_left',
        writeFile_new hfree]
      rfl
  simp only [restoreMember, bind_eq_ok, safeRestorePath_restName hne,
    member_isDir statePrefix _ hne]
  constructor
  · rintro ⟨target, ⟨hsafe, htarget⟩, h⟩
    exact ⟨hsafe, (hmake target htarget.symm).mp h⟩
  · rintro ⟨hsafe, h⟩
    exact ⟨x :: (q ++ root), ⟨hsafe, rfl⟩, (hmake _ rfl).mpr h⟩

variable {perm : Nat} {ok : Bool}

theorem foldlM_restoreMember_eq_ok {s₀ : FS}
    {done l : List (Path × Node Bytes)} (hl : Listing (done ++ l))
    (hlink : ∀ q leadsTo, (q, .link leadsTo) ∉ l) (hroot : s₀.node root = some (.dir perm ok))
    (h : Filled s₀ root (done.map fun e => (e.1, restored env.proc e.2)) s) :
    (l.map fun e => (restName e, member statePrefix e)).foldlM (restoreMember env root) s = .ok s' ↔
      (∀ e ∈ l, Safe e.1) ∧
        fill root (l.map fun e => (e.1, restored env.proc e.2)) s = .ok s' := by
  induction l generalizing done s with
  | nil => simp [fill, pure, Except.pure]
  | cons e l ih =>
    obtain ⟨_ | ⟨x, q⟩, n⟩ := e
    · exact absurd rfl (hl.ne_nil ([], n) (mem_append_right _ mem_cons_self))
    · have hl' := hl.map (restored_isDir env.proc)
      rw [map_append, map_cons] at hl'
      obtain ⟨perm', ok', hnode, -⟩ := h.parent hl' hroot
      have hn : ∀ leadsTo, n ≠ .link leadsTo := by
        rintro leadsTo rfl
        exact hlink (x :: q) leadsTo mem_cons_self
      have hstep : ∀ s₁, restoreMember env root s
          (restName (x :: q, n), member statePrefix (x :: q, n)) = .ok s₁ ↔
            Safe (x :: q) ∧ s.make x (q ++ root) (restored env.proc n) = .ok s₁ := fun _ =>
        restoreMember_eq_ok hn ⟨perm', ok', hnode⟩ (h.free hl')
      have hrest : ∀ s₁, s.make x (q ++ root) (restored env.proc n) = .ok s₁ →
          ((l.map fun e => (restName e, member statePrefix e)).foldlM (restoreMember env root)
              s₁ = .ok s' ↔ (∀ e ∈ l, Safe e.1) ∧
              fill root (l.map fun e => (e.1, restored env.proc e.2)) s₁ =
                .ok s') := by
        intro s₁ hmake
        have hdone := h.snoc hmake
        have hmap : (done.map fun e => (e.1, restored env.proc e.2)) ++
            [(x :: q, restored env.proc n)] =
              (done ++ [(x :: q, n)]).map fun e => (e.1, restored env.proc e.2) := by simp
        rw [hmap] at hdone
        refine ih ?_ (fun q leadsTo hmem => hlink q leadsTo (mem_cons_of_mem _ hmem)) hdone
        rwa [append_assoc, singleton_append]
      rw [map_cons, foldlM_cons, bind_eq_ok, map_cons, fill, bind_eq_ok,
        forall_mem_cons]
      constructor
      · rintro ⟨s₁, hm, hfold⟩
        obtain ⟨hsafe, hmake⟩ := (hstep s₁).mp hm
        obtain ⟨hall, hfill⟩ := (hrest s₁ hmake).mp hfold
        exact ⟨⟨hsafe, hall⟩, s₁, hmake, hfill⟩
      · rintro ⟨⟨hsafe, hall⟩, s₁, hmake, hfill⟩
        exact ⟨s₁, (hstep s₁).mpr ⟨hsafe, hmake⟩, (hrest s₁ hmake).mpr ⟨hall, hfill⟩⟩

end

/-! ## Temporary names -/

theorem slash_notMem_hexDigits (width n : Nat) : slash ∉ hexDigits width n := by
  intro h
  obtain ⟨i, -, hi⟩ := mem_map.mp h
  have hdigit : ∀ d < 16, UInt8.ofNat (if d < 10 then 48 + d else 87 + d) ≠ slash := by decide
  exact hdigit (n / 16 ^ i % 16) (Nat.mod_lt _ (by decide)) hi

theorem slash_notMem_strconvUnixNano (nano : Int) : slash ∉ strconvUnixNano nano := by
  unfold strconvUnixNano
  split
  · rw [mem_cons, not_or]
    exact ⟨by decide, slash_notMem_hexDigits 35 _⟩
  · exact slash_notMem_hexDigits 36 _

theorem isName_of_length {b : Bytes} (hlength : 2 < b.length) (hslash : slash ∉ b) : IsName b := by
  refine ⟨?_, ?_, ?_, hslash⟩ <;> rintro rfl <;> simp [dot, dotdot] at hlength

theorem exists_tempRoot (y : Name) (p : Path) (nano : Int) :
    ∃ z, tempRoot (y :: p) nano = z :: p ∧ z ≠ y := by
  have hlength : y.1.length + 10 ≤
      (dot ++ y.1 ++ ascii ".restore-" ++ strconvUnixNano nano).length := by
    simp only [length_append, length_ascii]
    have hnine : (".restore-".toList).length = 9 := by decide
    have hone : dot.length = 1 := rfl
    omega
  have hslash : slash ∉ dot ++ y.1 ++ ascii ".restore-" ++ strconvUnixNano nano := by
    have hdot : slash ∉ dot := by decide
    have hword : slash ∉ ascii ".restore-" := by decide
    simp [hdot, hword, y.2.2.2.2, slash_notMem_strconvUnixNano nano]
  refine ⟨⟨_, isName_of_length (by omega) hslash⟩, resolve_name p _, ?_⟩
  intro heq
  have hsame := congrArg (fun x : Name => x.1.length) heq
  dsimp only at hsame
  omega

theorem exists_tempFile (y : Name) (p : Path) : ∃ z, tempFile (y :: p) = z :: p ∧ z ≠ y := by
  have hlength : y.1.length + 12 ≤ (y.1 ++ ascii ".restore-tmp").length := by
    simp only [length_append, length_ascii]
    have htwelve : (".restore-tmp".toList).length = 12 := by decide
    omega
  have hslash : slash ∉ y.1 ++ ascii ".restore-tmp" := by
    have hword : slash ∉ ascii ".restore-tmp" := by decide
    simp [hword, y.2.2.2.2]
  obtain ⟨b, hb⟩ := exists_spell_cons p
  refine ⟨⟨_, isName_of_length (by omega) hslash⟩, ?_, ?_⟩
  · have htext : text (y :: p) ++ ascii ".restore-tmp" =
        text (⟨_, isName_of_length (by omega) hslash⟩ :: p) := by
      rw [text, text, hb, hb]
      simp
    rw [tempFile, htext, resolve_text]
  · intro heq
    have hsame := congrArg (fun x : Name => x.1.length) heq
    dsimp only at hsame
    omega

/-! ## Directories -/

structure Target (s : FS) (target : Path) : Prop where
  trimmed : trimSpace (text target) = text target
  free : s.node target = none
  room : s.Room target

structure DirTarget (env : Env) (s : FS) (nano : Int) (target : Path) : Prop
    extends Target s target where
  notHome : env.home.map (abs env.cwd) ≠ some target
  tempFree : s.node (tempRoot target nano) = none

theorem Target.exists_cons {s : FS} {target : Path} (h : Target s target) :
    ∃ y p, target = y :: p := by
  cases target with
  | nil => exact h.room.elim
  | cons y p => exact ⟨y, p, rfl⟩

section

variable {env : Env} {s s' parent temp filled : FS} {y z : Name} {p : Path}

theorem not_suffix_of_ne (hne : z ≠ y) (r : Path) : ¬ y :: p <:+ r ++ z :: p := by
  intro h
  have hsuffix : y :: p <:+ z :: p :=
    suffix_of_suffix_length_le h (suffix_append r (z :: p)) (by simp)
  exact hne (cons.inj (hsuffix.eq_of_length (by simp))).1.symm

theorem not_suffix_tail (q : List Name) : ¬ y :: q <:+ q := fun h => absurd h.length_le (by simp)

variable {perm : Nat}

theorem withDirs_below (hfree : s.node (z :: p) = none) (r : Path) :
    s.withDirs env.proc perm p (r ++ z :: p) = none := by
  have hout : ¬ r ++ z :: p <:+ p := fun h => absurd h.length_le (by simp; omega)
  rw [withDirs, if_neg fun h => hout h.1]
  exact node_below_none hfree r

theorem mkdirAll_next (hroom : s.Room (y :: p)) (hfree : s.node (z :: p) = none)
    (hparent : s.mkdirAll env.proc perm p = .ok parent) :
    parent.mkdirAll env.proc perm (z :: p) = parent.make z p (.dir perm (env.proc.mayFill perm)) ∧
      parent.node = s.withDirs env.proc perm p ∧ parent.node (z :: p) = none := by
  have hnode := mkdirAll_eq_ok hparent
  have hdir : parent.IsDir p := by
    unfold IsDir
    rw [hnode, withDirs]
    rcases hroom with ⟨perm', hfill⟩ | ⟨hnone, -⟩
    · exact ⟨perm', true, by rw [if_neg fun h => by simp [hfill] at h, hfill]⟩
    · exact ⟨perm, _, if_pos ⟨suffix_refl p, hnone⟩⟩
  have hfree' : parent.node (z :: p) = none := by
    rw [hnode, withDirs, if_neg fun h => not_suffix_tail p h.1, hfree]
  exact ⟨mkdirAll_child hdir hfree', hnode, hfree'⟩

end

def Restorable (proc : Process) (l : List (Path × Node Bytes)) : Prop :=
  l ≠ [] ∧ (∀ e ∈ l, Safe e.1) ∧ ∀ x q n, (x :: q, n) ∈ l →
    Ready (proc.mayFill backupDefaultDirMode)
      (l.map fun e => (e.1, restored proc e.2)) q

/-- `s'` is `s` except at and below `target`. -/
def Beside (proc : Process) (s : FS) (target : Path) (s' : FS) : Prop :=
  ∀ p, ¬ target <:+ p → s'.node p = s.withDirs proc backupDefaultDirMode target.tail p

structure Contains (proc : Process) (s : FS) (target : Path) (l : List (Path × Node Bytes)) :
    Prop where
  isDir : s.IsDir target
  below : ∀ q n, q ≠ [] →
    (s.node (q ++ target) = some n ↔ (q, n) ∈ l.map fun e => (e.1, restored proc e.2))

theorem beside_of_rename {env : Env} {s s' filled : FS} {y z : Name} {p : Path}
    (hfree : s.node (z :: p) = none) (hfilled : ∀ r, ¬ y :: p <:+ r → ¬ z :: p <:+ r →
      filled.node r = s.withDirs env.proc backupDefaultDirMode p r)
    (h : filled.rename (z :: p) (y :: p) = .ok s') : Beside env.proc s (y :: p) s' := by
  intro r hr
  rw [(rename_eq_ok h).2 r hr]
  split
  · next hsuffix =>
      obtain ⟨q, rfl⟩ := hsuffix
      exact (withDirs_below hfree q).symm
  · next hout => exact hfilled r hr hout

section

variable {env : Env} {nano : Int} {es : List ZipEntry} {statePrefix : Bytes} {target : Path}
  {s s' : FS} {l : List (Path × Node Bytes)}

theorem restoreDirectoryPrefix_iff (ht : DirTarget env s nano target)
    (hmembers : members statePrefix es = l.map fun e => (restName e, member statePrefix e)) :
    restoreDirectoryPrefix env nano es statePrefix target s = .ok s' ↔
      ∃ parent, s.mkdirAll env.proc backupDefaultDirMode target.tail = .ok parent ∧
      ∃ temp, parent.mkdirAll env.proc backupDefaultDirMode (tempRoot target nano) = .ok temp ∧
      ∃ filled, (l.map fun e => (restName e, member statePrefix e)).foldlM
          (restoreMember env (tempRoot target nano)) temp = .ok filled ∧
        l ≠ [] ∧ (filled.removeAll target).rename (tempRoot target nano) target = .ok s' := by
  have hne : target ≠ [] := by
    obtain ⟨y, p, rfl⟩ := ht.exists_cons
    exact cons_ne_nil y p
  unfold restoreDirectoryPrefix validateRestoreDirectory rejectDangerousRestoreTarget
  rw [ht.trimmed, abs_text, hmembers]
  simp only [bind_eq_ok, refuseIf_eq_ok, pure_eq_ok, mapError_eq_ok, exists_const, hne, ht.notHome,
    not_false_eq_true, true_and, exists_eq_left', map_eq_nil_iff]

theorem node_temp {parent temp : FS} {z : Name} {p : Path} {n : Node Bytes}
    (htemp : parent.make z p n = .ok temp) :
    temp.node (z :: p) = some n ∧ ∀ q, q ≠ [] → temp.node (q ++ z :: p) = none := by
  obtain ⟨hfree, -, hnode⟩ := make_eq_ok htemp
  rw [hnode]
  refine ⟨update_self .., fun q hq => ?_⟩
  have hne : q ++ z :: p ≠ z :: p := fun h => hq (append_left_eq_self.mp h)
  rw [update_of_ne hne]
  exact node_below_none hfree q

variable (ht : DirTarget env s nano target) (hl : Listing l)
  (hlink : ∀ q leadsTo, (q, .link leadsTo) ∉ l)
  (hmembers : members statePrefix es = l.map fun e => (restName e, member statePrefix e))

include ht hl hlink hmembers

theorem restoreDirectoryPrefix_eq_ok
    (h : restoreDirectoryPrefix env nano es statePrefix target s = .ok s') :
    Restorable env.proc l ∧ Contains env.proc s' target l ∧ Beside env.proc s target s' := by
  obtain ⟨parent, hparent, temp, htemp, filled, hfilled, hne, hrename⟩ :=
    (restoreDirectoryPrefix_iff ht hmembers).mp h
  obtain ⟨y, p, rfl⟩ := ht.exists_cons
  obtain ⟨z, hz, hzy⟩ := exists_tempRoot y p nano
  have htempFree := ht.tempFree
  rw [hz] at htemp hfilled hrename htempFree
  obtain ⟨hmake, hparentNode, hparentFree⟩ := mkdirAll_next ht.room htempFree hparent
  rw [hmake] at htemp
  obtain ⟨htempRoot, htempBelow⟩ := node_temp htemp
  obtain ⟨-, -, htempNode⟩ := make_eq_ok htemp
  have hl' : Listing ([] ++ l) := hl
  obtain ⟨hsafe, hfill⟩ :=
    (foldlM_restoreMember_eq_ok hl' hlink htempRoot (.refl htempBelow)).mp hfilled
  have hready := (exists_fill_iff (hl.map (restored_isDir env.proc)) htempRoot
    htempBelow).mp ⟨filled, hfill⟩
  have hdone : Filled temp (z :: p) (l.map fun e => (e.1, restored env.proc e.2))
      filled := (Filled.refl htempBelow).of_fill hfill
  have hunder := (rename_eq_ok hrename).1
  have hbelow : ∀ q, s'.node (q ++ y :: p) = filled.node (q ++ z :: p) := by
    intro q
    rw [hunder, node_removeAll]
    exact if_neg (not_suffix_of_ne hzy q)
  refine ⟨⟨hne, hsafe, fun x q n hmem => ?_⟩, ⟨?_, fun q n hq => ?_⟩,
    beside_of_rename htempFree (fun r hr hout => ?_) hrename⟩
  · exact hready x q (restored env.proc n) (mem_map.mpr ⟨_, hmem, rfl⟩)
  · exact ⟨_, _, (hbelow []).trans (hdone.node_root.trans htempRoot)⟩
  · rw [hbelow]
    exact hdone.node_eq_some (hl.map (restored_isDir env.proc)).nodup hq
  · have hfar : ∀ q, q ≠ [] → r ≠ q ++ z :: p := by
      rintro q - rfl
      exact hout ⟨q, rfl⟩
    have hnot : r ≠ z :: p := by
      rintro rfl
      exact hout (suffix_refl _)
    rw [node_removeAll]
    dsimp only
    rw [if_neg hr, hdone.elsewhere r hfar, htempNode, update_of_ne hnot, hparentNode]

theorem exists_restoreDirectoryPrefix (h : Restorable env.proc l) :
    ∃ s', restoreDirectoryPrefix env nano es statePrefix target s = .ok s' := by
  obtain ⟨hne, hsafe, hready⟩ := h
  obtain ⟨y, p, rfl⟩ := ht.exists_cons
  obtain ⟨z, hz, hzy⟩ := exists_tempRoot y p nano
  have htempFree := ht.tempFree
  rw [hz] at htempFree
  -- Something is restored into the new directory, so one with the default mode can be filled.
  have hfill : env.proc.mayFill backupDefaultDirMode = true := by
    obtain ⟨x, n, hmem⟩ := hl.first hne
    exact (hready x [] n hmem).1 rfl
  obtain ⟨parent, hparent, hparentFill⟩ := exists_mkdirAll ht.room hfill
  obtain ⟨hmake, hparentNode, hparentFree⟩ := mkdirAll_next ht.room htempFree hparent
  obtain ⟨temp, htemp⟩ := exists_make hparentFree hparentFill
    (.dir backupDefaultDirMode (env.proc.mayFill backupDefaultDirMode))
  obtain ⟨htempRoot, htempBelow⟩ := node_temp htemp
  obtain ⟨-, -, htempNode⟩ := make_eq_ok htemp
  obtain ⟨filled, hfilled⟩ := (exists_fill_iff (hl.map (restored_isDir env.proc))
    htempRoot htempBelow).mpr fun x q n hmem => by
      obtain ⟨⟨q', n'⟩, hmem', heq⟩ := mem_map.mp hmem
      obtain ⟨rfl, -⟩ := Prod.mk.inj heq
      exact hready x q n' hmem'
  have hdone : Filled temp (z :: p) (l.map fun e => (e.1, restored env.proc e.2))
      filled := (Filled.refl htempBelow).of_fill hfilled
  obtain ⟨s', hs'⟩ : ∃ s', (filled.removeAll (y :: p)).rename (z :: p) (y :: p) = .ok s' := by
    have hfilledFill : (filled.removeAll (y :: p)).Fillable p := by
      obtain ⟨perm, hperm⟩ := hparentFill
      refine ⟨perm, ?_⟩
      have hfar : ∀ q, q ≠ [] → p ≠ q ++ z :: p := fun q _ h =>
        absurd (congrArg length h) (by simp; omega)
      rw [node_removeAll]
      dsimp only
      rw [if_neg (not_suffix_tail p), hdone.elsewhere p hfar, htempNode,
        update_of_ne (by simp), hperm]
    refine exists_rename ?_ (not_suffix_tail p) ?_ hfilledFill hfilledFill
    · have hapart : ¬ y :: p <:+ z :: p := not_suffix_of_ne hzy []
      rw [node_removeAll]
      dsimp only
      rw [if_neg hapart, hdone.node_root, htempRoot]
      simp
    · rw [node_removeAll]
      exact if_pos (suffix_refl _)
  refine ⟨s', (restoreDirectoryPrefix_iff ht hmembers).mpr
    ⟨parent, hparent, temp, ?_, filled, ?_, hne, ?_⟩⟩
  · rw [hz, hmake, htemp]
  · rw [hz]
    have hl' : Listing ([] ++ l) := hl
    exact (foldlM_restoreMember_eq_ok hl' hlink htempRoot (.refl htempBelow)).mpr ⟨hsafe, hfilled⟩
  · rw [hz, hs']

end

/-! ## The topology file -/

structure FileTarget (s : FS) (target : Path) : Prop extends Target s target where
  tempFree : s.node (tempFile target) = none

section

variable {env : Env} {s : FS} {target : Path} {c : Codec} {a : Archive}

theorem findTopology_members :
    findTopology none (members backupTopologyPrefix (a.members c)) =
      .ok (some (member backupTopologyPrefix
        ([a.topologyName], .file a.topologyPerm a.topology))) := by
  have hisDir := member_isDir backupTopologyPrefix
    ([a.topologyName], .file a.topologyPerm a.topology) (cons_ne_nil _ _)
  rw [members_topology, findTopology, hisDir]
  simp only [Node.isDir, Bool.false_eq_true, if_false, a.topologyName.2.2.2.2, Option.isSome_none]
  rfl

theorem exists_restoreTopologyFile (ht : FileTarget s target)
    (hfill : env.proc.mayFill backupDefaultDirMode = true) :
    ∃ s', restoreTopologyFile env (a.members c) target s = .ok s' ∧
      s'.node target = some (.file (fileMode a.topologyPerm) a.topology) ∧
      Beside env.proc s target s' := by
  obtain ⟨y, p, rfl⟩ := ht.exists_cons
  obtain ⟨z, hz, hzy⟩ := exists_tempFile y p
  have htempFree := ht.tempFree
  rw [hz] at htempFree
  obtain ⟨parent, hparent, hparentFill⟩ := exists_mkdirAll ht.room hfill
  obtain ⟨-, hparentNode, hparentFree⟩ := mkdirAll_next ht.room htempFree hparent
  obtain ⟨written, hwritten⟩ := exists_make hparentFree hparentFill
    (.file (fileMode a.topologyPerm) a.topology)
  obtain ⟨-, -, hwrittenNode⟩ := make_eq_ok hwritten
  have hfree : written.node (y :: p) = none := by
    have hne : y :: p ≠ z :: p := fun h => hzy (cons.inj h).1.symm
    rw [hwrittenNode, update_of_ne hne, hparentNode]
    exact withDirs_below ht.free []
  have hfillable : written.Fillable p := by
    obtain ⟨perm, hperm⟩ := hparentFill
    exact ⟨perm, by rw [hwrittenNode, update_of_ne (by simp), hperm]⟩
  have hexists : written.node (z :: p) ≠ none := by
    rw [hwrittenNode, update_self]
    simp
  obtain ⟨s', hs'⟩ := exists_rename hexists (not_suffix_tail p) hfree hfillable hfillable
  have hunder := (rename_eq_ok hs').1
  refine ⟨s', ?_, ?_, beside_of_rename htempFree (fun r _ hout => ?_) hs'⟩
  · have hremove : removeTopology written (y :: p) = .ok written := by
      rw [removeTopology, remove, if_pos hfree]
    simp only [restoreTopologyFile, validateRestoreFile, ht.trimmed, abs_text, findTopology_members,
      bind_eq_ok, refuseIf_eq_ok, require_eq_ok, pure_eq_ok, mapError_eq_ok, exists_const]
    refine ⟨y :: p, ⟨cons_ne_nil _ _, rfl⟩, _, rfl, _, rfl, parent, hparent, written, ?_,
      written, hremove, ?_⟩
    · rw [hz, writeFile_new hparentFree]
      exact hwritten
    · rw [hz, hs']
  · refine (hunder []).trans ?_
    rw [nil_append, hwrittenNode, update_self]
  · have hnot : r ≠ z :: p := by
      rintro rfl
      exact hout (suffix_refl _)
    rw [hwrittenNode, update_of_ne hnot, hparentNode]

end

end AwgMesh.MeshCtl.Backup
