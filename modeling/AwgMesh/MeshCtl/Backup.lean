import AwgMesh.Lib.Filling
import AwgMesh.PathText

/-!
# The backup archive

The archive format of `cmd/mesh-ctl/cmd/backup.go`: a zip file with the members of the config
directory under `local-config/`, the topology file under `topology/`, those of the control-plane
directory under `control-plane-state/`, and a manifest.
-/

namespace AwgMesh.MeshCtl.Backup

open Lib Lib.Checks ByteText PathText FileSystem Function List

abbrev FS := FileSystem Name Bytes

def backupArchiveFormat : String := "awg-mesh-backup"

def backupArchiveVersion : Int := 1

def backupManifestName : Bytes := ascii "manifest.json"

def backupLocalConfigPrefix : Bytes := ascii "local-config"

def backupTopologyPrefix : Bytes := ascii "topology"

def backupControlPlanePrefix : Bytes := ascii "control-plane-state"

def backupDefaultFileMode : Nat := 0o600

def backupDefaultDirMode : Nat := 0o700

structure ZipEntry where
  name : Bytes
  dirBit : Bool
  perm : Nat
  content : Bytes

def ZipEntry.isDir (e : ZipEntry) : Bool := e.dirBit || e.name.getLast? = some slash

structure Includes where
  localConfig : Bool
  topology : Bool
  controlPlaneState : Bool

structure Summary where
  statePrefix : Bytes
  sourcePath : Path
  fileCount : Nat
  byteCount : Nat

structure Manifest where
  format : String
  version : Int
  createdAtUnix : Int
  configDir : Path
  topologyPath : Path
  includes : Includes
  entries : List Summary

structure Codec where
  zip : List ZipEntry → Bytes
  unzip : Bytes → Option (List ZipEntry)
  marshal : Manifest → Bytes
  unmarshal : Bytes → Option Manifest

structure Codec.Faithful (c : Codec) : Prop where
  unzip_zip : ∀ es, c.unzip (c.zip es) = some es
  unmarshal_marshal : ∀ m, ∃ m', c.unmarshal (c.marshal m) = some m' ∧ m'.format = m.format ∧
    m'.version = m.version ∧ m'.includes = m.includes

/-! ## Names of members -/

inductive MemberError where
  | empty
  | notPortable (name : Bytes)
  | notSafe (name : Bytes)
  | missingPrefix (name : Bytes)

def trimSlash (name : Bytes) : Bytes := if name.getLast? = some slash then name.dropLast else name

def validateArchiveMemberName (name : Bytes) : Except MemberError Bytes := do
  refuseIf (trimSpace name = []) .empty
  refuseIf (name.head? = some slash ∨ backslash ∈ name) (.notPortable name)
  refuseIf (clean (trimSlash name) = dot ∨ clean (trimSlash name) ≠ trimSlash name ∨
    ascii "../" <+: clean (trimSlash name) ∨ clean (trimSlash name) = dotdot) (.notSafe name)
  refuseIf ((split (clean (trimSlash name))).length < 2) (.missingPrefix name)
  return (split (clean (trimSlash name))).headD []

def archivePath (statePrefix rel : Bytes) : Bytes := statePrefix ++ slash :: clean rel

def memberName (statePrefix : Bytes) (q : Path) (isDir : Bool) : Bytes :=
  statePrefix ++ slash :: spell q ++ if isDir then [slash] else []

theorem archivePath_spell (statePrefix : Bytes) {q : Path} (hq : q ≠ []) :
    archivePath statePrefix (spell q) = statePrefix ++ slash :: spell q := by
  rw [archivePath, spell, clean_join (map_val_ne_nil hq) fun _ => isName_of_mem]

section

variable {statePrefix : Bytes} {q : Path}

def memberElements (statePrefix : Bytes) (q : Path) : List Bytes :=
  statePrefix :: q.reverse.map Subtype.val

theorem join_memberElements (hq : q ≠ []) :
    join (memberElements statePrefix q) = statePrefix ++ slash :: spell q := by
  obtain ⟨e, es, hes⟩ := exists_cons_of_ne_nil (map_val_ne_nil hq)
  rw [memberElements, spell, hes]
  rfl

theorem getLast?_spell_ne_slash (hq : q ≠ []) (b : Bytes) :
    (b ++ slash :: spell q).getLast? ≠ some slash := by
  obtain ⟨x, q, rfl⟩ := exists_cons_of_ne_nil hq
  obtain ⟨hx, -, -, hslash⟩ := x.2
  obtain ⟨b', hb'⟩ := exists_spell_cons q
  rw [hb', ← cons_append, ← append_assoc, getLast?_append_of_ne_nil _ hx]
  exact fun h => hslash (mem_of_getLast? h)

theorem trimSlash_memberName (hq : q ≠ []) (isDir : Bool) :
    trimSlash (memberName statePrefix q isDir) = statePrefix ++ slash :: spell q := by
  cases isDir with
  | false =>
    rw [memberName, if_neg Bool.false_ne_true, append_nil, trimSlash,
      if_neg (getLast?_spell_ne_slash hq statePrefix)]
  | true => rw [memberName, if_pos rfl, trimSlash, if_pos getLast?_concat,
      dropLast_concat]

theorem backslash_mem_memberName {isDir : Bool} (hpfx : backslash ∉ statePrefix) :
    backslash ∈ memberName statePrefix q isDir ↔ ∃ x ∈ q, backslash ∈ x.1 := by
  have hne : backslash ≠ slash := by decide
  have hend : backslash ∉ if isDir then [slash] else [] := by cases isDir <;> decide
  rw [memberName, mem_append, mem_append, mem_cons, spell, mem_join hne]
  simp [hpfx, hend, hne]

variable (hpfx : IsName statePrefix)

include hpfx

theorem isName_of_mem_memberElements {e : Bytes} (he : e ∈ memberElements statePrefix q)
    : IsName e := by
  rcases mem_cons.mp he with rfl | he
  · exact hpfx
  · exact isName_of_mem he

theorem clean_memberElements (hq : q ≠ []) :
    clean (statePrefix ++ slash :: spell q) = statePrefix ++ slash :: spell q := by
  have hne : memberElements statePrefix q ≠ [] := cons_ne_nil _ _
  rw [← join_memberElements hq, clean_join hne fun _ => isName_of_mem_memberElements hpfx]

theorem split_memberElements (hq : q ≠ []) :
    split (statePrefix ++ slash :: spell q) = memberElements statePrefix q := by
  have hne : memberElements statePrefix q ≠ [] := cons_ne_nil _ _
  rw [← join_memberElements hq, split_join hne]
  exact fun e he => (isName_of_mem_memberElements hpfx he).2.2.2

theorem member_stays (hq : q ≠ []) :
    statePrefix ++ slash :: spell q ≠ dot ∧ ¬ ascii "../" <+: statePrefix ++ slash :: spell q ∧
      statePrefix ++ slash :: spell q ≠ dotdot := by
  have hmem : slash ∈ statePrefix ++ slash :: spell q := by simp
  have hdots : slash ∉ dotdot := by decide
  refine ⟨?_, ?_, ?_⟩
  · intro h
    rw [h] at hmem
    exact absurd hmem (by decide)
  · -- Otherwise its first element would be two dots.
    rintro ⟨rest, h⟩
    have hfirst := congrArg split h.symm
    rw [split_memberElements hpfx hq] at hfirst
    exact hpfx.2.2.1 (cons.inj (hfirst.trans (split_append hdots rest))).1
  · intro h
    rw [h] at hmem
    exact hdots hmem

theorem validateArchiveMemberName_memberName (hback : backslash ∉ statePrefix) (hq : q ≠ [])
    (isDir : Bool) (e : Bytes) :
    validateArchiveMemberName (memberName statePrefix q isDir) = .ok e ↔
      (∀ x ∈ q, backslash ∉ x.1) ∧ statePrefix = e := by
  have hspace : trimSpace (memberName statePrefix q isDir) ≠ [] :=
    ne_nil_of_mem (mem_trimSpace (c := slash) (by decide) (by simp [memberName]))
  have hhead : (memberName statePrefix q isDir).head? ≠ some slash := by
    obtain ⟨c, rest, rfl⟩ := exists_cons_of_ne_nil hpfx.1
    have hc := hpfx.2.2.2
    rw [mem_cons, not_or] at hc
    simpa [memberName] using Ne.symm hc.1
  have hparts : ¬ (memberElements statePrefix q).length < 2 := by
    have hpos : 0 < q.length := length_pos_iff.mpr hq
    rw [memberElements, length_cons, length_map, length_reverse]
    omega
  have hnone : backslash ∉ memberName statePrefix q isDir ↔ ∀ x ∈ q, backslash ∉ x.1 := by
    rw [backslash_mem_memberName hback]
    simp only [not_exists, not_and]
  obtain ⟨hdot, hout, hdotdot⟩ := member_stays hpfx hq
  unfold validateArchiveMemberName
  rw [trimSlash_memberName hq, clean_memberElements hpfx hq, split_memberElements hpfx hq]
  simp only [bind_eq_ok, refuseIf_eq_ok, pure_eq_ok, exists_const, not_or, hnone, hspace, hhead,
    hdot, hout, hdotdot, hparts, ne_eq, not_true_eq_false, not_false_eq_true, true_and, and_true]
  rfl

end

/-!
## `mesh-ctl backup`

`runBackupCommand` of `cmd/mesh-ctl/cmd/backup.go` as a function on file systems.
-/

/-! ## The command -/

structure BackupOptions where
  archivePath : Bytes
  topologyPath : Bytes
  configDir : Bytes
  controlPlaneStateDir : Bytes

structure Env where
  cwd : Path
  home : Option Bytes
  proc : Process
  readable : Path → Bool

inductive SourceError where
  | walk (path : Path) (err : OsError)
  | stat (path : Path) (err : OsError)
  | read (path : Path) (err : OsError)
  | symlink (path : Path)
  | directory (path : Path)

inductive BackupError where
  | archiveRequired
  | required (label : Bytes) (path : Path) (err : OsError)
  | notDirectory (label : Bytes) (path : Path)
  | isDirectory (label : Bytes) (path : Path)
  | createArchiveDirectory (err : OsError)
  | createArchive (err : OsError)
  | addDirectory (root : Path) (err : SourceError)
  | addFile (err : SourceError)

def normalizedArchivePath {ε : Type} (required : ε) (cwd : Path) (raw : Bytes) : Except ε Path := do
  refuseIf (trimSpace raw = []) required
  return abs cwd (trimSpace raw)

def stat (s : FS) (p : Path) : Option Bool :=
  match s.node p with
  | none => none
  | some (.dir ..) => some true
  | some (.file ..) => some false
  | some (.link leadsTo) => leadsTo

def requireExistingDir (cwd : Path) (s : FS) (raw label : Bytes) : Except BackupError Path := do
  let p := abs cwd (trimSpace raw)
  let isDir ← require (stat s p) (.required label p .notExist)
  refuseIf (isDir = false) (.notDirectory label p)
  return p

def requireExistingFile (cwd : Path) (s : FS) (raw label : Bytes) : Except BackupError Path := do
  let p := abs cwd (trimSpace raw)
  let isDir ← require (stat s p) (.required label p .notExist)
  refuseIf (isDir = true) (.isDirectory label p)
  return p

def zipDirectory (name : Bytes) (perm : Nat) : ZipEntry where
  name := (name.reverse.dropWhile (· = slash)).reverse ++ [slash]
  dirBit := true
  perm := perm
  content := []

def zipFile (name : Bytes) (perm : Nat) (content : Bytes) : ZipEntry where
  name := name
  dirBit := false
  perm := perm
  content := content

def nameKey (x : Name) : List Nat := x.1.map UInt8.toNat

def visit (env : Env) (archive : Path) (statePrefix : Bytes) (root : Path)
    (acc : List ZipEntry × Summary) (current : Path × Node Bytes) :
    Except SourceError (List ZipEntry × Summary) :=
  match current.2 with
  | .link _ => .error (.symlink current.1)
  | .dir perm _ =>
    if env.readable current.1 = false then .error (.walk current.1 .permission)
    else if rel root current.1 = dot then .ok acc
    else .ok (acc.1 ++ [zipDirectory (archivePath statePrefix (rel root current.1)) perm], acc.2)
  | .file perm content =>
    if current.1 = archive then .ok acc
    else if rel root current.1 = dot then .ok acc
    else if env.readable current.1 = false then .error (.read current.1 .permission)
    else .ok (acc.1 ++ [zipFile (archivePath statePrefix (rel root current.1)) perm content],
      { acc.2 with
        fileCount := acc.2.fileCount + 1, byteCount := acc.2.byteCount + content.length })

def addDirectory (env : Env) (archive : Path) (statePrefix : Bytes) (root : Path) (s : FS) :
    Except SourceError (List ZipEntry × Summary) :=
  (s.walk nameKey root).foldlM (visit env archive statePrefix root) ([], ⟨statePrefix, root, 0, 0⟩)

def base : Path → Bytes
  | [] => [slash]
  | x :: _ => x.1

def addFile (env : Env) (statePrefix : Bytes) (source : Path) (s : FS) :
    Except SourceError (ZipEntry × Summary) :=
  match s.node source with
  | none => .error (.stat source .notExist)
  | some (.dir ..) => .error (.directory source)
  | some (.link _) => .error (.symlink source)
  | some (.file perm content) =>
    if env.readable source = false then .error (.read source .permission)
    else .ok (zipFile (archivePath statePrefix (base source)) perm content,
      ⟨statePrefix, source, 1, content.length⟩)

def addControlPlane (env : Env) (archive : Path) (raw : Bytes) (s : FS) :
    Except BackupError (List ZipEntry × List Summary) :=
  if trimSpace raw = [] then .ok ([], [])
  else do
    let root ← requireExistingDir env.cwd s raw (ascii "control-plane state directory")
    let added ← (addDirectory env archive backupControlPlanePrefix root s).mapError
      (.addDirectory root)
    return (added.1, [added.2])

def manifestMember (c : Codec) (m : Manifest) : ZipEntry :=
  zipFile backupManifestName backupDefaultFileMode (c.marshal m)

def runBackupCommand (c : Codec) (env : Env) (now : Int) (o : BackupOptions) (s : FS) :
    Except BackupError FS := do
  let archive ← normalizedArchivePath .archiveRequired env.cwd o.archivePath
  let configRoot ← requireExistingDir env.cwd s o.configDir (ascii "config directory")
  let topologyFile ← requireExistingFile env.cwd s o.topologyPath (ascii "topology file")
  let made ← (s.mkdirAll env.proc backupDefaultDirMode archive.tail).mapError
    .createArchiveDirectory
  let opened ← (made.writeFile backupDefaultFileMode [] archive).mapError .createArchive
  let config ← (addDirectory env archive backupLocalConfigPrefix configRoot opened).mapError
    (.addDirectory configRoot)
  let topology ← (addFile env backupTopologyPrefix topologyFile opened).mapError .addFile
  let control ← addControlPlane env archive o.controlPlaneStateDir opened
  let manifest : Manifest :=
    { format := backupArchiveFormat
      version := backupArchiveVersion
      createdAtUnix := now
      configDir := configRoot
      topologyPath := topologyFile
      includes := ⟨true, true, trimSpace o.controlPlaneStateDir ≠ []⟩
      entries := [config.2, topology.2] ++ control.2 }
  (opened.writeFile backupDefaultFileMode
    (c.zip (config.1 ++ [topology.1] ++ control.1 ++ [manifestMember c manifest]))
    archive).mapError .createArchive

/-! ## What the archive holds -/

def member (statePrefix : Bytes) (e : Path × Node Bytes) : ZipEntry :=
  match e.2 with
  | .dir perm _ => ⟨memberName statePrefix e.1 true, true, perm, []⟩
  | .file perm content => ⟨memberName statePrefix e.1 false, false, perm, content⟩
  | .link _ => ⟨memberName statePrefix e.1 false, false, 0, []⟩

section

variable {env : Env} {archive root : Path} {statePrefix : Bytes}

theorem rel_eq_dot_iff {p : Path} (h : root <:+ p) : rel root p = dot ↔ p = root := by
  obtain ⟨q, rfl⟩ := h
  by_cases hq : q = []
  · subst hq
    simp [rel_self]
  · rw [rel_append root hq]
    simp [spell_ne_dot hq, hq]

theorem dropWhile_slash {b : Bytes} (h : b.getLast? ≠ some slash) :
    (b.reverse.dropWhile (· = slash)).reverse = b := by
  induction b using reverseRecOn with
  | nil => rfl
  | append_singleton b c =>
    have hc : c ≠ slash := fun heq => h (by rw [heq, getLast?_concat])
    simp [hc]

theorem zipDirectory_member {q : Path} (hq : q ≠ []) (perm : Nat) (ok : Bool) :
    zipDirectory (archivePath statePrefix (spell q)) perm =
      member statePrefix (q, .dir perm ok) := by
  rw [archivePath_spell statePrefix hq]
  unfold zipDirectory member memberName
  rw [dropWhile_slash (getLast?_spell_ne_slash hq statePrefix)]
  rfl

theorem zipFile_member {q : Path} (hq : q ≠ []) (perm : Nat) (content : Bytes) :
    zipFile (archivePath statePrefix (spell q)) perm content =
      member statePrefix (q, .file perm content) := by
  rw [archivePath_spell statePrefix hq]
  unfold zipFile member memberName
  simp

theorem visit_eq_ok {acc acc' : List ZipEntry × Summary} {e : Path × Node Bytes}
    (hroot : root <:+ e.1) (harchive : e.2.isDir = true → e.1 ≠ archive)
    (h : visit env archive statePrefix root acc e = .ok acc') :
    (∀ l, e.2 ≠ .link l) ∧
      acc'.1 = acc.1 ++ (([e].filter fun e => e.1 ≠ root ∧ e.1 ≠ archive).map fun e =>
        (e.1.take (e.1.length - root.length), e.2)).map (member statePrefix) := by
  obtain ⟨p, n⟩ := e
  have hdot := rel_eq_dot_iff hroot
  obtain ⟨q, rfl⟩ := hroot
  have hne : q ++ root ≠ root → q ≠ [] := by
    rintro h rfl
    exact h rfl
  cases n with
  | link leadsTo => cases h
  | dir perm ok =>
    refine ⟨nofun, ?_⟩
    have hnot := harchive rfl
    simp only [visit, hdot] at h
    split at h
    · cases h
    split at h
    · next heq =>
        cases h
        simp [heq]
    · next hroot =>
        cases h
        rw [rel_append root (hne hroot), zipDirectory_member (hne hroot) perm ok]
        simp [hroot, hnot]
  | file perm content =>
    refine ⟨nofun, ?_⟩
    simp only [visit, hdot] at h
    split at h
    · next heq =>
        cases h
        simp [heq]
    next hnot =>
    split at h
    · next heq =>
        cases h
        simp [heq]
    next hroot =>
    split at h
    · cases h
    · cases h
      rw [rel_append root (hne hroot), zipFile_member (hne hroot)]
      simp [hroot, hnot]

theorem foldlM_visit_eq_ok {es : List (Path × Node Bytes)} {acc acc' : List ZipEntry × Summary}
    (hes : ∀ e ∈ es, root <:+ e.1 ∧ (e.2.isDir = true → e.1 ≠ archive))
    (h : es.foldlM (visit env archive statePrefix root) acc = .ok acc') :
    (∀ e ∈ es, ∀ l, e.2 ≠ .link l) ∧
      acc'.1 = acc.1 ++ ((es.filter fun e => e.1 ≠ root ∧ e.1 ≠ archive).map fun e =>
        (e.1.take (e.1.length - root.length), e.2)).map (member statePrefix) := by
  induction es generalizing acc with
  | nil =>
    cases h
    simp
  | cons e es ih =>
    rw [foldlM_cons] at h
    obtain ⟨acc₁, hvisit, hrest⟩ := bind_eq_ok.mp h
    obtain ⟨hlink, hacc₁⟩ := visit_eq_ok (hes e mem_cons_self).1 (hes e mem_cons_self).2
      hvisit
    obtain ⟨hlinks, hacc'⟩ := ih (fun d hd => hes d (mem_cons_of_mem e hd)) hrest
    refine ⟨forall_mem_cons.mpr ⟨hlink, hlinks⟩, ?_⟩
    rw [hacc', hacc₁, append_assoc, ← map_append, ← map_append,
      ← filter_append, singleton_append]

structure Lists (found : Path → Option (Node Bytes)) (root : Path) (l : List (Path × Node Bytes)) :
    Prop where
  isDir : ∃ perm ok, found root = some (.dir perm ok)
  listing : Listing l
  mem : ∀ q n, (q, n) ∈ l ↔ q ≠ [] ∧ found (q ++ root) = some n
  noLink : ∀ q leadsTo, (q, .link leadsTo) ∉ l

theorem update_none_eq_some {found : Path → Option (Node Bytes)} {p : Path} {n : Node Bytes} :
    update found archive none p = some n ↔ p ≠ archive ∧ found p = some n := by
  by_cases hp : p = archive
  · subst hp
    simp
  · simp [hp]

theorem addDirectory_eq_ok {s : FS} {added : List ZipEntry × Summary} {perm : Nat} {content : Bytes}
    (hdir : stat s root = some true) (harchive : s.node archive = some (.file perm content))
    (h : addDirectory env archive statePrefix root s = .ok added) :
    ∃ l, Lists (update s.node archive none) root l ∧
      added.1 = l.map (member statePrefix) := by
  have hskip : ¬ s.IsDir archive := by
    rintro ⟨perm', ok, hnode⟩
    rw [harchive] at hnode
    cases hnode
  have hes : ∀ e ∈ s.walk nameKey root, root <:+ e.1 ∧ (e.2.isDir = true → e.1 ≠ archive) := by
    rintro ⟨p, n⟩ hmem
    obtain ⟨hsuffix, hnode⟩ := mem_walk.mp hmem
    refine ⟨hsuffix, ?_⟩
    rintro hn rfl
    exact hskip (isDir_of_mem (node_eq_some.mp hnode) hn)
  obtain ⟨hlinks, hadded⟩ := foldlM_visit_eq_ok hes h
  -- The walk begins with the root itself, and a link there would have ended it.
  have hroot : s.IsDir root := by
    unfold stat at hdir
    split at hdir
    · cases hdir
    · next perm' ok hnode => exact ⟨perm', ok, hnode⟩
    · cases hdir
    · next leadsTo hnode =>
        exact absurd rfl (hlinks (root, .link leadsTo)
          (mem_walk.mpr ⟨suffix_refl root, hnode⟩) leadsTo)
  refine ⟨s.listing nameKey root archive,
    ⟨?_, .of_walk hskip, fun q n => ?_, fun q leadsTo hmem => ?_⟩, hadded⟩
  · obtain ⟨perm', ok, hnode⟩ := hroot
    refine ⟨perm', ok, update_none_eq_some.mpr ⟨?_, hnode⟩⟩
    rintro rfl
    exact hskip ⟨perm', ok, hnode⟩
  · rw [mem_listing, update_none_eq_some]
  · obtain ⟨-, -, hnode⟩ := mem_listing.mp hmem
    exact hlinks (q ++ root, .link leadsTo) (mem_walk.mpr ⟨⟨q, rfl⟩, hnode⟩) leadsTo rfl

end

structure Archive where
  config : List (Path × Node Bytes)
  topologyName : Name
  topologyPerm : Nat
  topology : Bytes
  control : List (Path × Node Bytes)
  manifest : Manifest

def Archive.members (c : Codec) (a : Archive) : List ZipEntry :=
  a.config.map (member backupLocalConfigPrefix) ++
    [member backupTopologyPrefix ([a.topologyName], .file a.topologyPerm a.topology)] ++
    a.control.map (member backupControlPlanePrefix) ++ [manifestMember c a.manifest]

namespace BackupOptions

variable (o : BackupOptions) (cwd : Path)

def archive : Path := abs cwd (trimSpace o.archivePath)

def config : Path := abs cwd (trimSpace o.configDir)

def topology : Path := abs cwd (trimSpace o.topologyPath)

def control : Path := abs cwd (trimSpace o.controlPlaneStateDir)

def HasControl : Prop := trimSpace o.controlPlaneStateDir ≠ []

instance : Decidable o.HasControl := inferInstanceAs (Decidable (_ ≠ _))

/-- What the command finds in `s`. -/
def found (env : Env) (s : FS) : Path → Option (Node Bytes) :=
  update (s.withDirs env.proc backupDefaultDirMode (o.archive env.cwd).tail)
    (o.archive env.cwd) none

end BackupOptions

structure Holds (env : Env) (o : BackupOptions) (s : FS) (a : Archive) : Prop where
  config : Lists (o.found env s) (o.config env.cwd) a.config
  topologyName : ∃ p, o.topology env.cwd = a.topologyName :: p
  topology : o.topology env.cwd ≠ o.archive env.cwd →
    o.found env s (o.topology env.cwd) = some (.file a.topologyPerm a.topology)
  control : o.HasControl → Lists (o.found env s) (o.control env.cwd) a.control
  noControl : ¬ o.HasControl → a.control = []
  format : a.manifest.format = backupArchiveFormat
  version : a.manifest.version = backupArchiveVersion
  includes : a.manifest.includes = ⟨true, true, decide o.HasControl⟩

section

variable {c : Codec} {env : Env} {now : Int} {o : BackupOptions} {s s' made opened : FS}
  {archive p : Path}

theorem addFile_eq_ok {statePrefix : Bytes} {added : ZipEntry × Summary}
    (h : addFile env statePrefix p s = .ok added) :
    ∃ perm content, s.node p = some (.file perm content) ∧
      added.1 = zipFile (archivePath statePrefix (base p)) perm content := by
  unfold addFile at h
  split at h
  · cases h
  · cases h
  · cases h
  · next perm content hnode =>
      split at h
      · cases h
      · cases h
        exact ⟨perm, content, hnode, rfl⟩

theorem stat_opened {isDir : Bool} (hdir : stat s p = some isDir) (hisDir : isDir = true)
    (hmade : s.mkdirAll env.proc backupDefaultDirMode archive.tail = .ok made)
    (hopened : made.writeFile backupDefaultFileMode [] archive = .ok opened) :
    stat opened p = some true := by
  subst hisDir
  have hexists : s.node p ≠ none := by
    intro h
    rw [stat, h] at hdir
    cases hdir
  have hkept : made.node p = s.node p := by
    rw [mkdirAll_eq_ok hmade, withDirs, if_neg fun h => hexists h.2]
  obtain ⟨-, hfree, perm, hnode⟩ := writeFile_eq_ok hopened
  have hne : p ≠ archive := by
    rintro rfl
    rw [hkept] at hfree
    unfold stat at hdir
    rcases hfree with h | ⟨perm', old, h⟩ <;> rw [h] at hdir <;> cases hdir
  unfold stat at hdir ⊢
  rwa [hnode, update_of_ne hne, hkept]

theorem addControlPlane_eq_ok {perm : Nat} {content : Bytes}
    {added : List ZipEntry × List Summary} (harchive : s.node archive = some (.file perm content))
    (h : addControlPlane env archive o.controlPlaneStateDir s = .ok added) :
    ∃ k, added.1 = k.map (member backupControlPlanePrefix) ∧ (¬ o.HasControl → k = []) ∧
      (o.HasControl → Lists (update s.node archive none) (o.control env.cwd) k) := by
  unfold addControlPlane at h
  split at h
  · next hnone =>
      cases h
      exact ⟨[], rfl, fun _ => rfl, fun hsome => absurd hnone hsome⟩
  · next hsome =>
      simp only [requireExistingDir, bind_eq_ok, refuseIf_eq_ok, require_eq_ok, pure_eq_ok,
        mapError_eq_ok, exists_const] at h
      obtain ⟨root, ⟨isDir, hstat, hisDir, rfl⟩, pair, hadd, rfl⟩ := h
      rw [Bool.eq_true_of_not_eq_false hisDir] at hstat
      obtain ⟨k, hk, hmembers⟩ := addDirectory_eq_ok hstat harchive hadd
      exact ⟨k, hmembers, fun hnone => absurd hsome hnone, fun _ => hk⟩

theorem runBackupCommand_eq_ok (h : runBackupCommand c env now o s = .ok s') :
    ∃ a perm, Holds env o s a ∧
      s'.node (o.archive env.cwd) = some (.file perm (c.zip (a.members c))) := by
  simp only [runBackupCommand, normalizedArchivePath, requireExistingDir, requireExistingFile,
    bind_eq_ok, refuseIf_eq_ok, require_eq_ok, pure_eq_ok, mapError_eq_ok, exists_const] at h
  obtain ⟨archive, ⟨-, rfl⟩, config, ⟨isDir, hconfig, hisDir, rfl⟩, topology, ⟨-, -, -, rfl⟩, made,
    hmade, opened, hopened, added, hadded, file, hfile, control, hcontrol, hwrite⟩ := h
  change (opened.writeFile _ _ (o.archive env.cwd)) = _ at hwrite
  obtain ⟨hroot, -, perm, hopenedNode⟩ := writeFile_eq_ok hopened
  obtain ⟨-, -, perm', hnode⟩ := writeFile_eq_ok hwrite
  have harchive : opened.node (o.archive env.cwd) = some (.file perm []) := by
    rw [hopenedNode]
    exact update_self ..
  have hfound : update opened.node (o.archive env.cwd) none = o.found env s := by
    have hidem : update opened.node (o.archive env.cwd) none =
        update made.node (o.archive env.cwd) none := by
      rw [hopenedNode]
      exact update_idem ..
    rw [hidem, mkdirAll_eq_ok hmade]
    rfl
  have hstat := stat_opened hconfig (Bool.eq_true_of_not_eq_false hisDir) hmade hopened
  obtain ⟨l, hl, hmembers⟩ := addDirectory_eq_ok hstat harchive hadded
  obtain ⟨tperm, content, htopology, hentry⟩ := addFile_eq_ok hfile
  obtain ⟨k, hkmembers, hnone, hsome⟩ := addControlPlane_eq_ok harchive hcontrol
  -- The archive lies in the root directory, which is therefore no file.
  obtain ⟨x, p, hname⟩ : ∃ x p, o.topology env.cwd = x :: p := by
    refine exists_cons_of_ne_nil fun hnil => ?_
    have hexists : opened.node (o.archive env.cwd ++ []) ≠ none := by simp [harchive]
    obtain ⟨perm'', ok, hdir⟩ := isDir_of_below hroot hexists
    rw [← BackupOptions.topology, hnil, hdir] at htopology
    cases htopology
  have hentry' : file.1 = member backupTopologyPrefix ([x], .file tperm content) := by
    rw [hentry, ← BackupOptions.topology, hname]
    exact zipFile_member (cons_ne_nil x []) tperm content
  let m : Manifest := ⟨backupArchiveFormat, backupArchiveVersion, now, o.config env.cwd,
    o.topology env.cwd, ⟨true, true, o.HasControl⟩, [added.2, file.2] ++ control.2⟩
  change Lists (update opened.node (o.archive env.cwd) none) _ l at hl
  change o.HasControl → Lists (update opened.node (o.archive env.cwd) none) _ k at hsome
  rw [hfound] at hl hsome
  refine ⟨⟨l, x, tperm, content, k, m⟩, perm', ⟨hl, ⟨p, hname⟩, fun h => ?_, hsome, hnone, rfl, rfl,
    rfl⟩, ?_⟩
  · rw [← hfound, update_none_eq_some]
    exact ⟨h, htopology⟩
  · rw [hnode, hmembers, hentry', hkmembers]
    exact update_self ..

end

end AwgMesh.MeshCtl.Backup
