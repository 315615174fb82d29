import AwgMesh.Lib.Handler
import AwgMesh.Lib.Replacing
import AwgMesh.PathText

/-!
# Replacing a certificate and its key

`writeCertKeyPairAtomic` of `pkg/clientd/cert_update.go`.
-/

namespace AwgMesh.Clientd.CertUpdate

open Lib ByteText PathText Handler Function List

abbrev FS := FileSystem Name Bytes

inductive Side where
  | key
  | cert

inductive Step where
  | mkdir
  | create
  | write
  | chmod
  | close
  | discard
  | stat
  | clearBackup
  | backup
  | install
  | uninstall
  | restore
  | removeBackup
  | removeTemp

structure Schedule where
  fails : Side → Step → Option OsError
  honest : ∀ side, fails side .stat ≠ some .notExist

def Schedule.calm : Schedule := ⟨fun _ _ => none, fun _ => (Option.some_ne_none _).symm⟩

def Schedule.attempt (sch : Schedule) (side : Side) (step : Step) (f : FS → Except OsError FS) :
    Handler FS (Except OsError Unit) :=
  .attempt (sch.fails side step) fun s => (f s).map fun t => (t, ())

structure Job where
  proc : Process
  path : Side → Path
  data : Side → Bytes
  temp : Side → Name

def mode : Side → Nat
  | .key => 0o600
  | .cert => 0o644

theorem isName_bak {b : Bytes} (h : IsName b) : IsName (b ++ utf8 ".bak") := by
  obtain ⟨-, -, -, hslash⟩ := h
  have hlength : (utf8 ".bak").length = 4 := by decide
  refine ⟨?_, ?_, ?_, ?_⟩
  · intro heq
    exact absurd (congrArg length heq) (by simp [hlength])
  · intro heq
    exact absurd (congrArg length heq) (by simp [hlength, dot])
  · intro heq
    exact absurd (congrArg length heq) (by simp [hlength, dotdot])
  · rw [mem_append, not_or]
    exact ⟨hslash, by decide⟩

def bak : Path → Path
  | [] => [⟨utf8 ".bak", by decide⟩]
  | x :: dir => ⟨x.1 ++ utf8 ".bak", isName_bak x.2⟩ :: dir

def Job.tempPath (job : Job) (side : Side) : Path := job.temp side :: (job.path side).tail

def Job.createTemp (job : Job) (side : Side) (s : FS) : Except OsError FS :=
  match job.path side with
  | [] => .error .invalid
  | _ :: dir => s.make (job.temp side) dir (.file 0o600 [])

/-! ## Errors -/

inductive BackupError where
  | os (err : OsError)
  | isDirectory (path : Path)

structure Restored where
  cert : Option OsError
  key : Option OsError

def Restored.failed (r : Restored) : Bool := r.cert.isSome || r.key.isSome

inductive Error where
  | samePaths
  | keyTemp (err : OsError)
  | certTemp (err : OsError)
  | backupKey (err : BackupError)
  | backupCert (err : BackupError) (restored : Restored)
  | replaceKey (err : OsError) (restored : Restored)
  | replaceCert (err : OsError) (restored : Restored)

def Error.rollbackFailed : Error → Bool
  | .backupCert _ restored => restored.failed
  | .replaceKey _ restored => restored.failed
  | .replaceCert _ restored => restored.failed
  | _ => false

/-! ## The program -/

section Program

variable (job : Job) (sch : Schedule)

def fillTemp (side : Side) : Handler FS (Except OsError Unit) :=
  andThen (sch.attempt side .write
    (·.update (fun perm _ => (perm, job.data side)) (job.tempPath side))) fun _ =>
    andThen (sch.attempt side .chmod
      (·.update (fun _ content => (mode side, content)) (job.tempPath side))) fun _ =>
      sch.attempt side .close .ok

def writeTempFile (side : Side) : Handler FS (Except OsError Unit) :=
  andThen (sch.attempt side .mkdir
    (FileSystem.mkdirAll job.proc 0o755 · (job.path side).tail)) fun _ =>
    andThen (sch.attempt side .create (job.createTemp side)) fun _ =>
      fillTemp job sch side >>= fun
        | .ok () => pure (.ok ())
        | .error err =>
          (fun _ => .error err) <$> sch.attempt side .discard (·.remove (job.tempPath side))

def stat (path : Path) (s : FS) : Except OsError (FS × Node Bytes) :=
  match s.seen path with
  | none => .error .notExist
  | some info => .ok (s, info)

def backupExistingFile (side : Side) : Handler FS (Except BackupError (Option Path)) :=
  let path := job.path side
  attempt (sch.fails side .stat) (stat path) >>= fun
    | .error .notExist => pure (.ok none)
    | .error err => pure (.error (.os err))
    | .ok info =>
      if info.leadsToDir then pure (.error (.isDirectory path))
      else sch.attempt side .clearBackup (·.remove (bak path)) >>= fun _ =>
        sch.attempt side .backup (·.replace path (bak path)) >>= fun
          | .error err => pure (.error (.os err))
          | .ok () => pure (.ok (some (bak path)))

def putBack (side : Side) : (backup : Option Path) → Handler FS (Except OsError Unit)
  | none => pure (.ok ())
  | some backup => sch.attempt side .restore (·.replace backup (job.path side))

def restoreFile (side : Side) (backup : Option Path) (installed : Bool) :
    Handler FS (Except OsError Unit) :=
  if installed then
    sch.attempt side .uninstall (·.remove (job.path side)) >>= fun _ => putBack job sch side backup
  else putBack job sch side backup

def errorOf : Except OsError Unit → Option OsError
  | .ok () => none
  | .error err => some err

def restoreCertKeyPair (certBackup keyBackup : Option Path) (certInstalled keyInstalled : Bool) :
    Handler FS Restored :=
  restoreFile job sch .cert certBackup certInstalled >>= fun cert =>
    (fun key => ⟨errorOf cert, errorOf key⟩) <$> restoreFile job sch .key keyBackup keyInstalled

def removeBackup (side : Side) : (backup : Option Path) → Handler FS Unit
  | none => pure ()
  | some backup => (fun _ => ()) <$> sch.attempt side .removeBackup (·.remove backup)

def removeIfSet (side : Side) (isSet : Bool) : Handler FS Unit :=
  if isSet then (fun _ => ()) <$> sch.attempt side .removeTemp (·.remove (job.tempPath side))
  else pure ()

/-- What `writeCertKeyPairAtomic` returns. -/
structure Outcome where
  answer : Except Error Unit
  keyTemp : Bool
  certTemp : Bool

def install (keyBackup certBackup : Option Path) : Handler FS Outcome :=
  sch.attempt .key .install (·.replace (job.tempPath .key) (job.path .key)) >>= fun
    | .error err =>
      (fun restored => ⟨.error (.replaceKey err restored), true, true⟩) <$>
        restoreCertKeyPair job sch certBackup keyBackup false false
    | .ok () =>
      sch.attempt .cert .install (·.replace (job.tempPath .cert) (job.path .cert)) >>= fun
        | .error err =>
          (fun restored => ⟨.error (.replaceCert err restored), false, true⟩) <$>
            restoreCertKeyPair job sch certBackup keyBackup false true
        | .ok () =>
          removeBackup sch .cert certBackup >>= fun _ =>
            (fun _ => ⟨.ok (), false, false⟩) <$> removeBackup sch .key keyBackup

def exchange : Handler FS Outcome :=
  backupExistingFile job sch .key >>= fun
    | .error err => pure ⟨.error (.backupKey err), true, true⟩
    | .ok keyBackup =>
      backupExistingFile job sch .cert >>= fun
        | .error err =>
          (fun restored => ⟨.error (.backupCert err restored), true, true⟩) <$>
            restoreCertKeyPair job sch none keyBackup false false
        | .ok certBackup => install job sch keyBackup certBackup

def replacePair : Handler FS Outcome :=
  writeTempFile job sch .cert >>= fun
    | .error err => pure ⟨.error (.certTemp err), true, false⟩
    | .ok () => exchange job sch

def writeCertKeyPairAtomic : Handler FS (Except Error Unit) :=
  if job.path .cert = job.path .key then pure (.error .samePaths)
  else writeTempFile job sch .key >>= fun
    | .error err => pure (.error (.keyTemp err))
    | .ok () =>
      replacePair job sch >>= fun outcome =>
        removeIfSet job sch .cert outcome.certTemp >>= fun _ =>
          (fun _ => outcome.answer) <$> removeIfSet job sch .key outcome.keyTemp

end Program

/-! ## All or nothing -/

/-- Both files are the new ones, or, unless the roll-back failed, both the old ones. -/
def Sound (job : Job) (before after : FS) : Except Error Unit → Prop
  | .ok () => ∀ side, after.node (job.path side) = some (.file (mode side) (job.data side))
  | .error err =>
    err.rollbackFailed = false → ∀ side, after.seen (job.path side) = before.seen (job.path side)

/-! ## The steps of a certificate update -/

open Lib.FileSystem

/-! ## Backup paths -/

theorem bak_ne_nil (p : Path) : bak p ≠ [] := by
  cases p <;> exact cons_ne_nil _ _

theorem tail_bak (p : Path) : (bak p).tail = p.tail := by
  cases p <;> rfl

theorem length_le_bak (p : Path) : p.length ≤ (bak p).length := by
  cases p <;> simp [bak]

theorem length_bak {p : Path} (h : p ≠ []) : (bak p).length = p.length := by
  obtain ⟨x, dir, rfl⟩ := exists_cons_of_ne_nil h
  rfl

def nameLength (p : Path) : Nat := (p.head?.map fun x => x.1.length).getD 0

theorem nameLength_bak (p : Path) : nameLength (bak p) = nameLength p + 4 := by
  have hlength : (utf8 ".bak").length = 4 := by decide
  cases p with
  | nil => exact hlength
  | cons x dir => simp [nameLength, bak, hlength]

theorem bak_ne_self (p : Path) : bak p ≠ p := by
  intro h
  have := nameLength_bak p
  rw [h] at this
  omega

theorem bak_bak_ne_self (p : Path) : bak (bak p) ≠ p := by
  intro h
  have hlength := nameLength_bak (bak p)
  rw [h, nameLength_bak p] at hlength
  omega

theorem bak_injective {p q : Path} (h : bak p = bak q) : p = q := by
  have hlength := congrArg nameLength h
  rw [nameLength_bak, nameLength_bak] at hlength
  cases p with
  | nil =>
    cases q with
    | nil => rfl
    | cons y dir =>
      -- a name is not empty
      simp [nameLength] at hlength
      exact absurd hlength y.2.1
  | cons x dir =>
    cases q with
    | nil =>
      simp [nameLength] at hlength
      exact absurd hlength x.2.1
    | cons y dir' =>
      obtain ⟨hname, rfl⟩ := cons.inj h
      have hbytes := congrArg Subtype.val hname
      rw [Subtype.ext (append_cancel_right hbytes)]

/-! ## Operations -/

section Ends

variable {sch : Schedule} {side : Side} {step : Step} {f : FS → Except OsError FS} {s t : FS}

variable {Post : FS → Except OsError Unit → Prop}

theorem attempt_ends
    (herr : ∀ err, sch.fails side step ≠ none ∨ f s = .error err → Post s (.error err))
    (hok : ∀ t, sch.fails side step = none → f s = .ok t → Post t (.ok ())) :
    Ends Post (sch.attempt side step f) s := by
  refine Ends.attempt ?_ ?_
  · rintro err (hfails | hf)
    · exact herr err (.inl (by simp [hfails]))
    · cases hs : f s with
      | error err' =>
        rw [hs] at hf
        cases hf
        exact herr err (.inr hs)
      | ok t =>
        rw [hs] at hf
        cases hf
  · intro t _ hfails hf
    cases hs : f s with
    | error err =>
      rw [hs] at hf
      cases hf
    | ok t' =>
      rw [hs] at hf
      cases hf
      exact hok t hfails hs

theorem remove_ends {p : Path}
    (herr : ∀ err, sch.fails side step ≠ none ∨ s.node p = none ∨ s.Stuck p → Post s (.error err))
    (hok : ∀ t, sch.fails side step = none → s.node p ≠ none → ¬ s.Stuck p →
      t.node = update s.node p none → Post t (.ok ())) :
    Ends Post (sch.attempt side step (·.remove p)) s := by
  refine attempt_ends ?_ ?_
  · rintro err (hfails | hf)
    · exact herr err (.inl hfails)
    · refine herr err (.inr ?_)
      by_contra hnot
      rw [not_or] at hnot
      obtain ⟨t, ht⟩ := exists_remove hnot.1 hnot.2
      cases hf.symm.trans ht
  · intro t hfails hf
    obtain ⟨hnode, hstuck, ht⟩ := remove_eq_ok hf
    exact hok t hfails hnode hstuck ht

theorem replace_ends {a b : Path} (hne : a ≠ b)
    (herr : ∀ err, sch.fails side step ≠ none ∨ ¬ s.Movable a b → Post s (.error err))
    (hok : ∀ t n, sch.fails side step = none → s.node a = some n → n.isDir = false →
      (∀ m, s.node b = some m → m.isDir = false) →
      t.node = update (update s.node a none) b (some n) → Post t (.ok ())) :
    Ends Post (sch.attempt side step (·.replace a b)) s := by
  refine attempt_ends ?_ ?_
  · rintro err (hfails | hf)
    · exact herr err (.inl hfails)
    · refine herr err (.inr ?_)
      intro hmovable
      obtain ⟨t, ht⟩ := hmovable.exists_replace
      cases hf.symm.trans ht
  · intro t hfails hf
    obtain ⟨n, hn, hleaf, htarget, ht⟩ := replace_eq_ok hf hne
    exact hok t n hfails hn hleaf htarget ht

end Ends

/-! ## Temporary files -/

section Temps

variable {job : Job} {sch : Schedule} {side : Side} {s t : FS}

def Beside (job : Job) (side : Side) (nodes : Path → Option (Node Bytes)) (t : FS) : Prop :=
  ∀ q, q ≠ job.tempPath side → t.node q = nodes q

variable {nodes : Path → Option (Node Bytes)}

theorem Beside.update {u : FS} {n : Option (Node Bytes)}
    (h : Beside job side nodes t) (hu : u.node = update t.node (job.tempPath side) n) :
    Beside job side nodes u := by
  intro q hq
  rw [hu, update_of_ne hq]
  exact h q hq

def Written (job : Job) (side : Side) (file : Nat × Bytes) (mayFail : Prop)
    (nodes : Path → Option (Node Bytes)) (t : FS) : Except OsError Unit → Prop
  | .ok () => Beside job side nodes t ∧ t.node (job.tempPath side) = some (.file file.1 file.2)
  | .error _ => Beside job side nodes t ∧ mayFail

variable {perm : Nat} {content : Bytes}

theorem update_ends {step : Step} (h : Beside job side nodes s)
    (hfile : s.node (job.tempPath side) = some (.file perm content))
    (f : Nat → Bytes → Nat × Bytes) :
    Ends (Written job side (f perm content) (sch.fails side step ≠ none) nodes)
      (sch.attempt side step (·.update f (job.tempPath side))) s := by
  refine attempt_ends ?_ ?_
  · rintro err (hfails | hf)
    · exact ⟨h, hfails⟩
    · obtain ⟨t, ht⟩ := exists_update hfile f
      cases hf.symm.trans ht
  · intro t _ ht
    obtain ⟨perm', content', hnode, hupdate⟩ := update_eq_ok ht
    rw [hfile] at hnode
    cases hnode
    exact ⟨h.update hupdate, by rw [hupdate, update_self]⟩

def FillFails (sch : Schedule) (side : Side) : Prop :=
  sch.fails side .write ≠ none ∨ sch.fails side .chmod ≠ none ∨ sch.fails side .close ≠ none

theorem fillTemp_ends
    (h : Beside job side nodes s) (hfile : s.node (job.tempPath side) = some (.file perm content)) :
    Ends (Written job side (mode side, job.data side) (FillFails sch side) nodes)
      (fillTemp job sch side) s := by
  refine (update_ends h hfile _).andThen ?_ ?_
  · rintro t err ⟨hbeside, hfails⟩
    exact ⟨hbeside, .inl hfails⟩
  · rintro t _ ⟨hbeside, htemp⟩
    refine (update_ends hbeside htemp _).andThen ?_ ?_
    · rintro u err ⟨hbeside, hfails⟩
      exact ⟨hbeside, .inr (.inl hfails)⟩
    · rintro u _ ⟨hbeside, htemp⟩
      refine attempt_ends ?_ ?_
      · rintro err (hfails | hf)
        · exact ⟨hbeside, .inr (.inr hfails)⟩
        · cases hf
      · intro v _ hv
        cases hv
        exact ⟨hbeside, htemp⟩

def dirsMade (job : Job) (side : Side) (s : FS) : Path → Option (Node Bytes) :=
  s.withDirs job.proc 0o755 (job.path side).tail

inductive TempFile (job : Job) (sch : Schedule) (side : Side) (s : FS) :
    FS → Except OsError Unit → Prop
  | untouched {err : OsError}
      (why : sch.fails side .mkdir ≠ none ∨ ¬ s.Makes job.proc 0o755 (job.path side).tail) :
      TempFile job sch side s s (.error err)
  | dirs {u : FS} {err : OsError} (makes : s.Makes job.proc 0o755 (job.path side).tail)
      (nodes : Beside job side (dirsMade job side s) u)
      (why : sch.fails side .create ≠ none ∨ FillFails sch side ∨
        ¬ s.Writable job.proc 0o755 (job.path side) ∨ s.node (job.tempPath side) ≠ none) :
      TempFile job sch side s u (.error err)
  | written {u : FS} (writable : s.Writable job.proc 0o755 (job.path side))
      (nodes : Beside job side (dirsMade job side s) u)
      (temp : u.node (job.tempPath side) = some (.file (mode side) (job.data side)))
      (fills : u.Fillable (job.path side).tail) :
      TempFile job sch side s u (.ok ())

theorem tail_ne_tempPath (job : Job) (side : Side) : (job.path side).tail ≠ job.tempPath side := by
  intro h
  have := congrArg length h
  simp [Job.tempPath] at this

theorem createTemp_eq_ok (h : job.createTemp side s = .ok t) :
    job.path side ≠ [] ∧ s.Fillable (job.path side).tail ∧
      t.node = update s.node (job.tempPath side) (some (.file 0o600 [])) := by
  unfold Job.createTemp at h
  split at h
  · cases h
  · next hpath =>
      obtain ⟨-, hfill, ht⟩ := make_eq_ok h
      unfold Job.tempPath
      rw [hpath]
      exact ⟨cons_ne_nil _ _, hfill, ht⟩

theorem exists_createTemp (hpath : job.path side ≠ []) (hfill : s.Fillable (job.path side).tail)
    (hfree : s.node (job.tempPath side) = none) : ∃ t, job.createTemp side s = .ok t := by
  obtain ⟨x, dir, hcons⟩ := exists_cons_of_ne_nil hpath
  unfold Job.tempPath at hfree
  unfold Job.createTemp
  rw [hcons] at hfill hfree ⊢
  exact exists_make hfree hfill _

theorem writeTempFile_ends (job : Job) (sch : Schedule) (side : Side) (s : FS) :
    Ends (TempFile job sch side s) (writeTempFile job sch side) s := by
  have hmkdir : Ends (fun t result =>
      (result = .ok () → mkdirAll job.proc 0o755 s (job.path side).tail = .ok t) ∧
        ∀ err, result = .error err → TempFile job sch side s t (.error err))
      (sch.attempt side .mkdir (mkdirAll job.proc 0o755 · (job.path side).tail)) s := by
    refine attempt_ends ?_ ?_
    · rintro err (hfails | hf)
      · exact ⟨nofun, fun _ _ => .untouched (.inl hfails)⟩
      · refine ⟨nofun, fun _ _ => .untouched (.inr ?_)⟩
        rintro ⟨t, ht⟩
        cases hf.symm.trans ht
    · exact fun t _ ht => ⟨fun _ => ht, nofun⟩
  refine hmkdir.andThen (fun t err h => h.2 err rfl) ?_
  rintro s₁ _ ⟨hdirs, -⟩
  have hs₁ := hdirs rfl
  have hnodes : s₁.node = dirsMade job side s := mkdirAll_eq_ok hs₁
  have htemp : s₁.node (job.tempPath side) = s.node (job.tempPath side) := by
    rw [hnodes]
    refine if_neg ?_
    rintro ⟨hsuffix, -⟩
    exact absurd hsuffix.length_le (by simp [Job.tempPath])
  have hcreate : Ends (fun t result =>
      (result = .ok () → s₁.Fillable (job.path side).tail ∧ job.path side ≠ [] ∧
        t.node = update s₁.node (job.tempPath side) (some (.file 0o600 []))) ∧
        ∀ err, result = .error err → TempFile job sch side s t (.error err))
      (sch.attempt side .create (job.createTemp side)) s₁ := by
    refine attempt_ends ?_ ?_
    · intro err hwhy
      refine ⟨nofun, fun _ _ => .dirs ⟨s₁, hs₁⟩ (fun q _ => congrFun hnodes q) ?_⟩
      rcases hwhy with hfails | hf
      · exact .inl hfails
      · right
        right
        by_contra hnot
        rw [not_or, not_not, not_not] at hnot
        obtain ⟨⟨hproper, s', hs', hfill⟩, hfree⟩ := hnot
        cases hs₁.symm.trans hs'
        obtain ⟨t, ht⟩ := exists_createTemp hproper hfill (htemp.trans hfree)
        cases hf.symm.trans ht
    · intro t _ ht
      obtain ⟨hproper, hfill, hnode⟩ := createTemp_eq_ok ht
      exact ⟨fun _ => ⟨hfill, hproper, hnode⟩, nofun⟩
  refine hcreate.andThen (fun t err h => h.2 err rfl) ?_
  rintro s₂ _ ⟨hcreated, -⟩
  obtain ⟨hfill, hproper, hs₂⟩ := hcreated rfl
  have hself : Beside job side (dirsMade job side s) s₁ := fun q _ => congrFun hnodes q
  have hbeside : Beside job side (dirsMade job side s) s₂ := hself.update hs₂
  refine (fillTemp_ends hbeside (by rw [hs₂, update_self])).bind ?_
  intro s₃ result hwritten
  cases result with
  | ok _ =>
    obtain ⟨hnodes₃, htemp₃⟩ := hwritten
    refine Ends.pure (.written ⟨hproper, s₁, hs₁, hfill⟩ hnodes₃ htemp₃ ?_)
    obtain ⟨perm, hperm⟩ := hfill
    refine ⟨perm, ?_⟩
    rw [hnodes₃ _ (tail_ne_tempPath job side), ← hnodes, hperm]
  | error err =>
    obtain ⟨hnodes₃, hfails⟩ := hwritten
    have hremove : Ends (fun t _ => Beside job side (dirsMade job side s) t)
        (sch.attempt side .discard (·.remove (job.tempPath side))) s₃ :=
      remove_ends (fun _ _ => hnodes₃) fun t _ _ _ ht => hnodes₃.update ht
    exact hremove.map fun t _ ht => .dirs ⟨s₁, hs₁⟩ ht (.inr (.inl hfails))

end Temps

/-! ## Backups -/

section Backups

variable {job : Job} {sch : Schedule} {side : Side} {s t : FS}

inductive Backup (sch : Schedule) (side : Side) (p : Path) (t : FS) :
    FS → Except BackupError (Option Path) → Prop
  | absent (found : t.seen p = none) : Backup sch side p t t (.ok none)
  | refused {err : BackupError}
      (why : sch.fails side .stat ≠ none ∨ ∃ n, t.seen p = some n ∧ n.leadsToDir = true) :
      Backup sch side p t t (.error err)
  | failed {u : FS} {err : BackupError} (file : t.IsFile p)
      (others : ∀ q, q ≠ bak p → u.node q = t.node q)
      (cleared : u.node (bak p) = t.node (bak p) ∨ u.node (bak p) = none ∧ ¬ t.Stuck (bak p))
      (why : sch.fails side .clearBackup ≠ none ∨ sch.fails side .backup ≠ none ∨
        t.Stuck (bak p) ∨ ¬ t.Fillable p.tail) :
      Backup sch side p t u (.error err)
  | moved {u : FS} {n : Node Bytes} (found : t.seen p = some n) (leaf : n.leadsToDir = false)
      (free : ¬ t.Stuck (bak p)) (gone : u.node p = none) (kept : u.node (bak p) = some n)
      (others : ∀ q, q ≠ p → q ≠ bak p → u.node q = t.node q) :
      Backup sch side p t u (.ok (some (bak p)))

theorem tail_ne_bak (p : Path) : p.tail ≠ bak p := by
  intro h
  have hlength := congrArg length h
  cases p <;> simp [bak] at hlength

theorem clear_ends (sch : Schedule) (side : Side) (p : Path) (t : FS) :
    Ends (fun u _ => (∀ q, q ≠ bak p → u.node q = t.node q) ∧
        (u.node (bak p) = t.node (bak p) ∧
            (sch.fails side .clearBackup ≠ none ∨ t.node (bak p) = none ∨ t.Stuck (bak p)) ∨
          u.node (bak p) = none ∧ ¬ t.Stuck (bak p)))
      (sch.attempt side .clearBackup (·.remove (bak p))) t := by
  refine remove_ends ?_ ?_
  · exact fun err hwhy => ⟨fun _ _ => rfl, .inl ⟨rfl, hwhy⟩⟩
  · intro u _ _ hstuck hu
    refine ⟨fun q hq => by rw [hu, update_of_ne hq], .inr ⟨?_, hstuck⟩⟩
    rw [hu, update_self]

theorem movable_bak {p : Path} {u : FS} {info : Node Bytes} (hnode : u.node p = some info)
    (hleaf : info.isDir = false) (hothers : ∀ q, q ≠ bak p → u.node q = t.node q)
    (hfree : u.node (bak p) = none) (hfill : t.Fillable p.tail) : u.Movable p (bak p) := by
  have hfills : u.Fillable p.tail := by
    obtain ⟨perm, hperm⟩ := hfill
    exact ⟨perm, (hothers _ (tail_ne_bak p)).trans hperm⟩
  refine ⟨⟨info, hnode, hleaf⟩, ?_, bak_ne_nil p, hfills, (tail_bak p).symm ▸ hfills⟩
  intro m hm
  cases hfree.symm.trans hm

theorem backup_ends (job : Job) (sch : Schedule) (side : Side) (t : FS) :
    Ends (Backup sch side (job.path side) t) (backupExistingFile job sch side) t := by
  unfold backupExistingFile
  dsimp only
  generalize job.path side = p
  have hstat : Ends (fun u result => u = t ∧
      (∀ err, result = .error err → err = .notExist ∧ t.seen p = none ∨
        err ≠ .notExist ∧ sch.fails side .stat ≠ none) ∧
      ∀ info, result = .ok info → t.seen p = some info)
      (attempt (sch.fails side .stat) (stat p)) t := by
    refine Ends.attempt ?_ ?_
    · rintro err (hfails | hf)
      · refine ⟨rfl, ?_, nofun⟩
        rintro _ ⟨⟩
        refine .inr ⟨?_, by simp [hfails]⟩
        rintro rfl
        exact sch.honest side hfails
      · unfold stat at hf
        split at hf
        · next hnone =>
            cases hf
            refine ⟨rfl, ?_, nofun⟩
            rintro _ ⟨⟩
            exact .inl ⟨rfl, hnone⟩
        · cases hf
    · intro u info _ hf
      unfold stat at hf
      split at hf
      · cases hf
      · next hsome =>
          cases hf
          refine ⟨rfl, nofun, ?_⟩
          rintro _ ⟨⟩
          exact hsome
  refine hstat.bind ?_
  rintro _ result ⟨rfl, herr, hok⟩
  split
  · rcases herr _ rfl with ⟨-, hnone⟩ | ⟨hne, -⟩
    · exact Ends.pure (.absent hnone)
    · exact absurd rfl hne
  · next err hne =>
      rcases herr _ rfl with ⟨rfl, -⟩ | ⟨-, hfails⟩
      · exact absurd rfl hne
      · exact Ends.pure (.refused (.inl hfails))
  · next info =>
      have hfound := hok info rfl
      split
      · next hdir => exact Ends.pure (.refused (.inr ⟨info, hfound, hdir⟩))
      · next hdir =>
          have hleaf : info.leadsToDir = false := Bool.not_eq_true _ ▸ hdir
          refine (clear_ends sch side p _).bind ?_
          rintro u _ ⟨hothers, hcleared⟩
          have hnode := (hothers p (bak_ne_self p).symm).trans (seen_eq_some hfound)
          have hmove : Ends (fun v result =>
              (∀ err, result = .error err → v = u ∧ (sch.fails side .backup ≠ none ∨
                ¬ u.Movable p (bak p))) ∧
              (result = .ok () → (∀ m, u.node (bak p) = some m → m.isDir = false) ∧
                v.node = update (update u.node p none) (bak p) (some info)))
              (sch.attempt side .backup (·.replace p (bak p))) u := by
            refine replace_ends (bak_ne_self p).symm ?_ ?_
            · exact fun err hwhy => ⟨fun _ _ => ⟨rfl, hwhy⟩, nofun⟩
            · intro v n _ hn _ htarget hv
              rw [hnode] at hn
              cases hn
              exact ⟨nofun, fun _ => ⟨htarget, hv⟩⟩
          refine hmove.bind ?_
          rintro v result ⟨hfail, hdone⟩
          cases result with
          | error err =>
            obtain ⟨rfl, hwhy⟩ := hfail err rfl
            refine Ends.pure (.failed ⟨info, hfound, hleaf⟩ hothers ?_ ?_)
            · rcases hcleared with ⟨hsame, -⟩ | hgone
              · exact .inl hsame
              · exact .inr hgone
            · by_contra hnot
              simp only [not_or, not_not] at hnot
              obtain ⟨hclear, hbackup, hstuck, hfill⟩ := hnot
              have hfree : v.node (bak p) = none := by
                rcases hcleared with ⟨hsame, hwhy⟩ | ⟨hgone, -⟩
                · rcases hwhy with hfails | hnone | hstuck'
                  · exact absurd hclear hfails
                  · exact hsame.trans hnone
                  · exact absurd hstuck' hstuck
                · exact hgone
              rcases hwhy with hfails | hnot
              · exact hfails hbackup
              · exact hnot (movable_bak hnode (isDir_eq_false hleaf) hothers hfree hfill)
          | ok _ =>
            obtain ⟨htarget, hv⟩ := hdone rfl
            refine Ends.pure (.moved hfound hleaf ?_ ?_ ?_ ?_)
            · intro hstuck
              rcases hcleared with ⟨hsame, -⟩ | ⟨-, hnot⟩
              · obtain ⟨perm, ok, hdir⟩ := hstuck.isDir
                cases htarget _ (hsame.trans hdir)
              · exact hnot hstuck
            · rw [hv, update_of_ne (bak_ne_self p).symm, update_self]
            · rw [hv, update_self]
            · intro q hq hq'
              rw [hv, update_of_ne hq', update_of_ne hq]
              exact hothers q hq'

end Backups

/-! ## The way back -/

section Restoring

variable {job : Job} {sch : Schedule} {side : Side} {w : FS} {backup : Option Path}

structure RestoredFile (job : Job) (sch : Schedule) (side : Side) (backup : Option Path)
    (installed : Bool) (w u : FS) (result : Except OsError Unit) : Prop where
  others : ∀ q, q ≠ job.path side → backup ≠ some q → u.node q = w.node q
  back : result = .ok () → ∀ b, backup = some b →
    u.node (job.path side) = w.node b ∧ u.node b = none
  nothing : backup = none → result = .ok () ∧ (u.node (job.path side) = w.node (job.path side) ∧
        (installed = true → sch.fails side .uninstall ≠ none ∨
          w.node (job.path side) = none ∨ w.Stuck (job.path side)) ∨
      installed = true ∧ sch.fails side .uninstall = none ∧ u.node (job.path side) = none)
  why : ∀ err, result = .error err → installed = false → sch.fails side .restore ≠ none ∨
    ∃ b, backup = some b ∧ ¬ w.Movable b (job.path side)

theorem putBack_ends (hb : ∀ b, backup = some b → b ≠ job.path side) :
    Ends (RestoredFile job sch side backup false w) (putBack job sch side backup) w := by
  cases backup with
  | none =>
    refine Ends.pure ⟨fun _ _ _ => rfl, nofun, ?_, nofun⟩
    exact fun _ => ⟨rfl, .inl ⟨rfl, nofun⟩⟩
  | some b =>
    have hne := hb b rfl
    refine replace_ends hne ?_ ?_
    · refine fun err hwhy => ⟨fun _ _ _ => rfl, nofun, nofun, ?_⟩
      rintro _ - -
      rcases hwhy with hfails | hnot
      · exact .inl hfails
      · exact .inr ⟨b, rfl, hnot⟩
    · intro u n _ hn _ _ hu
      refine ⟨?_, ?_, nofun, nofun⟩
      · intro q hq hqb
        have hqb' : q ≠ b := fun h => hqb (by rw [h])
        rw [hu, update_of_ne hq, update_of_ne hqb']
      · rintro - _ ⟨⟩
        rw [hu, update_self, update_of_ne hne, update_self, hn]
        exact ⟨rfl, rfl⟩

theorem restoreFile_ends (installed : Bool) (hb : ∀ b, backup = some b → b ≠ job.path side) :
    Ends (RestoredFile job sch side backup installed w)
      (restoreFile job sch side backup installed) w := by
  unfold restoreFile
  split
  · next hinstalled =>
      subst hinstalled
      have hremove : Ends (fun v _ => (∀ q, q ≠ job.path side → v.node q = w.node q) ∧
          (v.node (job.path side) = w.node (job.path side) ∧
              (sch.fails side .uninstall ≠ none ∨ w.node (job.path side) = none ∨
                w.Stuck (job.path side)) ∨
            sch.fails side .uninstall = none ∧ v.node (job.path side) = none))
          (sch.attempt side .uninstall (·.remove (job.path side))) w := by
        refine remove_ends ?_ ?_
        · exact fun err hwhy => ⟨fun _ _ => rfl, .inl ⟨rfl, hwhy⟩⟩
        · intro v hfails _ _ hv
          refine ⟨fun q hq => by rw [hv, update_of_ne hq], .inr ⟨hfails, ?_⟩⟩
          rw [hv, update_self]
      refine hremove.bind ?_
      rintro v _ ⟨hothers, hpath⟩
      refine (putBack_ends hb).mono ?_
      intro u result hu
      refine ⟨?_, ?_, ?_, nofun⟩
      · exact fun q hq hqb => (hu.others q hq hqb).trans (hothers q hq)
      · intro hok b hbackup
        obtain ⟨hpath', hgone⟩ := hu.back hok b hbackup
        exact ⟨hpath'.trans (hothers b (hb b hbackup)), hgone⟩
      · intro hnone
        obtain ⟨hok, hsame | ⟨hfalse, -⟩⟩ := hu.nothing hnone
        · refine ⟨hok, ?_⟩
          rcases hpath with ⟨hpath, hwhy⟩ | ⟨hfails, hpath⟩
          · exact .inl ⟨hsame.1.trans hpath, fun _ => hwhy⟩
          · exact .inr ⟨rfl, hfails, hsame.1.trans hpath⟩
        · cases hfalse
  · next hinstalled =>
      cases Bool.not_eq_true _ ▸ hinstalled
      exact putBack_ends hb

end Restoring

end AwgMesh.Clientd.CertUpdate
