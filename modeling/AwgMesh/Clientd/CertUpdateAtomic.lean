import AwgMesh.Clientd.CertUpdate

/-! # When a certificate update is all or nothing -/

namespace AwgMesh.Clientd.CertUpdate

open Lib Lib.FileSystem ByteText PathText Handler Function

/-- What `os.CreateTemp` gives. -/
structure FreshTemps (job : Job) (s : FS) : Prop where
  free : ∀ side, s.node (job.tempPath side) = none
  apart : ∀ side other, ¬ job.tempPath side <:+ job.path other
  notBackup : ∀ side other, job.tempPath side ≠ bak (job.path other)
  distinct : job.tempPath .key ≠ job.tempPath .cert

section Conditions

variable (job : Job) (s : FS)

/-- The path of the certificate becomes a directory on the way to the key. -/
def CertMade : Prop :=
  s.node (job.path .cert) = none ∧ job.path .cert <:+ (job.path .key).tail ∧
    s.Makes job.proc 0o755 (job.path .key).tail

/-- The path of the key becomes a directory on the way to the certificate. -/
def KeyMade : Prop :=
  s.node (job.path .key) = none ∧ job.path .key <:+ (job.path .cert).tail ∧
    s.Writable job.proc 0o755 (job.path .key) ∧ s.Makes job.proc 0o755 (job.path .cert).tail

def Ready : Prop := ∀ side, s.Writable job.proc 0o755 (job.path side)

def NoDir (side : Side) : Prop := ∀ n, s.seen (job.path side) = some n → n.leadsToDir = false

/-- The certificate is in the place of the backup of the key. -/
def CertIsBackup : Prop :=
  Ready job s ∧ job.path .cert = bak (job.path .key) ∧ s.IsFile (job.path .key) ∧
    ¬ s.Stuck (job.path .cert) ∧ (s.seen (job.path .cert) ≠ none ∨ ¬ s.Stuck (bak (job.path .cert)))

/-- The key is in the place of the backup of the certificate. -/
def KeyIsBackup : Prop :=
  Ready job s ∧ job.path .key = bak (job.path .cert) ∧ s.IsFile (job.path .cert) ∧
    NoDir job s .key ∧ ¬ (s.IsFile (job.path .key) ∧ s.Stuck (bak (job.path .key)))

/-- A new key would have to be removed again. -/
def KeyIsNew : Prop :=
  Ready job s ∧ s.seen (job.path .key) = none ∧ NoDir job s .cert ∧
    (s.IsFile (job.path .cert) → ¬ s.Stuck (bak (job.path .cert)) ∧
      ¬ bak (job.path .cert) <:+ (job.path .key).tail)

/-- The situations in which an update need not be all or nothing. -/
def Exposed (mayFail : Side → Step → Prop) : Prop :=
  CertMade job s ∨ KeyMade job s ∨ CertIsBackup job s ∨ KeyIsBackup job s ∨
    mayFail .cert .install ∧ mayFail .key .uninstall ∧ KeyIsNew job s

end Conditions

/-! ## Temporary files -/

section Temps

variable {job : Job} {sch : Schedule} {s t u : FS}

theorem path_ne_tempPath (hfresh : FreshTemps job s) (side other : Side) :
    job.path other ≠ job.tempPath side := fun h => hfresh.apart side other (h ▸ List.suffix_refl _)

def NewDir (job : Job) (s : FS) (q : Path) : Prop :=
  s.node q = none ∧ (q <:+ (job.path .key).tail ∧ s.Makes job.proc 0o755 (job.path .key).tail ∨
      q <:+ (job.path .cert).tail ∧ s.Writable job.proc 0o755 (job.path .key) ∧
        s.Makes job.proc 0o755 (job.path .cert).tail)

def Touched (job : Job) (s t : FS) : Prop :=
  ∀ q, (∀ side, q ≠ job.tempPath side) → t.node q = s.node q ∨ NewDir job s q

theorem Writable.makes {proc : Process} {p : Path} (h : s.Writable proc 0o755 p) :
    s.Makes proc 0o755 p.tail := by
  obtain ⟨-, s', hs', -⟩ := h
  exact ⟨s', hs'⟩

theorem dirsMade_cases (job : Job) (side : Side) (s : FS) (q : Path) :
    dirsMade job side s q = s.node q ∨ s.node q = none ∧ q <:+ (job.path side).tail := by
  unfold dirsMade withDirs
  split
  · next h => exact .inr ⟨h.2, h.1⟩
  · exact .inl rfl

theorem dirsMade_of_exists (job : Job) (side : Side) {q : Path} (h : s.node q ≠ none) :
    dirsMade job side s q = s.node q :=
  if_neg fun hnew => h hnew.2

variable {result : Except OsError Unit}

theorem touched_key (h : TempFile job sch .key s t result) : Touched job s t := by
  intro q hq
  have hdirs : s.Makes job.proc 0o755 (job.path .key).tail →
      Beside job .key (dirsMade job .key s) t → t.node q = s.node q ∨ NewDir job s q := by
    intro hmakes hnodes
    rcases dirsMade_cases job .key s q with hsame | ⟨hnone, hsuffix⟩
    · exact .inl ((hnodes q (hq .key)).trans hsame)
    · exact .inr ⟨hnone, .inl ⟨hsuffix, hmakes⟩⟩
  cases h with
  | untouched why => exact .inl rfl
  | dirs makes nodes why => exact hdirs makes nodes
  | written writable nodes temp fills => exact hdirs (Writable.makes writable) nodes

theorem nodes_to_cert (hfresh : FreshTemps job s) (hkey : Beside job .key (dirsMade job .key s) t) :
    ∀ q, q <:+ (job.path .cert).tail →
      t.node q = s.withDirs job.proc 0o755 (job.path .key).tail q := by
  intro q hsuffix
  refine hkey q ?_
  rintro rfl
  exact hfresh.apart .key .cert (hsuffix.trans (List.tail_suffix _))

theorem touched_cert (hfresh : FreshTemps job s) (hkey : TempFile job sch .key s t (.ok ()))
    (h : TempFile job sch .cert t u result) : Touched job s u := by
  intro q hq
  have hfirst := touched_key hkey q hq
  cases hkey with
  | written writable nodes temp fills =>
    have hmakes := makes_again (Writable.makes writable) (nodes_to_cert hfresh nodes)
    have hdirs : t.Makes job.proc 0o755 (job.path .cert).tail →
        Beside job .cert (dirsMade job .cert t) u → u.node q = s.node q ∨ NewDir job s q := by
      intro hmakes' hnodes
      rcases dirsMade_cases job .cert t q with hsame | ⟨hnone, hsuffix⟩
      · rw [hnodes q (hq .cert), hsame]
        exact hfirst
      · rcases hfirst with hsame | hnew
        · refine .inr ⟨hsame ▸ hnone, .inr ⟨hsuffix, writable, hmakes.mp hmakes'⟩⟩
        · exact .inr hnew
    cases h with
    | untouched why => exact hfirst
    | dirs makes nodes' why => exact hdirs makes nodes'
    | written writable' nodes' temp' fills' => exact hdirs (Writable.makes writable') nodes'

theorem Touched.kept (hfresh : FreshTemps job s) (h : Touched job s t) (hcert : ¬ CertMade job s)
    (hkey : ¬ KeyMade job s) (side : Side) : t.node (job.path side) = s.node (job.path side) := by
  have hself : ∀ p : Path, p <:+ p.tail → p = [] := by
    intro p hsuffix
    cases p with
    | nil => rfl
    | cons x p => exact absurd hsuffix.length_le (by simp)
  rcases h (job.path side) fun other => path_ne_tempPath hfresh other side with
    hsame | ⟨hnone, hway⟩
  · exact hsame
  · cases side with
    | key =>
      rcases hway with ⟨hsuffix, hmakes⟩ | ⟨hsuffix, hwritable, hmakes⟩
      · -- the root is there whenever directories can be made
        have hroot := hself _ hsuffix
        rw [hroot] at hnone hmakes
        exact absurd hnone (makes_nil_iff.mp hmakes).ne_none
      · exact absurd ⟨hnone, hsuffix, hwritable, hmakes⟩ hkey
    | cert =>
      rcases hway with ⟨hsuffix, hmakes⟩ | ⟨hsuffix, hwritable, hmakes⟩
      · exact absurd ⟨hnone, hsuffix, hmakes⟩ hcert
      · have hroot := hself _ hsuffix
        rw [hroot] at hnone hmakes
        exact absurd hnone (makes_nil_iff.mp hmakes).ne_none

theorem Side.forall {P : Side → Prop} (hkey : P .key) (hcert : P .cert) : ∀ side, P side
  | .key => hkey
  | .cert => hcert

/-- Both temporary files are written, in directories that can be filled. -/
structure Staged (job : Job) (t : FS) : Prop where
  temp : ∀ side, t.node (job.tempPath side) = some (.file (mode side) (job.data side))
  fills : ∀ side, t.Fillable (job.path side).tail

structure Prepared (job : Job) (s t : FS) : Prop extends Staged job t where
  ready : Ready job s
  touched : Touched job s t

theorem prepared_of_temps (hfresh : FreshTemps job s) (hkey : TempFile job sch .key s t (.ok ()))
    (hcert : TempFile job sch .cert t u (.ok ())) : Prepared job s u := by
  have htouched := touched_cert hfresh hkey hcert
  cases hkey with
  | written writable nodes temp fills =>
    cases hcert with
    | written writable' nodes' temp' fills' =>
      have hway := nodes_to_cert hfresh nodes
      have hcert := (writable_again (Writable.makes writable) hway).mp writable'
      refine ⟨⟨Side.forall ?_ temp', Side.forall ?_ fills'⟩, Side.forall writable hcert, htouched⟩
      · rw [nodes' _ hfresh.distinct, dirsMade_of_exists job .cert (by simp [temp]), temp]
      · obtain ⟨perm, hperm⟩ := fills
        refine ⟨perm, ?_⟩
        rw [nodes', dirsMade_of_exists job .cert (by simp [hperm]), hperm]
        intro heq
        refine hfresh.apart .cert .key ?_
        rw [← heq]
        exact List.tail_suffix _

end Temps

/-! ## Files out of the way -/

section Exchange

variable {job : Job} {sch : Schedule} {t u v w : FS} {side : Side}
  {backup keyBackup certBackup : Option Path}

def Apart (job : Job) (t : FS) : Prop :=
  ∀ side, t.IsFile (job.path side) → ∀ other, bak (job.path side) ≠ job.path other

def Saved (job : Job) (t v : FS) (side : Side) (backup : Option Path) : Prop :=
  ∀ b, backup = some b → b = bak (job.path side) ∧ (∀ other, b ≠ job.path other) ∧
    t.IsFile (job.path side) ∧ v.node b = t.node (job.path side)

structure Vacant (job : Job) (t v : FS) (side : Side) (backup : Option Path) : Prop where
  nothing : backup = none →
    t.seen (job.path side) = none ∧ v.node (job.path side) = t.node (job.path side)
  gone : backup ≠ none → v.node (job.path side) = none

theorem saved_of_backup
    (hapart : t.IsFile (job.path side) → ∀ other, bak (job.path side) ≠ job.path other)
    (h : Backup sch side (job.path side) t u (.ok backup)) :
    Saved job t u side backup ∧ Vacant job t u side backup ∧
      (backup ≠ none → ¬ t.Stuck (bak (job.path side))) ∧
      ∀ q, q ≠ job.path side → backup ≠ some q → u.node q = t.node q := by
  cases h with
  | absent found =>
    exact ⟨nofun, ⟨fun _ => ⟨found, rfl⟩, fun h => absurd rfl h⟩, fun h => absurd rfl h,
      fun _ _ _ => rfl⟩
  | moved found leaf free gone kept others =>
    refine ⟨?_, ⟨fun h => absurd h (Option.some_ne_none _), fun _ => gone⟩, fun _ => free, ?_⟩
    · rintro _ ⟨⟩
      have hfile : t.IsFile (job.path side) := ⟨_, found, leaf⟩
      exact ⟨rfl, hapart hfile, hfile, kept.trans (seen_eq_some found).symm⟩
    · intro q hq hqb
      exact others q hq fun h => hqb (by rw [h])

theorem Saved.congr (h : Saved job t v side backup)
    (hb : ∀ b, backup = some b → w.node b = v.node b) : Saved job t w side backup := by
  intro b hbackup
  obtain ⟨hbak, hapart, hfile, hnode⟩ := h b hbackup
  exact ⟨hbak, hapart, hfile, (hb b hbackup).trans hnode⟩

theorem Saved.ne_backup (hne : job.path .cert ≠ job.path .key) (h : Saved job t v .cert certBackup)
    (h' : Saved job t w .key keyBackup) {b : Path} (hb : keyBackup = some b) :
    certBackup ≠ some b := by
  intro hcert
  obtain ⟨hbak, -⟩ := h b hcert
  obtain ⟨hbak', -⟩ := h' b hb
  exact hne (bak_injective (hbak.symm.trans hbak'))

def Restorable (job : Job) (sch : Schedule) (t w : FS) (side : Side) (backup : Option Path)
    (installed : Bool) : Prop :=
  backup = none → installed = false ∧ w.node (job.path side) = t.node (job.path side) ∨
    installed = true ∧ t.seen (job.path side) = none ∧ sch.fails side .uninstall = none ∧
      ∃ n, w.node (job.path side) = some n ∧ n.isDir = false

theorem RestoredFile.seen {installed : Bool} {result : Except OsError Unit}
    (h : RestoredFile job sch side backup installed w u result) (hsaved : Saved job t w side backup)
    (hplace : Restorable job sch t w side backup installed) (hok : result = .ok ()) :
    u.seen (job.path side) = t.seen (job.path side) := by
  cases backup with
  | some b =>
    obtain ⟨-, -, -, hnode⟩ := hsaved b rfl
    exact seen_congr ((h.back hok b rfl).1.trans hnode)
  | none =>
    obtain ⟨-, hsame | ⟨hinstalled, -, hgone⟩⟩ := h.nothing rfl
    · rcases hplace rfl with ⟨-, hplace⟩ | ⟨hinstalled, -, hfails, n, hn, hleaf⟩
      · exact seen_congr (hsame.1.trans hplace)
      · rcases hsame.2 hinstalled with hfails' | hnone | hstuck
        · exact absurd hfails hfails'
        · cases hn.symm.trans hnone
        · refine absurd hstuck (not_stuck_of_leaf ?_)
          intro m hm
          cases hn.symm.trans hm
          exact hleaf
    · rcases hplace rfl with ⟨hnot, -⟩ | ⟨-, hnone, -⟩
      · cases hinstalled.symm.trans hnot
      · rw [hnone, seen_of_node_eq_none hgone]

theorem restoreCertKeyPair_ends (hne : job.path .cert ≠ job.path .key) (installed : Bool)
    (hcert : Saved job t w .cert certBackup) (hkey : Saved job t w .key keyBackup)
    (hcertPlace : Restorable job sch t w .cert certBackup false)
    (hkeyPlace : Restorable job sch t w .key keyBackup installed) :
    Ends (fun u restored => restored.failed = false →
        ∀ side, u.seen (job.path side) = t.seen (job.path side))
      (restoreCertKeyPair job sch certBackup keyBackup false installed) w := by
  have hcertApart := fun b hb => (hcert b hb).2.1
  have hkeyApart := fun b hb => (hkey b hb).2.1
  refine (restoreFile_ends false fun b hb => hcertApart b hb .cert).bind ?_
  intro w₁ certResult hw₁
  -- the key and its backup are not touched by the certificate
  have hkeyNode : w₁.node (job.path .key) = w.node (job.path .key) :=
    hw₁.others _ hne.symm fun hb => hcertApart _ hb .key rfl
  have hkey₁ : Saved job t w₁ .key keyBackup := by
    refine hkey.congr ?_
    intro b hb
    exact hw₁.others b (hkeyApart b hb .cert) (hcert.ne_backup hne hkey hb)
  have hkeyPlace₁ : Restorable job sch t w₁ .key keyBackup installed := by
    unfold Restorable
    rw [hkeyNode]
    exact hkeyPlace
  refine (restoreFile_ends installed fun b hb => hkeyApart b hb .key).map ?_
  intro u keyResult hu hfailed side
  cases certResult with
  | error err => cases hfailed
  | ok _ =>
    cases keyResult with
    | error err => cases hfailed
    | ok _ =>
      cases side with
      | key => exact hu.seen hkey₁ hkeyPlace₁ rfl
      | cert =>
        have hcertNode : u.node (job.path .cert) = w₁.node (job.path .cert) :=
          hu.others _ hne fun hb => hkeyApart _ hb .cert rfl
        exact (seen_congr hcertNode).trans (hw₁.seen hcert hcertPlace rfl)

theorem removeBackup_ends (sch : Schedule) (side : Side) (backup : Option Path) (w : FS) :
    Ends (fun u _ => ∀ q, backup ≠ some q → u.node q = w.node q)
      (removeBackup sch side backup) w := by
  cases backup with
  | none => exact Ends.pure fun _ _ => rfl
  | some b =>
    have hremove : Ends (fun u _ => ∀ q, some b ≠ some q → u.node q = w.node q)
        (sch.attempt side .removeBackup (·.remove b)) w := by
      refine remove_ends (fun _ _ _ _ => rfl) ?_
      intro u _ _ _ hu q hq
      rw [hu, update_of_ne fun h => hq (by rw [h])]
    exact hremove.map fun _ _ h => h

theorem Vacant.leaf (h : Vacant job t v side backup) :
    ∀ m, v.node (job.path side) = some m → m.isDir = false := by
  intro m hm
  cases backup with
  | none =>
    obtain ⟨hnone, hnode⟩ := h.nothing rfl
    exact leaf_of_seen_none hnone (hnode.symm.trans hm)
  | some b => cases (h.gone (Option.some_ne_none b)).symm.trans hm

def backupsOf (keyBackup certBackup : Option Path) : Side → Option Path
  | .key => keyBackup
  | .cert => certBackup

structure Cleared (job : Job) (v : FS) : Prop extends Staged job v where
  leaf : ∀ side m, v.node (job.path side) = some m → m.isDir = false

structure Standing (job : Job) (t v : FS) (backups : Side → Option Path) : Prop
    extends Cleared job v where
  saved : ∀ side, Saved job t v side (backups side)
  vacant : ∀ side, Vacant job t v side (backups side)

theorem Sound.congr {answer : Except Error Unit} (h : Sound job t u answer)
    (hu : ∀ side, v.node (job.path side) = u.node (job.path side)) : Sound job t v answer := by
  cases answer with
  | ok _ => exact fun side => (hu side).trans (h side)
  | error err => exact fun hrollback side => (seen_congr (hu side)).trans (h hrollback side)

section Install

variable {s : FS} {backups : Side → Option Path}

structure KeyInstalled (job : Job) (v w : FS) : Prop where
  nodes : w.node = update (update v.node (job.tempPath .key) none)
    (job.path .key) (some (.file (mode .key) (job.data .key)))

theorem KeyInstalled.of_ne (h : KeyInstalled job v w) {q : Path} (hq : q ≠ job.path .key)
    (hq' : q ≠ job.tempPath .key) : w.node q = v.node q := by
  rw [h.nodes, update_of_ne hq, update_of_ne hq']

theorem KeyInstalled.key (h : KeyInstalled job v w) :
    w.node (job.path .key) = some (.file (mode .key) (job.data .key)) := by
  rw [h.nodes, update_self]

variable (hfresh : FreshTemps job s)

include hfresh

theorem KeyInstalled.movable (h : KeyInstalled job v w) (hne : job.path .cert ≠ job.path .key)
    (hproper : job.path .cert ≠ []) (hcleared : Cleared job v)
    : w.Movable (job.tempPath .cert) (job.path .cert) := by
  have htemp : w.node (job.tempPath .cert) = some (.file (mode .cert) (job.data .cert)) :=
    (h.of_ne (path_ne_tempPath hfresh .cert .key).symm hfresh.distinct.symm).trans
      (hcleared.temp .cert)
  have hfills : w.Fillable (job.path .cert).tail := by
    obtain ⟨perm, hperm⟩ := hcleared.fills .cert
    refine ⟨perm, (h.of_ne ?_ ?_).trans hperm⟩
    · intro heq
      rw [heq] at hperm
      cases hcleared.leaf .key _ hperm
    · intro heq
      refine hfresh.apart .key .cert ?_
      rw [← heq]
      exact List.tail_suffix _
  refine ⟨⟨_, htemp, rfl⟩, ?_, hproper, hfills, hfills⟩
  intro m hm
  rw [h.of_ne hne (path_ne_tempPath hfresh .key .cert)] at hm
  exact hcleared.leaf .cert m hm

theorem keyInstall_ends (hproper : job.path .key ≠ []) (hcleared : Cleared job v) :
    Ends (fun w result =>
        (∀ err, result = .error err → w = v ∧ sch.fails .key .install ≠ none) ∧
        (result = .ok () → sch.fails .key .install = none ∧ KeyInstalled job v w))
      (sch.attempt .key .install (·.replace (job.tempPath .key) (job.path .key))) v := by
  have hmovable : v.Movable (job.tempPath .key) (job.path .key) :=
    ⟨⟨_, hcleared.temp .key, rfl⟩, hcleared.leaf .key, hproper, hcleared.fills .key,
      hcleared.fills .key⟩
  refine replace_ends (path_ne_tempPath hfresh .key .key).symm ?_ ?_
  · rintro err (hfails | hnot)
    · exact ⟨fun _ _ => ⟨rfl, hfails⟩, nofun⟩
    · exact absurd hmovable hnot
  · intro w n hfails hn _ _ hw
    cases hn.symm.trans (hcleared.temp .key)
    exact ⟨nofun, fun _ => ⟨hfails, ⟨hw⟩⟩⟩

theorem certInstall_ends (hne : job.path .cert ≠ job.path .key) (hproper : job.path .cert ≠ [])
    (hcleared : Cleared job v) (hw : KeyInstalled job v w) :
    Ends (fun x result =>
        (∀ err, result = .error err → x = w ∧ sch.fails .cert .install ≠ none) ∧
        (result = .ok () → sch.fails .cert .install = none ∧
          ∀ side, x.node (job.path side) = some (.file (mode side) (job.data side))))
      (sch.attempt .cert .install (·.replace (job.tempPath .cert) (job.path .cert))) w := by
  have hmovable := hw.movable hfresh hne hproper hcleared
  refine replace_ends (path_ne_tempPath hfresh .cert .cert).symm ?_ ?_
  · rintro err (hfails | hnot)
    · exact ⟨fun _ _ => ⟨rfl, hfails⟩, nofun⟩
    · exact absurd hmovable hnot
  · intro x n hfails hn _ _ hx
    rw [hw.of_ne (path_ne_tempPath hfresh .cert .key).symm hfresh.distinct.symm] at hn
    cases hn.symm.trans (hcleared.temp .cert)
    refine ⟨nofun, fun _ => ⟨hfails, ?_⟩⟩
    intro side
    cases side with
    | key =>
      rw [hx, update_of_ne hne.symm,
        update_of_ne (path_ne_tempPath hfresh .cert .key), hw.key]
    | cert => rw [hx, update_self]

theorem KeyInstalled.saved (h : KeyInstalled job v w) (hsaved : Saved job t v side backup)
    : Saved job t w side backup := by
  refine hsaved.congr ?_
  intro b hb
  obtain ⟨hbak, hapart, -⟩ := hsaved b hb
  exact h.of_ne (hapart .key) (hbak ▸ (hfresh.notBackup .key side).symm)

theorem install_ends (hne : job.path .cert ≠ job.path .key) (hproper : ∀ side, job.path side ≠ [])
    (hstanding : Standing job t v backups)
    (hlast : sch.fails .cert .install ≠ none → backups .key = none →
      sch.fails .key .uninstall = none)
    :
    Ends (fun u outcome => Sound job t u outcome.answer)
      (install job sch (backups .key) (backups .cert)) v := by
  have hplace : ∀ side, Restorable job sch t v side (backups side) false :=
    fun side hnone => .inl ⟨rfl, ((hstanding.vacant side).nothing hnone).2⟩
  refine (keyInstall_ends hfresh (hproper .key) hstanding.toCleared).bind ?_
  rintro w keyResult ⟨hkeyErr, hkeyOk⟩
  cases keyResult with
  | error err =>
    obtain ⟨rfl, -⟩ := hkeyErr err rfl
    exact (restoreCertKeyPair_ends hne false (hstanding.saved .cert) (hstanding.saved .key)
      (hplace .cert) (hplace .key)).map fun u restored hu => hu
  | ok _ =>
    obtain ⟨-, hw⟩ := hkeyOk rfl
    refine (certInstall_ends hfresh hne (hproper .cert) hstanding.toCleared hw).bind ?_
    rintro x certResult ⟨hcertErr, hcertOk⟩
    cases certResult with
    | error err =>
      obtain ⟨rfl, hfails⟩ := hcertErr err rfl
      refine (restoreCertKeyPair_ends hne true (hw.saved hfresh (hstanding.saved .cert))
        (hw.saved hfresh (hstanding.saved .key)) ?_ ?_).map fun u restored hu => hu
      · intro hnone
        refine .inl ⟨rfl, ?_⟩
        rw [hw.of_ne hne (path_ne_tempPath hfresh .key .cert)]
        exact ((hstanding.vacant .cert).nothing hnone).2
      · exact fun hnone => .inr ⟨rfl, ((hstanding.vacant .key).nothing hnone).1,
          hlast hfails hnone, _, hw.key, rfl⟩
    | ok _ =>
      have hnew : Sound job t x (.ok ()) := (hcertOk rfl).2
      have hapart : ∀ side other, backups side ≠ some (job.path other) :=
        fun side other hb => (hstanding.saved side _ hb).2.1 other rfl
      refine (removeBackup_ends sch .cert (backups .cert) x).bind ?_
      intro y _ hy
      refine (removeBackup_ends sch .key (backups .key) y).map ?_
      intro z _ hz
      refine hnew.congr ?_
      exact fun side => (hz _ (hapart .key side)).trans (hy _ (hapart .cert side))

end Install

variable {p : Path}

theorem isFile_congr (h : u.node p = t.node p) : u.IsFile p ↔ t.IsFile p := by
  unfold IsFile
  rw [seen_congr h]

theorem stuck_congr (h : ∀ q, q ≠ p → p <:+ q → u.node q = t.node q) : u.Stuck p ↔ t.Stuck p := by
  constructor
  · rintro ⟨q, hq, hsuffix, hne⟩
    exact ⟨q, hq, hsuffix, h q hq hsuffix ▸ hne⟩
  · rintro ⟨q, hq, hsuffix, hne⟩
    exact ⟨q, hq, hsuffix, (h q hq hsuffix).symm ▸ hne⟩

theorem Backup.fills {p d : Path} {x : Name} (h : Backup sch side p t u (.ok backup))
    (hfill : t.Fillable d) (hchild : t.node (x :: d) ≠ none) : u.Fillable d := by
  obtain ⟨perm, hperm⟩ := hfill
  cases h with
  | absent found => exact ⟨perm, hperm⟩
  | moved found leaf free gone kept others =>
    refine ⟨perm, (others d ?_ ?_).trans hperm⟩
    · rintro rfl
      cases hperm.symm.trans (seen_eq_some found)
      cases leaf
    · rintro rfl
      exact free ⟨_, List.cons_ne_self x _, List.suffix_cons x _, hchild⟩

variable {s : FS}

theorem Backup.temps (hfresh : FreshTemps job s)
    (h : Backup sch side (job.path side) t u (.ok backup)) (other : Side) :
    u.node (job.tempPath other) = t.node (job.tempPath other) := by
  cases h with
  | absent found => rfl
  | moved found leaf free gone kept others =>
    exact others _ (path_ne_tempPath hfresh other side).symm (hfresh.notBackup other side)

theorem noDir_of_isFile (h : t.IsFile p) (n : Node Bytes) (hn : t.seen p = some n) :
    n.leadsToDir = false := by
  obtain ⟨m, hm, hleaf⟩ := h
  cases hn.symm.trans hm
  exact hleaf

theorem Staged.saving (hstaged : Staged job t) (hfresh : FreshTemps job s)
    (h : Backup sch side (job.path side) t u (.ok backup)) : Staged job u := by
  refine ⟨fun other => (h.temps hfresh other).trans (hstaged.temp other), fun other => ?_⟩
  exact h.fills (hstaged.fills other) (x := job.temp other) (by
    have := hstaged.temp other
    unfold Job.tempPath at this
    simp [this])

section

variable (hne : job.path .cert ≠ job.path .key)

include hne

theorem certRefused_sound {err : BackupError}
    (hapart : u.IsFile (job.path .cert) → ∀ other, bak (job.path .cert) ≠ job.path other)
    (hsaved : Saved job t u .key keyBackup) (hvacant : Vacant job t u .key keyBackup)
    (hnode : u.node (job.path .cert) = t.node (job.path .cert))
    (hcert : Backup sch .cert (job.path .cert) u v (.error err)) :
    Ends (fun w outcome => Sound job t w outcome.answer)
      ((fun restored => (⟨.error (.backupCert err restored), true, true⟩ : Outcome)) <$>
        restoreCertKeyPair job sch none keyBackup false false) v := by
  -- neither the key nor its backup has been touched
  have hothers : ∀ q, (u.IsFile (job.path .cert) → q ≠ bak (job.path .cert)) →
      v.node q = u.node q := by
    intro q hq
    cases hcert with
    | refused why => rfl
    | failed file others cleared why => exact others q (hq file)
  have hback : Saved job t v .key keyBackup := by
    refine hsaved.congr fun b hb => hothers b ?_
    rintro - heq
    exact hne (bak_injective (heq.symm.trans (hsaved b hb).1))
  refine (restoreCertKeyPair_ends hne false (fun b hb => by cases hb) hback ?_ ?_).map ?_
  · intro _
    exact .inl ⟨rfl, (hothers _ fun _ => (bak_ne_self _).symm).trans hnode⟩
  · intro hnone
    refine .inl ⟨rfl, ?_⟩
    rw [hothers _ fun hfile => (hapart hfile .key).symm]
    exact (hvacant.nothing hnone).2
  · exact fun w restored hw => hw

theorem standing_of_backups (hfresh : FreshTemps job s) (hstaged : Staged job t)
    (hapart : Apart job t) (hkey : Backup sch .key (job.path .key) t u (.ok keyBackup))
    (hnode : u.node (job.path .cert) = t.node (job.path .cert))
    (hcert : Backup sch .cert (job.path .cert) u v (.ok certBackup)) :
    Standing job t v (backupsOf keyBackup certBackup) := by
  obtain ⟨hsaved, hvacant, -, -⟩ := saved_of_backup (hapart .key) hkey
  obtain ⟨hsaved', hvacant', -, hothers⟩ := saved_of_backup
    (fun hfile => hapart .cert ((isFile_congr hnode).mp hfile)) hcert
  have hcertSaved : Saved job t v .cert certBackup := by
    intro b hb
    obtain ⟨hbak, hb', hfile, hback⟩ := hsaved' b hb
    exact ⟨hbak, hb', (isFile_congr hnode).mp hfile, hback.trans hnode⟩
  have hcertVacant : Vacant job t v .cert certBackup := by
    refine ⟨fun hnone => ?_, hvacant'.gone⟩
    obtain ⟨hnothing, hsame⟩ := hvacant'.nothing hnone
    exact ⟨(seen_congr hnode).symm.trans hnothing, hsame.trans hnode⟩
  have hkeyNode : v.node (job.path .key) = u.node (job.path .key) :=
    hothers _ hne.symm fun hb => (hsaved' _ hb).2.1 .key rfl
  have hkeySaved : Saved job t v .key keyBackup :=
    hsaved.congr fun b hb => hothers b ((hsaved b hb).2.1 .cert)
      (hcertSaved.ne_backup hne hsaved hb)
  have hkeyVacant : Vacant job t v .key keyBackup := by
    refine ⟨fun hnone => ?_, fun hsome => hkeyNode.trans (hvacant.gone hsome)⟩
    obtain ⟨hnothing, hsame⟩ := hvacant.nothing hnone
    exact ⟨hnothing, hkeyNode.trans hsame⟩
  exact ⟨⟨(hstaged.saving hfresh hkey).saving hfresh hcert,
    Side.forall hkeyVacant.leaf hcertVacant.leaf⟩, Side.forall hkeySaved hcertSaved,
    Side.forall hkeyVacant hcertVacant⟩

theorem exchange_apart (hfresh : FreshTemps job s) (hproper : ∀ side, job.path side ≠ [])
    (hstaged : Staged job t) (hapart : Apart job t)
    (hlast : sch.fails .cert .install ≠ none → t.seen (job.path .key) = none →
      NoDir job t .cert → (t.IsFile (job.path .cert) → ¬ t.Stuck (bak (job.path .cert))) →
      sch.fails .key .uninstall = none)
    :
    Ends (fun u outcome => Sound job t u outcome.answer) (exchange job sch) t := by
  refine (backup_ends job sch .key t).bind ?_
  intro u keyResult hkey
  cases keyResult with
  | error err =>
    refine Ends.pure ?_
    cases hkey with
    | refused why => exact fun _ _ => rfl
    | failed file others cleared why =>
      exact fun _ side => seen_congr (others _ (hapart .key file side).symm)
  | ok keyBackup =>
    obtain ⟨hsaved, hvacant, -, hothers⟩ := saved_of_backup (hapart .key) hkey
    have hnode : u.node (job.path .cert) = t.node (job.path .cert) :=
      hothers _ hne fun hb => (hsaved _ hb).2.1 .cert rfl
    have hcertApart : u.IsFile (job.path .cert) → ∀ other, bak (job.path .cert) ≠ job.path other :=
      fun hfile => hapart .cert ((isFile_congr hnode).mp hfile)
    refine (backup_ends job sch .cert u).bind ?_
    intro v certResult hcert
    cases certResult with
    | error err => exact certRefused_sound hne hcertApart hsaved hvacant hnode hcert
    | ok certBackup =>
      have hstanding := standing_of_backups hne hfresh hstaged hapart hkey hnode hcert
      apply install_ends hfresh hne hproper hstanding
      intro hfails hnone
      have hcertSaved : Saved job t v .cert certBackup := hstanding.saved .cert
      have hcertVacant : Vacant job t v .cert certBackup := hstanding.vacant .cert
      obtain ⟨hnothing, hsame⟩ := hvacant.nothing hnone
      refine hlast hfails hnothing ?_ ?_
      · -- the certificate was moved, or there was none
        intro n hn
        cases certBackup with
        | none => cases hn.symm.trans (hcertVacant.nothing rfl).1
        | some b => exact noDir_of_isFile (hcertSaved b rfl).2.2.1 n hn
      · intro hfile hstuck
        cases hcert with
        | absent found =>
          obtain ⟨n, hn, -⟩ := hfile
          cases hn.symm.trans ((seen_congr hnode).symm.trans found)
        | moved found leaf free gone kept others =>
          refine free ((stuck_congr fun q _ _ => ?_).mpr hstuck)
          by_cases hq : q = job.path .key
          · rw [hq, hsame]
          · exact hothers q hq (by simp [show keyBackup = none from hnone])

end

theorem eq_bak_of_suffix {p q : Path} (h : bak p <:+ q) (hlength : q.length ≤ p.length) :
    q = bak p :=
  (h.eq_of_length_le (hlength.trans (length_le_bak p))).symm

theorem exchange_cert_is_backup (hbak : job.path .cert = bak (job.path .key))
    (hfile : t.IsFile (job.path .key)) (hstuck : t.Stuck (job.path .cert) ∨
      t.seen (job.path .cert) = none ∧ t.Stuck (bak (job.path .cert))) :
    Ends (fun u outcome => Sound job t u outcome.answer) (exchange job sch) t := by
  refine (backup_ends job sch .key t).bind ?_
  intro u keyResult hkey
  cases hkey with
  | absent found =>
    obtain ⟨n, hn, -⟩ := hfile
    cases hn.symm.trans found
  | refused why => exact Ends.pure fun _ _ => rfl
  | failed file others cleared why =>
    refine Ends.pure fun _ side => ?_
    cases side with
    | key => exact seen_congr (others _ (bak_ne_self _).symm)
    | cert =>
      rw [hbak]
      rcases cleared with hsame | ⟨hnone, hfree⟩
      · exact seen_congr hsame
      · rw [← hbak] at hnone hfree ⊢
        rcases hstuck with hstuck | ⟨hseen, -⟩
        · exact absurd hstuck hfree
        · rw [hseen, seen_of_node_eq_none hnone]
  | @moved u n found leaf free gone kept others =>
    rw [← hbak] at free kept others
    rcases hstuck with hstuck | ⟨hnone, hstuck⟩
    · exact absurd hstuck free
    · -- the certificate's place holds the key now, and cannot be cleared
      have hseen : u.seen (job.path .cert) = some n :=
        (seen_congr (kept.trans (seen_eq_some found).symm)).trans found
      have hstuck' : u.Stuck (bak (job.path .cert)) := by
        refine (stuck_congr fun q hq hsuffix => others q ?_ ?_).mpr hstuck
        · rintro rfl
          exact hq (eq_bak_of_suffix hsuffix (hbak ▸ length_le_bak _))
        · rintro rfl
          exact hq (eq_bak_of_suffix hsuffix le_rfl)
      refine (backup_ends job sch .cert u).bind ?_
      intro v certResult hcert
      have hback : (∀ q, v.node q = u.node q) ∧ ∃ err, certResult = .error err := by
        cases hcert with
        | absent found' => cases hseen.symm.trans found'
        | refused why => exact ⟨fun _ => rfl, _, rfl⟩
        | failed file others' cleared why =>
          refine ⟨fun q => ?_, _, rfl⟩
          by_cases hq : q = bak (job.path .cert)
          · rcases cleared with hsame | ⟨-, hfree⟩
            · rw [hq, hsame]
            · exact absurd hstuck' hfree
          · exact others' q hq
        | moved found' leaf' free' gone' kept' others' => exact absurd hstuck' free'
      obtain ⟨hv, err, rfl⟩ := hback
      refine Ends.map ?_ fun w restored (hw : restored.failed = false →
        ∀ side, w.seen (job.path side) = t.seen (job.path side)) => hw
      refine (restoreFile_ends false fun b hb => by cases hb).bind ?_
      intro w₁ certRestored hw₁
      have hsame : ∀ q, w₁.node q = u.node q := by
        intro q
        by_cases hq : q = job.path .cert
        · obtain ⟨-, hsame | ⟨hinstalled, -⟩⟩ := hw₁.nothing rfl
          · rw [hq, hsame.1, hv]
          · cases hinstalled
        · rw [hw₁.others q hq nofun, hv]
      have hb : ∀ b, some (bak (job.path .key)) = some b → b ≠ job.path .key := by
        rintro b ⟨⟩
        exact bak_ne_self _
      refine (restoreFile_ends false hb).map ?_
      intro w keyRestored hw hfailed side
      cases keyRestored with
      | error err =>
        cases certRestored <;> cases hfailed
      | ok _ =>
        obtain ⟨hkeyBack, hgone⟩ := hw.back rfl _ rfl
        cases side with
        | key =>
          rw [hsame, ← hbak, kept, ← seen_eq_some found] at hkeyBack
          exact seen_congr hkeyBack
        | cert =>
          rw [← hbak] at hgone
          rw [hnone, seen_of_node_eq_none hgone]

theorem exchange_key_is_backup (hbak : job.path .key = bak (job.path .cert))
    (hstuck : (∃ n, t.seen (job.path .key) = some n ∧ n.leadsToDir = true) ∨
      t.IsFile (job.path .key) ∧ t.Stuck (bak (job.path .key))) :
    Ends (fun u outcome => Sound job t u outcome.answer) (exchange job sch) t := by
  refine (backup_ends job sch .key t).bind ?_
  intro u keyResult hkey
  cases hkey with
  | absent found =>
    rcases hstuck with ⟨n, hn, -⟩ | ⟨⟨n, hn, -⟩, -⟩ <;> cases hn.symm.trans found
  | refused why => exact Ends.pure fun _ _ => rfl
  | failed file others cleared why =>
    refine Ends.pure fun _ side => seen_congr (others _ ?_)
    cases side with
    | key => exact (bak_ne_self _).symm
    | cert =>
      intro heq
      rw [hbak] at heq
      exact bak_bak_ne_self _ heq.symm
  | moved found leaf free gone kept others =>
    rcases hstuck with ⟨n, hn, hdir⟩ | ⟨-, hstuck⟩
    · cases hn.symm.trans found
      cases hdir.symm.trans leaf
    · exact absurd hstuck free

theorem removeIfSet_ends (job : Job) (sch : Schedule) (side : Side) (isSet : Bool) (u : FS) :
    Ends (fun v _ => ∀ q, q ≠ job.tempPath side → v.node q = u.node q)
      (removeIfSet job sch side isSet) u := by
  unfold removeIfSet
  split
  · have hremove : Ends (fun v _ => ∀ q, q ≠ job.tempPath side → v.node q = u.node q)
        (sch.attempt side .removeTemp (·.remove (job.tempPath side))) u := by
      refine remove_ends (fun _ _ _ _ => rfl) ?_
      intro v _ _ _ hv q hq
      rw [hv, update_of_ne hq]
    exact hremove.map fun _ _ h => h
  · exact Ends.pure fun _ _ => rfl

theorem finish_ends (hfresh : FreshTemps job s) {P : FS → Except Error Unit → Prop}
    (hP : ∀ {u v answer}, (∀ side, v.node (job.path side) = u.node (job.path side)) →
      P u answer → P v answer)
    (h : Ends (fun u outcome => P u outcome.answer) (replacePair job sch) t) :
    Ends P
      (replacePair job sch >>= fun outcome =>
        removeIfSet job sch .cert outcome.certTemp >>= fun _ =>
          (fun _ => outcome.answer) <$> removeIfSet job sch .key outcome.keyTemp) t := by
  refine h.bind ?_
  intro u outcome hu
  refine (removeIfSet_ends job sch .cert outcome.certTemp u).bind ?_
  intro v _ hv
  refine (removeIfSet_ends job sch .key outcome.keyTemp v).map ?_
  intro w _ hw
  refine hP (fun side => ?_) hu
  rw [hw _ (path_ne_tempPath hfresh .key side), hv _ (path_ne_tempPath hfresh .cert side)]

end Exchange

end AwgMesh.Clientd.CertUpdate
