import AwgMesh.Clientd.CertUpdateAtomic

/-! # The updates that go wrong -/

namespace AwgMesh.Clientd.CertUpdate

open Lib Lib.FileSystem ByteText PathText Handler List

section

variable {job : Job} {sch : Schedule} {s t u v w : FS} (hfresh : FreshTemps job s)
  (hne : job.path .cert ≠ job.path .key)

/-- Under the schedule `sch` the update ends neither with all of it nor with nothing. -/
abbrev Unsound (job : Job) (sch : Schedule) (s : FS) : Prop :=
  Ends (fun u answer => ¬ Sound job s u answer) (writeCertKeyPairAtomic job sch) s

/-! ## A path becomes a directory -/

theorem not_sound_of_taken {err : Error} (hrollback : err.rollbackFailed = false) (side : Side)
    (hbefore : s.seen (job.path side) = none) {n : Node Bytes}
    (hafter : u.node (job.path side) = some n) (hn : n ≠ .link none) :
    ¬ Sound job s u (.error err) := by
  intro h
  have hseen := (h hrollback side).trans hbefore
  unfold seen at hseen
  split at hseen
  · next hlink =>
      cases hafter.symm.trans hlink
      exact hn rfl
  · cases hafter.symm.trans hseen

theorem not_sound_congr {answer : Except Error Unit}
    (hsame : ∀ side, v.node (job.path side) = u.node (job.path side))
    (h : ¬ Sound job s u answer) : ¬ Sound job s v answer :=
  fun hv => h (Sound.congr hv fun side => (hsame side).symm)

variable {p q : Path}

theorem length_lt_of_suffix (h : p <:+ q.tail) (hp : p ≠ []) : p.length < q.length := by
  have hle := h.length_le
  have hlength := length_pos_of_ne_nil hp
  rw [length_tail] at hle
  omega

theorem node_dirsMade (job : Job) (side : Side) (hsuffix : q <:+ (job.path side).tail)
    (hnone : s.node q = none) :
    dirsMade job side s q = some (.dir 0o755 (job.proc.mayFill 0o755)) :=
  if_pos ⟨hsuffix, hnone⟩

variable {side : Side}

theorem dirsMade_self (hproper : job.path side ≠ []) :
    dirsMade job side s (job.path side) = s.node (job.path side) := by
  refine if_neg ?_
  rintro ⟨hsuffix, -⟩
  exact absurd (length_lt_of_suffix hsuffix hproper) (lt_irrefl _)

variable {perm : Nat} {fillable : Bool}

theorem Backup.refuses_dir {side : Side} {p : Path} {v : FS}
    {result : Except BackupError (Option Path)}
    (h : Backup sch side p u v result) (hdir : u.node p = some (.dir perm fillable)) :
    v = u ∧ ∃ err, result = .error err := by
  have hseen : u.seen p = some (.dir perm fillable) := by
    unfold seen
    rw [hdir]
  cases h with
  | absent found => cases hseen.symm.trans found
  | refused why => exact ⟨rfl, _, rfl⟩
  | failed file others cleared why =>
    obtain ⟨n, hn, hleaf⟩ := file
    cases hseen.symm.trans hn
    cases hleaf
  | moved found leaf free gone kept others =>
    cases hseen.symm.trans found
    cases leaf

theorem exchange_certDir
    (hdir : u.node (job.path .cert) = some (.dir perm fillable))
    (hkey : u.seen (job.path .key) = none) :
    Ends (fun v outcome => v.node (job.path .cert) = some (.dir perm fillable) ∧
        ∃ err, outcome.answer = .error err ∧ err.rollbackFailed = false) (exchange job sch) u := by
  refine (backup_ends job sch .key u).bind ?_
  intro v keyResult hkeyBackup
  cases hkeyBackup with
  | absent found =>
    refine (backup_ends job sch .cert u).bind ?_
    intro w certResult hcertBackup
    obtain ⟨rfl, err, rfl⟩ := hcertBackup.refuses_dir hdir
    exact Ends.pure ⟨hdir, _, rfl, rfl⟩
  | refused why => exact Ends.pure ⟨hdir, _, rfl, rfl⟩
  | failed file others cleared why =>
    obtain ⟨n, hn, -⟩ := file
    cases hn.symm.trans hkey
  | moved found leaf free gone kept others => cases found.symm.trans hkey

include hfresh hne in
theorem certMade_unsound (h : CertMade job s) : Unsound job .calm s := by
  obtain ⟨hnone, hsuffix, hmakes⟩ := h
  have hseen := seen_of_node_eq_none hnone
  have hproper : job.path .cert ≠ [] := by
    intro hnil
    rw [hnil] at hnone
    exact (makes_nil_iff.mp (hmakes.suffix nil_suffix)).ne_none hnone
  have hlength := length_lt_of_suffix hsuffix hproper
  have hkeyNone : s.node (job.path .key) = none := by
    obtain ⟨r, hr⟩ := hsuffix.trans (tail_suffix _)
    rw [← hr]
    exact node_below_none hnone r
  have hkeyProper : job.path .key ≠ [] := ne_nil_of_length_pos (by omega)
  have hcertKey := path_ne_tempPath hfresh .key .cert
  have hcertCert := path_ne_tempPath hfresh .cert .cert
  -- the directory that the certificate's path has become
  have hdir := node_dirsMade job .key hsuffix hnone
  unfold Unsound writeCertKeyPairAtomic
  rw [if_neg hne]
  refine (writeTempFile_ends job .calm .key s).bind ?_
  intro t keyResult hkey
  cases hkey with
  | untouched why => exact (why.resolve_left (fun h => h rfl) hmakes).elim
  | dirs makes nodes why =>
    exact Ends.pure
      (not_sound_of_taken rfl .cert hseen ((nodes _ hcertKey).trans hdir) (by simp))
  | written writable nodes temp fills =>
    have hdirT := (nodes _ hcertKey).trans hdir
    refine finish_ends hfresh not_sound_congr ?_
    refine (writeTempFile_ends job .calm .cert t).bind ?_
    intro u certResult hcert
    have hdirU : u.node (job.path .cert) = t.node (job.path .cert) := by
      have hexists : t.node (job.path .cert) ≠ none := by simp [hdirT]
      cases hcert with
      | untouched why => rfl
      | dirs makes nodes' why => rw [nodes' _ hcertCert, dirsMade_of_exists job .cert hexists]
      | written writable' nodes' temp' fills' =>
        rw [nodes' _ hcertCert, dirsMade_of_exists job .cert hexists]
    have hnodeU := hdirU.trans hdirT
    cases certResult with
    | error err =>
      exact Ends.pure (not_sound_of_taken rfl .cert hseen hnodeU (by simp))
    | ok _ =>
      have hkeyU : u.node (job.path .key) = none := by
        cases hcert with
        | written writable' nodes' temp' fills' =>
          have hkeyT : t.node (job.path .key) = none := by
            rw [nodes _ (path_ne_tempPath hfresh .key .key), dirsMade_self hkeyProper, hkeyNone]
          rw [nodes' _ (path_ne_tempPath hfresh .cert .key), dirsMade, withDirs, if_neg ?_, hkeyT]
          rintro ⟨hsuffix', -⟩
          exact absurd (length_lt_of_suffix hsuffix' hkeyProper) (by omega)
      refine (exchange_certDir hnodeU (seen_of_node_eq_none hkeyU)).mono ?_
      rintro v outcome ⟨hdirV, err, hanswer, hrollback⟩
      rw [hanswer]
      exact not_sound_of_taken hrollback .cert hseen hdirV (by simp)

structure CalmTemps (sch : Schedule) : Prop where
  mkdir : ∀ side, sch.fails side .mkdir = none
  create : ∀ side, sch.fails side .create = none
  fill : ∀ side, ¬ FillFails sch side

theorem calmTemps_calm : CalmTemps .calm := by
  refine ⟨fun _ => rfl, fun _ => rfl, ?_⟩
  rintro side (h | h | h) <;> exact h rfl

theorem TempFile.eq_ok {result : Except OsError Unit}
    (h : TempFile job sch side s t result) (hcalm : CalmTemps sch)
    (hwritable : s.Writable job.proc 0o755 (job.path side))
    (hfree : s.node (job.tempPath side) = none) : result = .ok () := by
  cases h with
  | untouched why =>
    rcases why with hfails | hnot
    · exact absurd (hcalm.mkdir side) hfails
    · exact absurd (Writable.makes hwritable) hnot
  | dirs makes nodes why =>
    rcases why with hfails | hfill | hnot | htaken
    · exact absurd (hcalm.create side) hfails
    · exact absurd hfill (hcalm.fill side)
    · exact absurd hwritable hnot
    · exact absurd hfree htaken
  | written writable nodes temp fills => rfl

include hfresh hne in
theorem keyMade_unsound (h : KeyMade job s) : Unsound job .calm s := by
  obtain ⟨hnone, hsuffix, hwritable, hmakes⟩ := h
  have hseen := seen_of_node_eq_none hnone
  unfold Unsound writeCertKeyPairAtomic
  rw [if_neg hne]
  refine (writeTempFile_ends job .calm .key s).bind ?_
  intro t keyResult hkey
  cases hkey.eq_ok calmTemps_calm hwritable (hfresh.free .key)
  cases hkey with
  | written writable nodes temp fills =>
    have hkeyT : t.node (job.path .key) = none := by
      rw [nodes _ (path_ne_tempPath hfresh .key .key), dirsMade_self writable.1, hnone]
    have hagain := makes_again (Writable.makes writable) (nodes_to_cert hfresh nodes)
    have hmakesT := hagain.mpr hmakes
    have hdir := node_dirsMade job .cert hsuffix hkeyT
    have hkeyCert := path_ne_tempPath hfresh .cert .key
    refine finish_ends hfresh not_sound_congr ?_
    refine (writeTempFile_ends job .calm .cert t).bind ?_
    intro u certResult hcert
    cases hcert with
    | untouched why => exact (why.resolve_left (fun h => h rfl) hmakesT).elim
    | dirs makes nodes' why =>
      exact Ends.pure
        (not_sound_of_taken rfl .key hseen ((nodes' _ hkeyCert).trans hdir) (by simp))
    | written writable' nodes' temp' fills' =>
      have hdirU := (nodes' _ hkeyCert).trans hdir
      refine (backup_ends job .calm .key u).bind ?_
      intro v keyResult hkeyBackup
      obtain ⟨rfl, err, rfl⟩ := hkeyBackup.refuses_dir hdirU
      exact Ends.pure (not_sound_of_taken rfl .key hseen hdirU (by simp))

/-! ## One file is the backup of the other one -/

include hfresh hne in
theorem prepares_ends (hcalm : CalmTemps sch) (hready : Ready job s) (h : ∀ t, Prepared job s t →
      Ends (fun u outcome => ¬ Sound job s u outcome.answer) (exchange job sch) t) :
    Unsound job sch s := by
  unfold Unsound writeCertKeyPairAtomic
  rw [if_neg hne]
  refine (writeTempFile_ends job sch .key s).bind ?_
  intro t keyResult hkey
  cases hkey.eq_ok hcalm (hready .key) (hfresh.free .key)
  refine finish_ends hfresh not_sound_congr ?_
  refine (writeTempFile_ends job sch .cert t).bind ?_
  intro u certResult hcert
  have hok : certResult = .ok () := by
    cases hkey with
    | written writable nodes temp fills =>
      refine hcert.eq_ok hcalm ?_ ?_
      · exact (writable_again (Writable.makes writable) (nodes_to_cert hfresh nodes)).mpr
          (hready .cert)
      · rw [nodes _ hfresh.distinct.symm, dirsMade, withDirs, if_neg ?_, hfresh.free .cert]
        rintro ⟨hsuffix, -⟩
        exact hfresh.apart .cert .key (hsuffix.trans (tail_suffix _))
  cases hok
  exact h u (prepared_of_temps hfresh hkey hcert)

theorem Prepared.unstuck (h : Prepared job s t) (htemp : ∀ side, job.tempPath side ≠ p)
    (hway : ∀ side, ¬ p <:+ (job.path side).tail) (hstuck : t.Stuck p) : s.Stuck p := by
  obtain ⟨q, hq, hsuffix, hne⟩ := hstuck
  have hqtemp : ∀ side, q ≠ job.tempPath side := by
    rintro side rfl
    rcases suffix_cons_iff.mp hsuffix with heq | hsuffix
    · exact htemp side heq.symm
    · exact hway side hsuffix
  refine ⟨q, hq, hsuffix, ?_⟩
  rcases h.touched q hqtemp with hsame | ⟨-, ⟨hsuffix', -⟩ | ⟨hsuffix', -⟩⟩
  · rwa [← hsame]
  · exact absurd (hsuffix.trans hsuffix') (hway .key)
  · exact absurd (hsuffix.trans hsuffix') (hway .cert)

structure CalmMoves (sch : Schedule) : Prop where
  stat : ∀ side, sch.fails side .stat = none
  clearBackup : ∀ side, sch.fails side .clearBackup = none
  backup : ∀ side, sch.fails side .backup = none
  restore : ∀ side, sch.fails side .restore = none
  key : sch.fails .key .install = none

theorem calmMoves_calm : CalmMoves .calm :=
  ⟨fun _ => rfl, fun _ => rfl, fun _ => rfl, fun _ => rfl, rfl⟩

inductive CalmBackup (p : Path) (t u : FS) : Option Path → Prop
  | absent (found : t.seen p = none) (same : u = t) : CalmBackup p t u none
  | moved (file : t.IsFile p) (gone : u.node p = none) (kept : u.node (bak p) = t.node p)
      (others : ∀ q, q ≠ p → q ≠ bak p → u.node q = t.node q) : CalmBackup p t u (some (bak p))

variable {result : Except BackupError (Option Path)}

theorem Backup.calm
    (h : Backup sch side p t u result) (hcalm : CalmMoves sch)
    (hnodir : ∀ n, t.seen p = some n → n.leadsToDir = false)
    (hfree : t.IsFile p → ¬ t.Stuck (bak p)) (hfill : t.Fillable p.tail) :
    ∃ backup, result = .ok backup ∧ CalmBackup p t u backup := by
  cases h with
  | absent found => exact ⟨none, rfl, .absent found rfl⟩
  | refused why =>
    rcases why with hfails | ⟨n, hn, hdir⟩
    · exact absurd (hcalm.stat side) hfails
    · cases hdir.symm.trans (hnodir n hn)
  | failed file others cleared why =>
    rcases why with hfails | hfails | hstuck | hnot
    · exact absurd (hcalm.clearBackup side) hfails
    · exact absurd (hcalm.backup side) hfails
    · exact absurd hstuck (hfree file)
    · exact absurd hfill hnot
  | moved found leaf free gone kept others =>
    exact ⟨_, rfl, .moved ⟨_, found, leaf⟩ gone (kept.trans (seen_eq_some found).symm) others⟩

theorem Backup.calm_file
    (h : Backup sch side p t u result) (hcalm : CalmMoves sch) (hfile : t.IsFile p)
    (hfree : ¬ t.Stuck (bak p)) (hfill : t.Fillable p.tail) :
    result = .ok (some (bak p)) ∧ u.node p = none ∧ u.node (bak p) = t.node p ∧
      ∀ q, q ≠ p → q ≠ bak p → u.node q = t.node q := by
  obtain ⟨backup, rfl, hbackup⟩ := h.calm hcalm (noDir_of_isFile hfile) (fun _ => hfree) hfill
  cases hbackup with
  | moved file gone kept others => exact ⟨rfl, gone, kept, others⟩
  | absent found same =>
    obtain ⟨n, hn, -⟩ := hfile
    cases hn.symm.trans found

include hfresh hne in
theorem install_calm (hproper : ∀ side, job.path side ≠ []) (hcleared : Cleared job v)
    {keyBackup certBackup : Option Path} {P : FS → Outcome → Prop}
    (h : ∀ x, (∀ side, x.node (job.path side) = some (.file (mode side) (job.data side))) →
      Ends P (removeBackup .calm .cert certBackup >>= fun _ =>
        (fun _ => ⟨.ok (), false, false⟩) <$> removeBackup .calm .key keyBackup) x) :
    Ends P (install job .calm keyBackup certBackup) v := by
  refine (keyInstall_ends hfresh (hproper .key) hcleared).bind ?_
  rintro w keyResult ⟨hkeyErr, hkeyOk⟩
  cases keyResult with
  | error err => exact absurd rfl (hkeyErr err rfl).2
  | ok _ =>
    refine (certInstall_ends hfresh hne (hproper .cert) hcleared (hkeyOk rfl).2).bind ?_
    rintro x certResult ⟨hcertErr, hcertOk⟩
    cases certResult with
    | error err => exact absurd rfl (hcertErr err rfl).2
    | ok _ => exact h x (hcertOk rfl).2

theorem removeBackup_calm {side other : Side}
    (hfile : v.node (job.path other) = some (.file (mode other) (job.data other))) :
    Ends (fun u _ => u.node (job.path other) = none)
      (removeBackup .calm side (some (job.path other))) v := by
  have hremove : Ends (fun u _ => u.node (job.path other) = none)
      (Schedule.calm.attempt side .removeBackup (·.remove (job.path other))) v := by
    refine remove_ends ?_ ?_
    · rintro err (hfails | hnone | hstuck)
      · exact absurd rfl hfails
      · cases hfile.symm.trans hnone
      · refine absurd hstuck (not_stuck_of_leaf ?_)
        intro m hm
        cases hfile.symm.trans hm
        rfl
    · intro u _ _ _ hu
      rw [hu, Function.update_self]
  exact hremove.map fun _ _ h => h

theorem not_sound_of_gone (side : Side) (h : u.node (job.path side) = none) :
    ¬ Sound job s u (.ok ()) := by
  intro hsound
  cases h.symm.trans (hsound side)

theorem kept_of_length (hfresh : FreshTemps job s) (hprepared : Prepared job s t)
    (hlength : (job.path .cert).length = (job.path .key).length) (side : Side) :
    t.node (job.path side) = s.node (job.path side) := by
  refine hprepared.touched.kept hfresh ?_ ?_ side
  · rintro ⟨-, hsuffix, -⟩
    have := length_lt_of_suffix hsuffix (hprepared.ready .cert).1
    omega
  · rintro ⟨-, hsuffix, -⟩
    have := length_lt_of_suffix hsuffix (hprepared.ready .key).1
    omega

theorem unstuck_of_length (hfresh : FreshTemps job s) (hprepared : Prepared job s t)
    (hlength : (job.path .cert).length = (job.path .key).length) (side : Side)
    (hstuck : t.Stuck (bak (job.path side))) : s.Stuck (bak (job.path side)) := by
  refine hprepared.unstuck (fun other => hfresh.notBackup other side) ?_ hstuck
  intro other hsuffix
  have hlt := length_lt_of_suffix hsuffix (bak_ne_nil _)
  have hle := length_le_bak (job.path side)
  cases side <;> cases other <;> omega

include hfresh hne in
theorem keyIsBackup_unsound (h : KeyIsBackup job s) : Unsound job .calm s := by
  obtain ⟨hready, hbak, hfile, hnodir, hfree⟩ := h
  have hproper := fun side => (hready side).1
  have hlength : (job.path .cert).length = (job.path .key).length := by
    rw [hbak, length_bak (hproper .cert)]
  refine prepares_ends hfresh hne calmTemps_calm hready ?_
  intro t hprepared
  have hkept := kept_of_length hfresh hprepared hlength
  refine (backup_ends job .calm .key t).bind ?_
  intro u keyResult hkey
  obtain ⟨keyBackup, rfl, hkeyCalm⟩ := hkey.calm calmMoves_calm
    (fun n hn => hnodir n ((seen_congr (hkept .key)).symm.trans hn))
    (fun hkeyFile hstuck => hfree ⟨(isFile_congr (hkept .key)).mp hkeyFile,
      unstuck_of_length hfresh hprepared hlength .key hstuck⟩) (hprepared.fills .key)
  have hcertNode : u.node (job.path .cert) = t.node (job.path .cert) := by
    cases hkeyCalm with
    | absent found same => rw [same]
    | moved file gone kept others =>
      refine others _ hne ?_
      rw [hbak]
      exact (bak_bak_ne_self _).symm
  have hkeyLeaf : ∀ m, u.node (job.path .key) = some m → m.isDir = false := by
    intro m hm
    cases hkeyCalm with
    | absent found same => exact leaf_of_seen_none found (same ▸ hm)
    | moved file gone kept others => cases gone.symm.trans hm
  have hcertFile : u.IsFile (job.path .cert) :=
    (isFile_congr (hcertNode.trans (hkept .cert))).mpr hfile
  have hstagedU := hprepared.toStaged.saving hfresh hkey
  refine (backup_ends job .calm .cert u).bind ?_
  intro v certResult hcert
  obtain ⟨rfl, gone, kept, others⟩ := hcert.calm_file calmMoves_calm hcertFile
    (hbak ▸ not_stuck_of_leaf hkeyLeaf) (hstagedU.fills .cert)
  -- the old certificate is in the place of the key
  have hcleared : Cleared job v := by
    refine ⟨hstagedU.saving hfresh hcert, ?_⟩
    intro side m hm
    cases side with
    | key =>
      rw [hbak, kept] at hm
      obtain ⟨n, hn, hleaf⟩ := hcertFile
      cases hm.symm.trans (seen_eq_some hn)
      exact isDir_eq_false hleaf
    | cert => cases gone.symm.trans hm
  refine install_calm hfresh hne hproper hcleared ?_
  intro x hx
  rw [← hbak]
  refine (removeBackup_calm (hx .key)).bind ?_
  intro y _ hy
  refine (removeBackup_ends .calm .key keyBackup y).map ?_
  intro z _ hz
  refine not_sound_of_gone .key ((hz _ ?_).trans hy)
  cases hkeyCalm with
  | absent found same => exact (Option.some_ne_none _).symm
  | moved file' gone' kept' others' =>
    intro heq
    exact bak_ne_self _ (Option.some.inj heq)

theorem restoreFile_calm {b : Path} (hcalm : CalmMoves sch)
    (hne : b ≠ job.path side) (hmovable : v.Movable b (job.path side)) :
    Ends (fun u result => result = .ok () ∧ u.node b = none ∧
        ∀ q, q ≠ job.path side → q ≠ b → u.node q = v.node q)
      (restoreFile job sch side (some b) false) v := by
  refine (restoreFile_ends false ?_).mono ?_
  · rintro _ ⟨⟩
    exact hne
  intro u result hu
  have hok : result = .ok () := by
    cases result with
    | ok _ => rfl
    | error err =>
      rcases hu.why err rfl rfl with hfails | ⟨_, ⟨⟩, hnot⟩
      · exact absurd (hcalm.restore side) hfails
      · exact absurd hmovable hnot
  refine ⟨hok, (hu.back hok b rfl).2, ?_⟩
  intro q hq hqb
  exact hu.others q hq fun h => hqb (Option.some.inj h).symm

theorem certStuck_unsound {err : BackupError} (hcert : job.path .cert = bak (job.path .key))
    (hleaf : ∃ n, v.node (job.path .cert) = some n ∧ n.isDir = false)
    (hgone : v.node (job.path .key) = none) (hproper : job.path .key ≠ [])
    (hfill : v.Fillable (job.path .key).tail) (hseen : s.seen (job.path .cert) ≠ none) :
    Ends (fun u outcome => ¬ Sound job s u outcome.answer)
      ((fun restored => (⟨.error (.backupCert err restored), true, true⟩ : Outcome)) <$>
        restoreCertKeyPair job .calm none (some (bak (job.path .key))) false false) v := by
  rw [← hcert]
  have hmovable : v.Movable (job.path .cert) (job.path .key) := by
    refine ⟨hleaf, ?_, hproper, ?_, hfill⟩
    · intro m hm
      cases hgone.symm.trans hm
    · rwa [hcert, tail_bak]
  have hne : job.path .cert ≠ job.path .key := hcert ▸ bak_ne_self _
  have hrestore : Ends (fun u restored => restored = ⟨none, none⟩ ∧
      u.node (job.path .cert) = none)
      (restoreCertKeyPair job .calm none (some (job.path .cert)) false false) v := by
    have hnothing : Ends (fun u result => u = v ∧ result = .ok ())
        (restoreFile job .calm .cert none false) v := Ends.pure ⟨rfl, rfl⟩
    refine hnothing.bind ?_
    rintro _ _ ⟨rfl, rfl⟩
    refine (restoreFile_calm calmMoves_calm hne hmovable).map ?_
    rintro u result ⟨rfl, hnone, -⟩
    exact ⟨rfl, hnone⟩
  refine hrestore.map ?_
  rintro u restored ⟨rfl, hnone⟩ hsound
  exact hseen ((hsound rfl .cert).symm.trans (seen_of_node_eq_none hnone))

include hfresh hne in
theorem certIsBackup_unsound (h : CertIsBackup job s) : Unsound job .calm s := by
  obtain ⟨hready, hbak, hfile, hfree, hlast⟩ := h
  have hproper := fun side => (hready side).1
  have hlength : (job.path .cert).length = (job.path .key).length := by
    rw [hbak, length_bak (hproper .key)]
  refine prepares_ends hfresh hne calmTemps_calm hready ?_
  intro t hprepared
  have hkept := kept_of_length hfresh hprepared hlength
  have hkeyFile : t.IsFile (job.path .key) := (isFile_congr (hkept .key)).mpr hfile
  refine (backup_ends job .calm .key t).bind ?_
  intro u keyResult hkey
  obtain ⟨rfl, gone, kept, others⟩ := hkey.calm_file calmMoves_calm hkeyFile
    (fun hstuck => hfree (hbak ▸ unstuck_of_length hfresh hprepared hlength .key hstuck))
    (hprepared.fills .key)
  have hstagedU := hprepared.toStaged.saving hfresh hkey
  -- the old key is in the place of the certificate
  rw [← hbak] at kept others
  have hcertFile : u.IsFile (job.path .cert) := by
    obtain ⟨n, hn, hleaf⟩ := hkeyFile
    exact ⟨n, (seen_congr kept).trans hn, hleaf⟩
  refine (backup_ends job .calm .cert u).bind ?_
  intro v certResult hcert
  by_cases hstuck : u.Stuck (bak (job.path .cert))
  · have hseen : s.seen (job.path .cert) ≠ none := by
      refine hlast.resolve_right fun hnot => hnot ?_
      refine unstuck_of_length hfresh hprepared hlength .cert ?_
      refine (stuck_congr ?_).mp hstuck
      intro q _ hsuffix
      refine others q ?_ ?_
      · rintro rfl
        refine bak_bak_ne_self (job.path .key) ?_
        rw [← hbak]
        refine hsuffix.eq_of_length ?_
        rw [length_bak (hproper .cert), hlength]
      · rintro rfl
        exact bak_ne_self _ (hsuffix.eq_of_length (length_bak (hproper .cert)))
    cases hcert with
    | absent found =>
      obtain ⟨n, hn, -⟩ := hcertFile
      cases hn.symm.trans found
    | refused why =>
      rcases why with hfails | ⟨n, hn, hdir⟩
      · exact absurd rfl hfails
      · cases hdir.symm.trans (noDir_of_isFile hcertFile n hn)
    | moved found leaf free gone' kept' others' => exact absurd hstuck free
    | failed file' others' cleared why =>
      refine certStuck_unsound hbak ?_ ?_ (hproper .key) ?_ hseen
      · obtain ⟨n, hn, hleaf⟩ := file'
        refine ⟨n, ?_, isDir_eq_false hleaf⟩
        exact (others' _ (bak_ne_self _).symm).trans (seen_eq_some hn)
      · refine (others' _ ?_).trans gone
        rw [hbak]
        exact (bak_bak_ne_self _).symm
      · obtain ⟨perm, hperm⟩ := hstagedU.fills .key
        refine ⟨perm, (others' _ ?_).trans hperm⟩
        rw [← tail_bak, ← hbak]
        exact tail_ne_bak _
  · obtain ⟨rfl, gone', -, others'⟩ := hcert.calm_file calmMoves_calm hcertFile hstuck
      (hstagedU.fills .cert)
    have hcleared : Cleared job v := by
      refine ⟨hstagedU.saving hfresh hcert, ?_⟩
      intro side m hm
      cases side with
      | key =>
        rw [others' _ hne.symm (hbak ▸ (bak_bak_ne_self _).symm)] at hm
        cases gone.symm.trans hm
      | cert => cases gone'.symm.trans hm
    refine install_calm hfresh hne hproper hcleared ?_
    intro x hx
    refine (removeBackup_ends .calm .cert _ x).bind ?_
    intro y _ hy
    rw [← hbak]
    refine (removeBackup_calm ?_).map ?_
    · refine (hy _ ?_).trans (hx .cert)
      intro heq
      exact bak_ne_self _ (Option.some.inj heq)
    · intro z _ hz
      exact not_sound_of_gone .cert hz

/-! ## The new key that stays -/

def Schedule.stubborn : Schedule where
  fails
    | .cert, .install => some .permission
    | .key, .uninstall => some .permission
    | _, _ => none
  honest side := by cases side <;> exact (Option.some_ne_none _).symm

theorem calmTemps_stubborn : CalmTemps .stubborn := by
  refine ⟨?_, ?_, ?_⟩
  · rintro (_ | _) <;> rfl
  · rintro (_ | _) <;> rfl
  · rintro (_ | _) (h | h | h) <;> exact h rfl

theorem calmMoves_stubborn : CalmMoves .stubborn := by
  refine ⟨?_, ?_, ?_, ?_, rfl⟩ <;> rintro (_ | _) <;> rfl

variable {certBackup : Option Path} (hproper : ∀ side, job.path side ≠ [])
  (hcleared : Cleared job v)
  (hbackup : certBackup = none ∨ certBackup = some (bak (job.path .cert)) ∧
    job.path .key ≠ bak (job.path .cert) ∧
    ∃ n, v.node (bak (job.path .cert)) = some n ∧ n.isDir = false)

include hfresh hne hproper hcleared hbackup in
theorem restoreCert_stubborn (hw : KeyInstalled job v w) :
    Ends (fun x result => result = .ok () ∧
        x.node (job.path .key) = some (.file (mode .key) (job.data .key)))
      (restoreFile job .stubborn .cert certBackup false) w := by
  rcases hbackup with rfl | ⟨rfl, hapart, n, hn, hleaf⟩
  · exact Ends.pure ⟨rfl, hw.key⟩
  have hplace := hw.movable hfresh hne (hproper .cert) hcleared
  have hmovable : w.Movable (bak (job.path .cert)) (job.path .cert) := by
    refine ⟨⟨n, ?_, hleaf⟩, hplace.target, hproper .cert, ?_, hplace.fills⟩
    · exact (hw.of_ne hapart.symm (hfresh.notBackup .key .cert).symm).trans hn
    · rw [tail_bak]
      exact hplace.fills
  refine (restoreFile_calm calmMoves_stubborn (bak_ne_self _) hmovable).mono ?_
  rintro x result ⟨hok, -, hothers⟩
  exact ⟨hok, (hothers _ hne.symm hapart).trans hw.key⟩

include hfresh hne hproper hcleared hbackup in
theorem install_stubborn (hnew : s.seen (job.path .key) = none) :
    Ends (fun u outcome => ¬ Sound job s u outcome.answer)
      (install job .stubborn none certBackup) v := by
  refine (keyInstall_ends hfresh (hproper .key) hcleared).bind ?_
  rintro w keyResult ⟨hkeyErr, hkeyOk⟩
  cases keyResult with
  | error err => exact absurd rfl (hkeyErr err rfl).2
  | ok _ =>
    have hw := (hkeyOk rfl).2
    refine (certInstall_ends hfresh hne (hproper .cert) hcleared hw).bind ?_
    rintro x certResult ⟨hcertErr, hcertOk⟩
    cases certResult with
    | ok _ => cases (hcertOk rfl).1
    | error err =>
      obtain ⟨rfl, -⟩ := hcertErr err rfl
      have hrestore : Ends (fun u restored => restored = ⟨none, none⟩ ∧
          u.node (job.path .key) = some (.file (mode .key) (job.data .key)))
          (restoreCertKeyPair job .stubborn certBackup none false true) x := by
        refine (restoreCert_stubborn hfresh hne hproper hcleared hbackup hw).bind ?_
        rintro y _ ⟨rfl, hy⟩
        refine (restoreFile_ends true ?_).map ?_
        · rintro _ ⟨⟩
        · intro z result hz
          -- the error of the removal is not looked at
          obtain ⟨rfl, hsame | hgone⟩ := hz.nothing rfl
          · exact ⟨rfl, hsame.1.trans hy⟩
          · cases hgone.2.1
      refine hrestore.map ?_
      rintro u _ ⟨rfl, hu⟩
      exact not_sound_of_taken rfl .key hnew hu nofun

include hfresh hne in
theorem keyIsNew_unsound
    (hcertMade : ¬ CertMade job s) (hkeyMade : ¬ KeyMade job s) (hkeyBackup : ¬ KeyIsBackup job s)
    (h : KeyIsNew job s) : Unsound job .stubborn s := by
  obtain ⟨hready, hnew, hnodir, hfree⟩ := h
  have hproper := fun side => (hready side).1
  refine prepares_ends hfresh hne calmTemps_stubborn hready ?_
  intro t hprepared
  have hkept := hprepared.touched.kept hfresh hcertMade hkeyMade
  have hnewT : t.seen (job.path .key) = none := (seen_congr (hkept .key)).trans hnew
  have hfreeT : t.IsFile (job.path .cert) → ¬ t.Stuck (bak (job.path .cert)) := by
    intro hfile hstuck
    obtain ⟨hfree, hway⟩ := hfree ((isFile_congr (hkept .cert)).mp hfile)
    refine hfree (hprepared.unstuck (fun side => hfresh.notBackup side .cert) ?_ hstuck)
    intro side hsuffix
    cases side with
    | key => exact hway hsuffix
    | cert =>
      have hlt := length_lt_of_suffix hsuffix (bak_ne_nil _)
      have hle := length_le_bak (job.path .cert)
      omega
  refine (backup_ends job .stubborn .key t).bind ?_
  intro u keyResult hkey
  obtain ⟨keyBackup, rfl, hkeyCalm⟩ := hkey.calm calmMoves_stubborn
    (fun n hn => by cases hn.symm.trans hnewT)
    (fun ⟨n, hn, _⟩ => by cases hn.symm.trans hnewT) (hprepared.fills .key)
  cases hkeyCalm with
  | moved file gone kept others =>
    obtain ⟨n, hn, -⟩ := file
    cases hn.symm.trans hnewT
  | absent found same =>
    subst same
    refine (backup_ends job .stubborn .cert u).bind ?_
    intro v certResult hcert
    obtain ⟨certBackup, rfl, hcertCalm⟩ := hcert.calm calmMoves_stubborn
      (fun n hn => hnodir n ((seen_congr (hkept .cert)).symm.trans hn)) hfreeT
      (hprepared.fills .cert)
    have hstagedV := hprepared.toStaged.saving hfresh hcert
    cases hcertCalm with
    | absent found' same' =>
      subst same'
      refine install_stubborn hfresh hne hproper ⟨hstagedV, ?_⟩ (.inl rfl) hnew
      intro side m hm
      cases side with
      | key => exact leaf_of_seen_none found hm
      | cert => exact leaf_of_seen_none found' hm
    | moved file gone kept others =>
      have hapart : job.path .key ≠ bak (job.path .cert) := by
        intro hbak
        refine hkeyBackup ⟨hready, hbak, (isFile_congr (hkept .cert)).mp file, ?_, ?_⟩
        · intro n hn
          cases hn.symm.trans hnew
        · rintro ⟨⟨n, hn, -⟩, -⟩
          cases hn.symm.trans hnew
      refine install_stubborn hfresh hne hproper ⟨hstagedV, ?_⟩
        (.inr ⟨rfl, hapart, ?_⟩) hnew
      · intro side m hm
        cases side with
        | key => exact leaf_of_seen_none found ((others _ hne.symm hapart).symm.trans hm)
        | cert => cases gone.symm.trans hm
      · obtain ⟨n, hn, hleaf⟩ := file
        exact ⟨n, kept.trans (seen_eq_some hn), isDir_eq_false hleaf⟩

/-! ## The exact condition for a certificate update -/

variable {mayFail : Side → Step → Prop}
  (hsch : ∀ side step, sch.fails side step ≠ none → mayFail side step)
  (hexposed : ¬ Exposed job s mayFail)

theorem Sound.before {answer : Except Error Unit} (h : Sound job t u answer)
    (hkept : ∀ side, t.node (job.path side) = s.node (job.path side)) : Sound job s u answer := by
  cases answer with
  | ok _ => exact h
  | error err => exact fun hrollback side => (h hrollback side).trans (seen_congr (hkept side))

theorem sound_error {err : Error} (h : ∀ side, u.node (job.path side) = s.node (job.path side)) :
    Sound job s u (.error err) :=
  fun _ side => seen_congr (h side)

theorem Prepared.stuck (hfresh : FreshTemps job s) (h : Prepared job s t) {p : Path}
    (hstuck : s.Stuck p) : t.Stuck p := by
  obtain ⟨q, hq, hsuffix, hne⟩ := hstuck
  refine ⟨q, hq, hsuffix, ?_⟩
  have htemp : ∀ side, q ≠ job.tempPath side := by
    rintro side rfl
    exact hne (hfresh.free side)
  rcases h.touched q htemp with hsame | ⟨hnone, -⟩
  · rwa [hsame]
  · exact absurd hnone hne

theorem Prepared.stuck_of_suffix (hfresh : FreshTemps job s) (h : Prepared job s t)
    {side other : Side} (hsuffix : bak (job.path side) <:+ (job.path other).tail) :
    t.Stuck (bak (job.path side)) := by
  refine ⟨job.tempPath other, hfresh.notBackup other side, ?_, by simp [h.temp other]⟩
  exact hsuffix.trans (suffix_cons _ _)

include hfresh hne hsch hexposed

theorem exchange_sound (hprepared : Prepared job s t)
    (hkept : ∀ side, t.node (job.path side) = s.node (job.path side)) :
    Ends (fun u outcome => Sound job t u outcome.answer) (exchange job sch) t := by
  simp only [Exposed, not_or] at hexposed
  obtain ⟨-, -, hcert, hkey, hnew⟩ := hexposed
  have hfile := fun side => isFile_congr (hkept side)
  have hseen := fun side => seen_congr (hkept side)
  by_cases hkeyFile : t.IsFile (job.path .key) ∧ job.path .cert = bak (job.path .key)
  · refine exchange_cert_is_backup hkeyFile.2 hkeyFile.1 ?_
    by_contra hnot
    rw [not_or, not_and_or] at hnot
    refine hcert ⟨hprepared.ready, hkeyFile.2, (hfile .key).mp hkeyFile.1, ?_, ?_⟩
    · exact fun hstuck => hnot.1 (hprepared.stuck hfresh hstuck)
    · rcases hnot.2 with hnot | hnot
      · exact .inl (hseen .cert ▸ hnot)
      · exact .inr fun hstuck => hnot (hprepared.stuck hfresh hstuck)
  by_cases hcertFile : t.IsFile (job.path .cert) ∧ job.path .key = bak (job.path .cert)
  · refine exchange_key_is_backup hcertFile.2 ?_
    by_contra hnot
    rw [not_or, not_and_or] at hnot
    refine hkey ⟨hprepared.ready, hcertFile.2, (hfile .cert).mp hcertFile.1, ?_, ?_⟩
    · intro n hn
      rw [← Bool.not_eq_true]
      exact fun hdir => hnot.1 ⟨n, (hseen .key).trans hn, hdir⟩
    · rintro ⟨hfile', hstuck⟩
      rcases hnot.2 with hnot | hnot
      · exact hnot ((hfile .key).mpr hfile')
      · exact hnot (hprepared.stuck hfresh hstuck)
  · refine exchange_apart hne hfresh (fun side => (hprepared.ready side).1)
      hprepared.toStaged ?_ ?_
    · intro side hside other heq
      cases side <;> cases other
      · exact bak_ne_self _ heq
      · exact hkeyFile ⟨hside, heq.symm⟩
      · exact hcertFile ⟨hside, heq.symm⟩
      · exact bak_ne_self _ heq
    · intro hfails hnone hnodir hfree
      by_contra hnot
      refine hnew ⟨hsch _ _ hfails, hsch _ _ hnot, hprepared.ready, ?_, ?_, ?_⟩
      · rw [← hseen .key, hnone]
      · exact fun n hn => hnodir n ((hseen .cert).trans hn)
      · intro hfile'
        have hfree' := hfree ((hfile .cert).mpr hfile')
        exact ⟨fun hstuck => hfree' (hprepared.stuck hfresh hstuck),
          fun hsuffix => hfree' (hprepared.stuck_of_suffix hfresh hsuffix)⟩

theorem sound_of_not_exposed :
    Ends (fun u answer => Sound job s u answer) (writeCertKeyPairAtomic job sch) s := by
  have hcertMade : ¬ CertMade job s := fun h => hexposed (.inl h)
  have hkeyMade : ¬ KeyMade job s := fun h => hexposed (.inr (.inl h))
  unfold writeCertKeyPairAtomic
  rw [if_neg hne]
  refine (writeTempFile_ends job sch .key s).bind ?_
  intro t keyResult hkey
  cases keyResult with
  | error err =>
    exact Ends.pure (sound_error ((touched_key hkey).kept hfresh hcertMade hkeyMade))
  | ok _ =>
    refine finish_ends hfresh (fun hsame h => Sound.congr h hsame) ?_
    refine (writeTempFile_ends job sch .cert t).bind ?_
    intro u certResult hcert
    have hkept := (touched_cert hfresh hkey hcert).kept hfresh hcertMade hkeyMade
    cases certResult with
    | error err => exact Ends.pure (sound_error hkept)
    | ok _ =>
      have hprepared := prepared_of_temps hfresh hkey hcert
      exact (exchange_sound hfresh hne hsch hexposed hprepared hkept).mono
        fun v outcome hv => hv.before hkept

end

/-- **An update is all or nothing under every schedule that may occur, if and only if it is not
exposed.** -/
theorem pair_atomic_iff (job : Job) (s : FS) (hfresh : FreshTemps job s)
    (hne : job.path .cert ≠ job.path .key) (mayFail : Side → Step → Prop) :
    (∀ sch : Schedule, (∀ side step, sch.fails side step ≠ none → mayFail side step) →
        Sound job s ((writeCertKeyPairAtomic job sch).run s).1
          ((writeCertKeyPairAtomic job sch).run s).2) ↔
      ¬ Exposed job s mayFail := by
  constructor
  · intro hsound hexposed
    have hcalm := hsound .calm fun _ _ h => absurd rfl h
    by_cases hcertMade : CertMade job s
    · exact certMade_unsound hfresh hne hcertMade hcalm
    by_cases hkeyMade : KeyMade job s
    · exact keyMade_unsound hfresh hne hkeyMade hcalm
    by_cases hkeyBackup : KeyIsBackup job s
    · exact keyIsBackup_unsound hfresh hne hkeyBackup hcalm
    rcases hexposed with h | h | h | h | ⟨hinstall, huninstall, hnew⟩
    · exact hcertMade h
    · exact hkeyMade h
    · exact certIsBackup_unsound hfresh hne h hcalm
    · exact hkeyBackup h
    · refine keyIsNew_unsound hfresh hne hcertMade hkeyMade hkeyBackup hnew (hsound .stubborn ?_)
      intro side step h
      cases side <;> cases step <;> first | exact hinstall | exact huninstall | exact absurd rfl h
  · intro hexposed sch hsch
    exact sound_of_not_exposed hfresh hne hsch hexposed

/-! ## Two disks -/

section Sample

def keyName : Name := ⟨utf8 "k", by decide⟩

def certName : Name := ⟨utf8 "c", by decide⟩

def backupName : Name := ⟨utf8 "k.bak", by decide⟩

def keyTempName : Name := ⟨utf8 ".k.tmp-1", by decide⟩

def certTempName : Name := ⟨utf8 ".c.tmp-2", by decide⟩

def sampleJob (cert : Name) : Job where
  proc := ⟨true, 0⟩
  path
    | .key => [keyName]
    | .cert => [cert]
  data
    | .key => utf8 "new key"
    | .cert => utf8 "new certificate"
  temp
    | .key => keyTempName
    | .cert => certTempName

def sampleDisk (keyed : Bool) : FS where
  nodes := [([], .dir 0o755 true), ([certName], .file 0o644 (utf8 "old certificate"))] ++
    if keyed then [([keyName], .file 0o600 (utf8 "old key"))] else []
  nodup := by cases keyed <;> decide
  parent := by
    intro x p n h
    refine ⟨.dir 0o755 true, ?_, rfl⟩
    cases keyed <;> simp at h ⊢ <;> grind

theorem sample_freshTemps (keyed : Bool) {cert : Name}
    (hcert : cert = certName ∨ cert = backupName) :
    FreshTemps (sampleJob cert) (sampleDisk keyed) := by
  rcases hcert with rfl | rfl
  · refine ⟨?_, ?_, ?_, by decide⟩
    · rintro (_ | _) <;> cases keyed <;> rfl
    · rintro (_ | _) (_ | _) <;> decide
    · rintro (_ | _) (_ | _) <;> decide
  · refine ⟨?_, ?_, ?_, by decide⟩
    · rintro (_ | _) <;> cases keyed <;> rfl
    · rintro (_ | _) (_ | _) <;> decide
    · rintro (_ | _) (_ | _) <;> decide

theorem sample_not_exposed (mayFail : Side → Step → Prop) :
    ¬ Exposed (sampleJob certName) (sampleDisk true) mayFail := by
  rintro (⟨hnone, -⟩ | ⟨hnone, -⟩ | ⟨-, hbak, -⟩ | ⟨-, hbak, -⟩ | ⟨-, -, -, hnone, -⟩)
  · cases hnone
  · cases hnone
  · revert hbak
    decide
  · revert hbak
    decide
  · cases hnone

/-- With a key and a certificate in place, whatever fails. -/
theorem renewal_atomic :
    FreshTemps (sampleJob certName) (sampleDisk true) ∧
      ∀ sch : Schedule, Sound (sampleJob certName) (sampleDisk true)
        ((writeCertKeyPairAtomic (sampleJob certName) sch).run (sampleDisk true)).1
        ((writeCertKeyPairAtomic (sampleJob certName) sch).run (sampleDisk true)).2 := by
  have hfresh := sample_freshTemps true (.inl rfl)
  refine ⟨hfresh, fun sch => ?_⟩
  exact (pair_atomic_iff _ _ hfresh (by decide) fun _ _ => True).mpr (sample_not_exposed _) sch
    fun _ _ _ => trivial

/-- Without a key, the certificate cannot be moved in and the new key cannot be removed. -/
theorem new_key_stays :
    (FreshTemps (sampleJob certName) (sampleDisk false) ∧
      ¬ Sound (sampleJob certName) (sampleDisk false)
        ((writeCertKeyPairAtomic (sampleJob certName) .stubborn).run (sampleDisk false)).1
        ((writeCertKeyPairAtomic (sampleJob certName) .stubborn).run
          (sampleDisk false)).2) ∧ (FreshTemps (sampleJob backupName) (sampleDisk true) ∧
      ¬ Sound (sampleJob backupName) (sampleDisk true)
        ((writeCertKeyPairAtomic (sampleJob backupName) .calm).run (sampleDisk true)).1
        ((writeCertKeyPairAtomic (sampleJob backupName) .calm).run
          (sampleDisk true)).2) := by
  refine ⟨⟨sample_freshTemps false (.inl rfl), ?_⟩, sample_freshTemps true (.inr rfl), ?_⟩
  · have hanswer : ((writeCertKeyPairAtomic (sampleJob certName) .stubborn).run
        (sampleDisk false)).2 = .error (.replaceCert .permission ⟨none, none⟩) := rfl
    rw [hanswer]
    exact not_sound_of_taken rfl .key rfl rfl (by decide)
  · have hanswer : ((writeCertKeyPairAtomic (sampleJob backupName) .calm).run
        (sampleDisk true)).2 = .ok () := rfl
    rw [hanswer]
    exact not_sound_of_gone .cert rfl

end Sample

end AwgMesh.Clientd.CertUpdate
