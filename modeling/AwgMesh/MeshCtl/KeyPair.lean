import AwgMesh.Lib.Rely
import AwgMesh.PathText
import AwgMesh.Wg.Key

/-!
# Creating a key pair once

`loadOrCreateWireGuardKeyPair` of `cmd/mesh-ctl/cmd/node_mikrotik.go`.
-/

namespace AwgMesh.MeshCtl.KeyPair

open Lib Wg ByteText PathText Handler Files List

/-! ## The program -/

inductive Kind where
  | privateKey
  | publicKey

inductive Occasion where
  | first
  | existing
  | written

inductive Op where
  | mkdir
  | read (kind : Kind) (occasion : Occasion)
  | createTemp (kind : Kind)
  | writeTemp (kind : Kind)
  | chmodTemp (kind : Kind)
  | closeTemp (kind : Kind)
  | link (kind : Kind)
  | removeTemp (kind : Kind)

structure Call where
  fails : Op → Option OsError := fun _ => none
  generated : Except Bytes Key

inductive Error where
  | mkdir (err : OsError)
  | read (kind : Kind) (path : Bytes) (err : OsError)
  | parse (kind : Kind) (path : Bytes)
  | zero (kind : Kind) (path : Bytes)
  | generate (err : Bytes)
  | write (kind : Kind) (path : Bytes) (err : OsError)
  | changed (path : Bytes)
  | mismatch (path : Bytes)

def Error.isNotExist : Error → Bool
  | .read _ _ err => err = .notExist
  | _ => false

def keyText (key : Key) : Bytes := key.string ++ [lf]

def parseStored (kind : Kind) (path : Bytes) : Except OsError Bytes → Except Error Key
  | .error err => .error (.read kind path err)
  | .ok raw =>
    match Key.parseKey (ByteText.trimSpace raw) with
    | none => .error (.parse kind path)
    | some key => if key.isZero then .error (.zero kind path) else .ok key

section Program

variable (call : Call)

def readNonZeroWGKey (kind : Kind) (occasion : Occasion) (path : Bytes) :
    Handler (Files Bytes Bytes) (Except Error Key) :=
  parseStored kind path <$>
    attempt (call.fails (.read kind occasion)) (read path)

def fillAndLink (kind : Kind) (path : Bytes) (data : Bytes) :
    Handler (Files Bytes Bytes) (Except OsError Unit) :=
  andThen (.attempt (call.fails (.writeTemp kind)) own) fun _ =>
    andThen (.attempt (call.fails (.chmodTemp kind)) own) fun _ =>
      andThen (.attempt (call.fails (.closeTemp kind)) own) fun _ =>
        .attempt (call.fails (.link kind)) (link path data)

def writeFileExclusive (kind : Kind) (path : Bytes) (data : Bytes) :
    Handler (Files Bytes Bytes) (Except OsError Unit) :=
  andThen (.attempt (call.fails (.createTemp kind)) own) fun _ =>
    fillAndLink call kind path data >>= fun result =>
      (fun _ => result) <$> attempt (call.fails (.removeTemp kind)) own

def loadOrCreatePrivateWGKey (path : Bytes) : Handler (Files Bytes Bytes) (Except Error Key) :=
  readNonZeroWGKey call .privateKey .first path >>= fun
    | .ok key => pure (.ok key)
    | .error err =>
      if !err.isNotExist then pure (.error err)
      else match call.generated with
        | .error err => pure (.error (.generate err))
        | .ok generated =>
          writeFileExclusive call .privateKey path (keyText generated) >>= fun
            | .error .exist => readNonZeroWGKey call .privateKey .existing path
            | .error err => pure (.error (.write .privateKey path err))
            | .ok () =>
              andThen (readNonZeroWGKey call .privateKey .written path) fun stored =>
                pure (if stored ≠ generated then .error (.changed path) else .ok stored)

def requireStoredPublicWGKey (occasion : Occasion) (path : Bytes) (expected : Key) :
    Handler (Files Bytes Bytes) (Except Error Unit) :=
  andThen (readNonZeroWGKey call .publicKey occasion path) fun existing =>
    pure (if existing ≠ expected then .error (.mismatch path) else .ok ())

def syncPublicWGKey (path : Bytes) (expected : Key) :
    Handler (Files Bytes Bytes) (Except Error Unit) :=
  requireStoredPublicWGKey call .first path expected >>= fun
    | .ok () => pure (.ok ())
    | .error err =>
      if !err.isNotExist then pure (.error err)
      else writeFileExclusive call .publicKey path (keyText expected) >>= fun
        | .error .exist => requireStoredPublicWGKey call .existing path expected
        | .error err => pure (.error (.write .publicKey path err))
        | .ok () => requireStoredPublicWGKey call .written path expected

structure WireGuardKeyPairPaths where
  privateKeyPath : Bytes
  publicKeyPath : Bytes

def wireGuardKeyPairPaths (dir privateFilename publicFilename : Bytes) : WireGuardKeyPairPaths where
  privateKeyPath := joinText dir privateFilename
  publicKeyPath := joinText dir publicFilename

def loadOrCreateWireGuardKeyPair (publicKey : Key → Key)
    (dir privateFilename publicFilename : Bytes) :
    Handler (Files Bytes Bytes) (Except Error (Key × Key)) :=
  let paths := wireGuardKeyPairPaths dir privateFilename publicFilename
  attempt (call.fails .mkdir) own >>= fun
    | .error err => pure (.error (.mkdir err))
    | .ok () =>
      andThen (loadOrCreatePrivateWGKey call paths.privateKeyPath) fun key =>
        andThen (syncPublicWGKey call paths.publicKeyPath (publicKey key)) fun _ =>
          pure (.ok (key, publicKey key))

end Program

def creators (publicKey : Key → Key) (dir privateFilename publicFilename : Bytes)
    (files : Files Bytes Bytes) :
    Machine (Counted (Files Bytes Bytes) Call (Except Error (Key × Key))) (Event Call) :=
  handlers (fun call => loadOrCreateWireGuardKeyPair call publicKey dir privateFilename
    publicFilename) files

/-! ## What the calls keep to -/

theorem parseKey_keyText (key : Key) :
    Key.parseKey (ByteText.trimSpace (keyText key)) = some key := by
  rw [keyText, trimSpace_append_blank (by decide) key.visible_string.trimmed, Key.parseKey_string]

theorem parseStored_keyText {kind : Kind} {path : Bytes} {key key' : Key}
    (h : parseStored kind path (.ok (keyText key)) = .ok key') : key' = key := by
  unfold parseStored at h
  dsimp only at h
  rw [parseKey_keyText] at h
  dsimp only at h
  split at h
  · cases h
  · cases h
    rfl

def Texts (paths : List Bytes) (s : Files Bytes Bytes) : Prop :=
  ∀ path ∈ paths, ∀ content, s path = some content → ∃ key, content = keyText key

def Keeps (paths : List Bytes) (s t : Files Bytes Bytes) : Prop :=
  Grows s t ∧ (Texts paths s → Texts paths t)

def Stored (path : Bytes) (s : Files Bytes Bytes) (answer : Except Error Key) : Prop :=
  ∀ key, answer = .ok key → s path = some (keyText key)

section Keeps

variable {paths : List Bytes} {s t u : Files Bytes Bytes}

theorem Keeps.refl (s : Files Bytes Bytes) : Keeps paths s s := ⟨.refl s, id⟩

theorem Keeps.trans (h : Keeps paths s t) (h' : Keeps paths t u) : Keeps paths s u :=
  ⟨h.1.trans h'.1, fun hs => h'.2 (h.2 hs)⟩

theorem Keeps.texts (h : Keeps paths s t) (hs : Texts paths s) : Texts paths t := h.2 hs

variable {path : Bytes}

theorem keeps_link {key : Key} {u : Unit}
    (h : link path (keyText key) s = .ok (t, u)) : Keeps paths s t := by
  obtain ⟨hgrows, rfl⟩ := link_eq_ok h
  refine ⟨hgrows, ?_⟩
  intro htexts path' hpath' content hcontent
  by_cases heq : path' = path
  · rw [heq, Function.update_self] at hcontent
    cases hcontent
    exact ⟨key, rfl⟩
  · rw [Function.update_of_ne heq] at hcontent
    exact htexts path' hpath' content hcontent

variable (call : Call)

open Abides

theorem own_abides {failure : Option OsError} :
    Abides (Keeps paths) (fun _ _ => True) (.attempt failure own) s := by
  refine attempt .refl .trans (fun _ _ _ => trivial) ?_
  intro s' t a _ hown
  cases hown
  exact ⟨.refl s', fun _ _ => trivial⟩

theorem readNonZeroWGKey_abides (htexts : Texts paths s) (hpath : path ∈ paths)
    (kind : Kind) (occasion : Occasion) :
    (readNonZeroWGKey call kind occasion path).Abides (Keeps paths) (Stored path) s := by
  have hread : Abides (Keeps paths)
      (fun s' raw => ∀ content, raw = .ok content → s' path = some content ∧
        ∃ key, content = keyText key)
      (.attempt (call.fails (.read kind occasion)) (read path)) s := by
    refine attempt .refl .trans nofun ?_
    intro s' t content hR hread
    obtain ⟨rfl, hget⟩ := read_eq_ok hread
    refine ⟨.refl t, ?_⟩
    rintro u hu _ ⟨⟩
    exact ⟨hu.1 path content hget, hR.texts htexts path hpath content hget⟩
  refine hread.map .refl ?_
  intro s' raw hraw t hR key hkey
  cases raw with
  | error err => cases hkey
  | ok content =>
    obtain ⟨hget, key', rfl⟩ := hraw content rfl
    cases parseStored_keyText hkey
    exact hR.1 path _ hget

theorem writeFileExclusive_abides (paths : List Bytes) (s : Files Bytes Bytes) (kind : Kind)
    (path : Bytes) (key : Key) :
    (writeFileExclusive call kind path (keyText key)).Abides (Keeps paths) (fun _ _ => True) s := by
  have hlink : ∀ s, Abides (Keeps paths) (fun _ _ => True)
      (.attempt (call.fails (.link kind)) (link path (keyText key))) s := by
    intro s
    refine attempt .refl .trans (fun _ _ _ => trivial) ?_
    exact fun s' t a _ hlink => ⟨keeps_link hlink, fun _ _ => trivial⟩
  have hfill : ∀ s, Abides (Keeps paths) (fun _ _ => True)
      (fillAndLink call kind path (keyText key)) s := by
    intro s
    refine own_abides.andThen .refl (fun _ _ _ _ _ => trivial) fun s₁ _ _ => ?_
    refine own_abides.andThen .refl (fun _ _ _ _ _ => trivial) fun s₂ _ _ => ?_
    exact own_abides.andThen .refl (fun _ _ _ _ _ => trivial) fun s₃ _ _ => hlink s₃
  refine own_abides.andThen .refl (fun _ _ _ _ _ => trivial) fun s₁ _ _ => ?_
  refine (hfill s₁).bind .refl fun s₂ result _ => ?_
  exact own_abides.map .refl fun _ _ _ _ _ => trivial

theorem loadOrCreatePrivateWGKey_abides (htexts : Texts paths s) (hpath : path ∈ paths) :
    (loadOrCreatePrivateWGKey call path).Abides (Keeps paths) (Stored path) s := by
  have hread := readNonZeroWGKey_abides call htexts hpath .privateKey .first
  refine (hread.frame (F := Texts _) Keeps.texts htexts).bind .refl ?_
  rintro s₁ answer ⟨hstored, htexts₁⟩
  cases answer with
  | ok key => exact pure fun t hR key' hkey' => hR.1 path _ (hstored key' hkey')
  | error err =>
    dsimp only
    split
    · exact pure fun _ _ => nofun
    · cases call.generated with
      | error err => exact pure fun _ _ => nofun
      | ok generated =>
        have hwrite := writeFileExclusive_abides call paths s₁ .privateKey path generated
        refine (hwrite.frame (F := Texts _) Keeps.texts htexts₁).bind .refl ?_
        rintro s₂ result ⟨-, htexts₂⟩
        split
        · exact readNonZeroWGKey_abides call htexts₂ hpath .privateKey .existing
        · exact pure fun _ _ => nofun
        · refine (readNonZeroWGKey_abides call htexts₂ hpath .privateKey .written).andThen .refl
            (fun _ _ _ _ _ => nofun) ?_
          intro s₃ stored hstored
          refine pure fun t hR key hkey => ?_
          split at hkey
          · cases hkey
          · cases hkey
            exact hR.1 path _ (hstored stored rfl)

def Synced (path : Bytes) (expected : Key) (s : Files Bytes Bytes)
    (answer : Except Error Unit) : Prop :=
  answer = .ok () → s path = some (keyText expected)

theorem requireStoredPublicWGKey_abides (htexts : Texts paths s)
    (hpath : path ∈ paths) (occasion : Occasion) (expected : Key) :
    (requireStoredPublicWGKey call occasion path expected).Abides (Keeps paths)
      (Synced path expected) s := by
  refine (readNonZeroWGKey_abides call htexts hpath .publicKey occasion).andThen .refl
    (fun _ _ _ _ _ => nofun) ?_
  intro s₁ existing hstored
  refine pure fun t hR hok => ?_
  split at hok
  · cases hok
  · next heq =>
      rw [ne_eq, not_not] at heq
      exact hR.1 path _ (heq ▸ hstored existing rfl)

theorem syncPublicWGKey_abides (htexts : Texts paths s) (hpath : path ∈ paths) (expected : Key) :
    (syncPublicWGKey call path expected).Abides (Keeps paths) (Synced path expected) s := by
  have hrequire := requireStoredPublicWGKey_abides call htexts hpath .first expected
  refine (hrequire.frame (F := Texts _) Keeps.texts htexts).bind .refl ?_
  rintro s₁ answer ⟨hsynced, htexts₁⟩
  cases answer with
  | ok _ => exact pure fun t hR _ => hR.1 path _ (hsynced rfl)
  | error err =>
    dsimp only
    split
    · exact pure fun _ _ => nofun
    · have hwrite := writeFileExclusive_abides call paths s₁ .publicKey path expected
      refine (hwrite.frame (F := Texts _) Keeps.texts htexts₁).bind .refl ?_
      rintro s₂ result ⟨-, htexts₂⟩
      split
      · exact requireStoredPublicWGKey_abides call htexts₂ hpath .existing expected
      · exact pure fun _ _ => nofun
      · exact requireStoredPublicWGKey_abides call htexts₂ hpath .written expected

end Keeps

/-! ## Any number of calls -/

def Delivered (publicKey : Key → Key) (paths : WireGuardKeyPairPaths) (s : Files Bytes Bytes)
    (answer : Except Error (Key × Key)) : Prop :=
  ∀ key pub, answer = .ok (key, pub) → pub = publicKey key ∧
    s paths.privateKeyPath = some (keyText key) ∧ s paths.publicKeyPath = some (keyText pub)

def WireGuardKeyPairPaths.both (paths : WireGuardKeyPairPaths) : List Bytes :=
  [paths.privateKeyPath, paths.publicKeyPath]

theorem loadOrCreateWireGuardKeyPair_abides (call : Call) (publicKey : Key → Key)
    (dir privateFilename publicFilename : Bytes) {s : Files Bytes Bytes}
    (htexts : Texts (wireGuardKeyPairPaths dir privateFilename publicFilename).both s) :
    (loadOrCreateWireGuardKeyPair call publicKey dir privateFilename publicFilename).Abides
      (Keeps (wireGuardKeyPairPaths dir privateFilename publicFilename).both)
      (Delivered publicKey (wireGuardKeyPairPaths dir privateFilename publicFilename)) s := by
  unfold loadOrCreateWireGuardKeyPair
  dsimp only
  generalize wireGuardKeyPairPaths dir privateFilename publicFilename = paths at htexts ⊢
  have hprivate : paths.privateKeyPath ∈ paths.both := mem_cons_self
  have hpublic : paths.publicKeyPath ∈ paths.both := mem_cons_of_mem _ mem_cons_self
  refine (own_abides.frame (F := Texts _) Keeps.texts htexts).bind .refl ?_
  rintro s₁ made ⟨-, htexts₁⟩
  cases made with
  | error err => exact Abides.pure fun _ _ => nofun
  | ok _ =>
    have hload := loadOrCreatePrivateWGKey_abides call htexts₁ hprivate
    refine (hload.frame (F := Texts _) Keeps.texts htexts₁).andThen .refl
      (fun _ _ _ _ _ => nofun) ?_
    rintro s₂ key ⟨hstored, htexts₂⟩
    -- the private file keeps its text while the public one is brought in line
    have hsync := syncPublicWGKey_abides call htexts₂ hpublic (publicKey key)
    refine (hsync.frame (fun hR h => hR.1 _ _ h) (hstored key rfl)).andThen .refl
      (fun _ _ _ _ _ => nofun) ?_
    rintro s₃ _ ⟨hsynced, hkey⟩
    refine Abides.pure ?_
    rintro t hR key' pub ⟨⟩
    exact ⟨rfl, hR.1 _ _ hkey, hR.1 _ _ (hsynced rfl)⟩

/-- **The first creator wins.** -/
theorem first_creator_wins (publicKey : Key → Key) (dir privateFilename publicFilename : Bytes)
    (files : Files Bytes Bytes) (hprivate : files (joinText dir privateFilename) = none)
    (hpublic : files (joinText dir publicFilename) = none)
    {c : Counted (Files Bytes Bytes) Call (Except Error (Key × Key))}
    (h : (creators publicKey dir privateFilename publicFilename files).Reachable c) :
    (∀ call call' key key' pub pub', ⟨call, .done (.ok (key, pub))⟩ ∈ c.pool.threads →
      ⟨call', .done (.ok (key', pub'))⟩ ∈ c.pool.threads → key = key') ∧
    ∀ call key pub, ⟨call, .done (.ok (key, pub))⟩ ∈ c.pool.threads → pub = publicKey key ∧
        c.pool.shared (joinText dir publicFilename) = some (keyText (publicKey key)) := by
  have htexts : Texts (wireGuardKeyPairPaths dir privateFilename publicFilename).both files := by
    intro path hpath content hcontent
    rcases mem_pair.mp hpath with rfl | rfl
    · cases hprivate.symm.trans hcontent
    · cases hpublic.symm.trans hcontent
  obtain ⟨-, habides⟩ := abides_of_reachable Keeps.refl Keeps.trans
    (fun call s hR => loadOrCreateWireGuardKeyPair_abides call publicKey dir privateFilename
      publicFilename (hR.texts htexts)) h
  have hdelivered := fun call answer (hdone : ⟨call, .done answer⟩ ∈ _) =>
    habides _ hdone c.pool.shared (Keeps.refl _)
  refine ⟨?_, ?_⟩
  · intro call call' key key' pub pub' hdone hdone'
    obtain ⟨-, hkey, -⟩ := hdelivered call _ hdone key pub rfl
    obtain ⟨-, hkey', -⟩ := hdelivered call' _ hdone' key' pub' rfl
    have htext : keyText key = keyText key' := Option.some.inj (hkey.symm.trans hkey')
    have hparse := congrArg (fun text => Key.parseKey (ByteText.trimSpace text)) htext
    rw [parseKey_keyText, parseKey_keyText] at hparse
    exact Option.some.inj hparse
  · intro call key pub hdone
    obtain ⟨rfl, -, hpub⟩ := hdelivered call _ hdone key pub rfl
    exact ⟨rfl, hpub⟩

def generating (b : UInt8) : Call := { generated := .ok (.repeated b) }

def race : List (Event Call) :=
  .start (generating 1) :: .start (generating 2) ::
    (replicate 8 [.next 0, .next 1]).flatten ++ replicate 9 (.next 0) ++
      [.next 1, .next 1]

def sampleCreators : Machine (Counted (Files Bytes Bytes) Call (Except Error (Key × Key)))
    (Event Call) :=
  creators (fun key => key) (utf8 "nodes/n1") (utf8 "private.key") (utf8 "public.key")
    (fun _ => none)

theorem first_creator_wins_race :
    ∃ c, sampleCreators.Reachable c ∧
      ⟨generating 1, .done (.ok (.repeated 1, .repeated 1))⟩ ∈ c.pool.threads ∧
      ⟨generating 2, .done (.ok (.repeated 1, .repeated 1))⟩ ∈ c.pool.threads ∧
      c.pool.shared (joinText (utf8 "nodes/n1") (utf8 "public.key")) =
        some (keyText (.repeated 1)) := by
  obtain ⟨c, hexec, hthreads⟩ : ∃ c, sampleCreators.exec sampleCreators.init race = some c ∧
      c.pool.threads = [⟨generating 1, .done (.ok (.repeated 1, .repeated 1))⟩,
        ⟨generating 2, .done (.ok (.repeated 1, .repeated 1))⟩] := ⟨_, rfl, rfl⟩
  have hreach : sampleCreators.Reachable c := ⟨race, hexec⟩
  have hfirst : ⟨generating 1, .done (.ok (.repeated 1, .repeated 1))⟩ ∈ c.pool.threads := by
    rw [hthreads]
    exact mem_cons_self
  have hsecond : ⟨generating 2, .done (.ok (.repeated 1, .repeated 1))⟩ ∈ c.pool.threads := by
    rw [hthreads]
    exact mem_cons_of_mem _ mem_cons_self
  have hwins := first_creator_wins (fun key => key) (utf8 "nodes/n1") (utf8 "private.key")
    (utf8 "public.key") (fun _ => none) rfl rfl hreach
  exact ⟨c, hreach, hfirst, hsecond, (hwins.2 _ _ _ hsecond).2⟩

end AwgMesh.MeshCtl.KeyPair
