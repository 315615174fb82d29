import AwgMesh.Lib.Rely
import AwgMesh.PathText

/-!
# One certificate authority for the mesh

`loadOrCreateMeshCA` of `cmd/mesh-ctl/cmd/node.go` with `SaveCA` and `LoadCA` of `pkg/tls/ca.go`.
-/

namespace AwgMesh.MeshCtl.MeshCA

open Lib ByteText PathText List Function

/-! ## The program -/

structure Codec (C K : Type) where
  owns : C → K → Bool
  raw : C → Bytes
  parseCertificate : Bytes → Except Bytes C
  marshalECPrivateKey : K → Except Bytes Bytes
  parseECPrivateKey : Bytes → Except Bytes K
  encodeToMemory : (type : Bytes) → (der : Bytes) → Bytes
  decode : Bytes → Option Bytes
  parseCertificate_raw : ∀ cert, parseCertificate (raw cert) = .ok cert
  parseECPrivateKey_marshal : ∀ {key der}, marshalECPrivateKey key = .ok der →
    parseECPrivateKey der = .ok key
  decode_encode : ∀ type der, decode (encodeToMemory type der) = some der

inductive Op where
  | statCert
  | statKey
  | mkdir
  | writeCert
  | writeKey
  | readCert
  | readKey

inductive Error where
  | generate (err : Bytes)
  | incomplete
  | mkdir (err : OsError)
  | writeCert (err : OsError)
  | marshal (err : Bytes)
  | writeKey (err : OsError)
  | readCert (err : OsError)
  | noCertBlock
  | parseCert (err : Bytes)
  | readKey (err : OsError)
  | noKeyBlock
  | parseKey (err : Bytes)

structure Call {C K : Type} (codec : Codec C K) where
  meshName : Bytes
  fails : Op → Option OsError := fun _ => none
  generateCA : (commonName : Bytes) → Except Bytes (C × K)
  owns_generated : ∀ {commonName ca}, generateCA commonName = .ok ca → codec.owns ca.1 ca.2

section Program

variable {C K : Type} {codec : Codec C K} (configDir : Bytes) (call : Call codec)

def certPath : Bytes := joinText configDir (utf8 "ca.crt")

def keyPath : Bytes := joinText configDir (utf8 "ca.key")

def fileMissing (op : Op) (path : Bytes) : Handler (Files Bytes Bytes) Bool :=
  .read fun s => (call.fails op).isNone && (s path).isNone

def commonName : Bytes :=
  let name := trimSpace call.meshName
  (if name = [] then utf8 "awg-mesh" else name) ++ utf8 " CA"

def saveKey (keyDER : Bytes) : Handler (Files Bytes Bytes) (Except Error Unit) :=
  Except.mapError .writeKey <$> .attempt (call.fails .writeKey)
    (Files.write (keyPath configDir) (codec.encodeToMemory (utf8 "EC PRIVATE KEY") keyDER))

def saveCert (cert : C) (key : K) : Handler (Files Bytes Bytes) (Except Error Unit) :=
  Handler.andThen
    (Except.mapError .writeCert <$> .attempt (call.fails .writeCert)
      (Files.write (certPath configDir)
        (codec.encodeToMemory (utf8 "CERTIFICATE") (codec.raw cert)))) fun _ =>
    match codec.marshalECPrivateKey key with
    | .error err => pure (.error (.marshal err))
    | .ok keyDER => saveKey configDir call keyDER

def saveCA (cert : C) (key : K) : Handler (Files Bytes Bytes) (Except Error Unit) :=
  Handler.andThen (Except.mapError .mkdir <$> .attempt (call.fails .mkdir) Files.own) fun _ =>
    saveCert configDir call cert key

def parseCert (codec : Codec C K) (certPEM : Bytes) : Except Error C :=
  match codec.decode certPEM with
  | none => .error .noCertBlock
  | some der => (codec.parseCertificate der).mapError .parseCert

def parseKey (codec : Codec C K) (keyPEM : Bytes) : Except Error K :=
  match codec.decode keyPEM with
  | none => .error .noKeyBlock
  | some der => (codec.parseECPrivateKey der).mapError .parseKey

def loadKey (cert : C) : Handler (Files Bytes Bytes) (Except Error (C × K)) :=
  Handler.andThen (Except.mapError .readKey <$>
    .attempt (call.fails .readKey) (Files.read (keyPath configDir))) fun keyPEM =>
      pure ((parseKey codec keyPEM).map fun key => (cert, key))

def loadCA : Handler (Files Bytes Bytes) (Except Error (C × K)) :=
  Handler.andThen (Except.mapError .readCert <$>
    .attempt (call.fails .readCert) (Files.read (certPath configDir))) fun certPEM =>
      match parseCert codec certPEM with
      | .error err => pure (.error err)
      | .ok cert => loadKey configDir call cert

def proceed (certMissing keyMissing : Bool) :
    Handler (Files Bytes Bytes) (Except Error (C × K)) :=
  if certMissing && keyMissing then
    match call.generateCA (commonName call) with
    | .error err => pure (.error (.generate err))
    | .ok (cert, key) =>
      Handler.andThen (saveCA configDir call cert key) fun _ => pure (.ok (cert, key))
  else if certMissing != keyMissing then pure (.error .incomplete)
  else loadCA configDir call

def loadOrCreateMeshCA : Handler (Files Bytes Bytes) (Except Error (C × K)) :=
  fileMissing call .statCert (certPath configDir) >>= fun certMissing =>
    fileMissing call .statKey (keyPath configDir) >>= fun keyMissing =>
      proceed configDir call certMissing keyMissing

end Program

def callers {C K : Type} (codec : Codec C K) (configDir : Bytes) (files : Files Bytes Bytes) :
    Machine (Counted (Files Bytes Bytes) (Call codec) (Except Error (C × K)))
      (Event (Call codec)) :=
  handlers (loadOrCreateMeshCA configDir) files

/-! ## Where a call has got to -/

inductive Stage (C K : Type) where
  | start
  | looked (certMissing : Bool)
  | making (cert : C) (key : K)
  | savingCert (cert : C) (key : K)
  | savingKey (cert : C) (key : K) (keyDER : Bytes)
  | loadingCert
  | loadingKey (cert : C)
  | returned (answer : Except Error (C × K))

namespace Stage

variable {C K : Type} {codec : Codec C K} (configDir : Bytes) (call : Call codec)

def creating : Stage C K → Bool
  | .making .. | .savingCert .. | .savingKey .. => true
  | _ => false

def rest : Stage C K → Handler (Files Bytes Bytes) (Except Error (C × K))
  | .start => loadOrCreateMeshCA configDir call
  | .looked certMissing =>
    fileMissing call .statKey (keyPath configDir) >>= fun keyMissing =>
      proceed configDir call certMissing keyMissing
  | .making cert key =>
    Handler.andThen (saveCA configDir call cert key) fun _ => pure (.ok (cert, key))
  | .savingCert cert key =>
    Handler.andThen (saveCert configDir call cert key) fun _ => pure (.ok (cert, key))
  | .savingKey cert key keyDER =>
    Handler.andThen (saveKey configDir call keyDER) fun _ => pure (.ok (cert, key))
  | .loadingCert => loadCA configDir call
  | .loadingKey cert => loadKey configDir call cert
  | .returned answer => pure answer

def decided (certMissing keyMissing : Bool) : Stage C K :=
  if certMissing && keyMissing then
    match call.generateCA (commonName call) with
    | .error err => .returned (.error (.generate err))
    | .ok (cert, key) => .making cert key
  else if certMissing != keyMissing then .returned (.error .incomplete)
  else .loadingCert

def after (s : Files Bytes Bytes) : Stage C K → Stage C K
  | .start => .looked ((call.fails .statCert).isNone && (s (certPath configDir)).isNone)
  | .looked certMissing =>
    decided call certMissing ((call.fails .statKey).isNone && (s (keyPath configDir)).isNone)
  | .making cert key =>
    match call.fails .mkdir with
    | some err => .returned (.error (.mkdir err))
    | none => .savingCert cert key
  | .savingCert cert key =>
    match call.fails .writeCert, codec.marshalECPrivateKey key with
    | some err, _ => .returned (.error (.writeCert err))
    | none, .error err => .returned (.error (.marshal err))
    | none, .ok keyDER => .savingKey cert key keyDER
  | .savingKey cert key _ =>
    match call.fails .writeKey with
    | some err => .returned (.error (.writeKey err))
    | none => .returned (.ok (cert, key))
  | .loadingCert =>
    match call.fails .readCert, s (certPath configDir) with
    | some err, _ => .returned (.error (.readCert err))
    | none, none => .returned (.error (.readCert .notExist))
    | none, some certPEM =>
      match parseCert codec certPEM with
      | .error err => .returned (.error err)
      | .ok cert => .loadingKey cert
  | .loadingKey cert =>
    match call.fails .readKey, s (keyPath configDir) with
    | some err, _ => .returned (.error (.readKey err))
    | none, none => .returned (.error (.readKey .notExist))
    | none, some keyPEM => .returned ((parseKey codec keyPEM).map fun key => (cert, key))
  | .returned answer => .returned answer

theorem rest_decided (certMissing keyMissing : Bool) :
    rest configDir call (decided call certMissing keyMissing) =
      proceed configDir call certMissing keyMissing := by
  unfold decided proceed
  split
  · split <;> rfl
  · split <;> rfl

theorem rest_after {stage : Stage C K} {upd : Files Bytes Bytes → Files Bytes Bytes}
    {next : Files Bytes Bytes → Handler (Files Bytes Bytes) (Except Error (C × K))}
    (h : rest configDir call stage = .call upd next) (s : Files Bytes Bytes) :
    rest configDir call (after configDir call s stage) = next s := by
  cases stage with
  | start =>
    cases h
    rfl
  | looked certMissing =>
    cases h
    exact rest_decided configDir call _ _
  | making cert key =>
    cases h
    dsimp only [after, Handler.outcome, Files.own]
    cases call.fails .mkdir <;> rfl
  | savingCert cert key =>
    cases h
    dsimp only [after, Handler.outcome, Files.write]
    cases call.fails .writeCert with
    | some err => rfl
    | none =>
      dsimp only [Except.mapError]
      cases codec.marshalECPrivateKey key <;> rfl
  | savingKey cert key keyDER =>
    cases h
    dsimp only [after, Handler.outcome, Files.write]
    cases call.fails .writeKey <;> rfl
  | loadingCert =>
    cases h
    dsimp only [after, Handler.outcome, Files.read]
    cases call.fails .readCert with
    | some err => rfl
    | none =>
      cases s (certPath configDir) with
      | none => rfl
      | some certPEM =>
        dsimp only [Handler.bind, comp_apply, Except.mapError]
        cases parseCert codec certPEM <;> rfl
  | loadingKey cert =>
    cases h
    dsimp only [after, Handler.outcome, Files.read]
    cases call.fails .readKey with
    | some err => rfl
    | none => cases s (keyPath configDir) <;> rfl
  | returned answer => cases h

end Stage

def staging {C K : Type} (codec : Codec C K) (configDir : Bytes) :
    Staging (Files Bytes Bytes) (Call codec) (Except Error (C × K)) (Stage C K) where
  start := .start
  rest := Stage.rest configDir
  after call stage s := stage.after configDir call s
  rest_after h s := Stage.rest_after configDir _ h s

/-! ## One creator at a time -/

section Creators

variable {C K : Type} {codec : Codec C K} {configDir : Bytes}

theorem certPath_ne_keyPath (configDir : Bytes) : certPath configDir ≠ keyPath configDir := by
  intro h
  exact absurd (joinText_inj (by decide) (by decide) h) (by decide)

def comesSecond (configDir : Bytes) (s : Staged (Files Bytes Bytes) (Call codec) (Stage C K)) :
    Event (Call codec) → Bool
  | .start _ => false
  | .next i =>
    match s.calls[i]? with
    | some (call, .looked true) =>
      (call.fails .statKey).isNone && (s.shared (keyPath configDir)).isNone &&
        ((s.shared (certPath configDir)).isSome || s.calls.any (·.2.creating))
    | _ => false

/-- No call goes on to create a CA while one is there or being created. -/
def SoleCreator (configDir : Bytes) (s : Staged (Files Bytes Bytes) (Call codec) (Stage C K))
    (event : Event (Call codec)) : Prop :=
  comesSecond configDir s event = false

instance decidableSoleCreator (configDir : Bytes)
    (s : Staged (Files Bytes Bytes) (Call codec) (Stage C K)) (event : Event (Call codec)) :
    Decidable (SoleCreator configDir s event) := inferInstanceAs (Decidable (_ = _))

inductive Era (C K : Type) where
  | blank
  | half (cert : C) (key : K)
  | full (cert : C) (key : K)

def Era.disk (codec : Codec C K) (configDir : Bytes) (s : Files Bytes Bytes) : Era C K → Prop
  | .blank => s (certPath configDir) = none ∧ s (keyPath configDir) = none
  | .half cert key =>
    codec.owns cert key ∧ s (certPath configDir) =
        some (codec.encodeToMemory (utf8 "CERTIFICATE") (codec.raw cert)) ∧
      s (keyPath configDir) = none
  | .full cert key =>
    codec.owns cert key ∧ s (certPath configDir) =
        some (codec.encodeToMemory (utf8 "CERTIFICATE") (codec.raw cert)) ∧
      ∃ keyDER, codec.marshalECPrivateKey key = .ok keyDER ∧ s (keyPath configDir) =
          some (codec.encodeToMemory (utf8 "EC PRIVATE KEY") keyDER)

inductive Fits (codec : Codec C K) : Era C K → Stage C K → Prop
  | start {era} : Fits codec era .start
  | looked {era certMissing} : Fits codec era (.looked certMissing)
  | loadingCert {era} : Fits codec era .loadingCert
  | failed {era err} : Fits codec era (.returned (.error err))
  | making {cert key} (h : codec.owns cert key) : Fits codec .blank (.making cert key)
  | savingCert {cert key} (h : codec.owns cert key) : Fits codec .blank (.savingCert cert key)
  | savingKey {cert key keyDER} (h : codec.marshalECPrivateKey key = .ok keyDER) :
      Fits codec (.half cert key) (.savingKey cert key keyDER)
  | loadingKeyHalf {cert key} : Fits codec (.half cert key) (.loadingKey cert)
  | loadingKeyFull {cert key} : Fits codec (.full cert key) (.loadingKey cert)
  | succeeded {cert key} : Fits codec (.full cert key) (.returned (.ok (cert, key)))

variable {cert : C} {key : K} {stage : Stage C K}

theorem Fits.half (h : Fits codec .blank stage)
    (hidle : stage.creating = false) : Fits codec (.half cert key) stage := by
  cases h with
  | start => exact .start
  | looked => exact .looked
  | loadingCert => exact .loadingCert
  | failed => exact .failed
  | making => cases hidle
  | savingCert => cases hidle

theorem Fits.full (h : Fits codec (.half cert key) stage)
    (hidle : stage.creating = false) : Fits codec (.full cert key) stage := by
  cases h with
  | start => exact .start
  | looked => exact .looked
  | loadingCert => exact .loadingCert
  | failed => exact .failed
  | savingKey => cases hidle
  | loadingKeyHalf => exact .loadingKeyFull

theorem parseCert_encode (cert : C) :
    parseCert codec (codec.encodeToMemory (utf8 "CERTIFICATE") (codec.raw cert)) = .ok cert := by
  unfold parseCert
  rw [codec.decode_encode]
  dsimp only
  rw [codec.parseCertificate_raw, Except.mapError]

variable {call : Call codec} {s : Files Bytes Bytes} {era : Era C K} {stage : Stage C K}
  {upd : Files Bytes Bytes → Files Bytes Bytes}
  {next : Files Bytes Bytes → Handler (Files Bytes Bytes) (Except Error (C × K))}

theorem fits_decided (certMissing keyMissing : Bool)
    (hblank : certMissing = true → keyMissing = true → era = .blank) :
    Fits codec era (Stage.decided call certMissing keyMissing) := by
  unfold Stage.decided
  split
  · next hboth =>
      obtain ⟨hcert, hkey⟩ := Bool.and_eq_true_iff.mp hboth
      cases hblank hcert hkey
      cases hgen : call.generateCA (commonName call) with
      | error err => exact .failed
      | ok ca => exact .making (call.owns_generated hgen)
  · split
    · exact .failed
    · exact .loadingCert

theorem fits_loadingCert (hdisk : era.disk codec configDir s) :
    Fits codec era (Stage.after configDir call s .loadingCert) := by
  dsimp only [Stage.after]
  cases call.fails .readCert with
  | some err => exact .failed
  | none =>
    cases era with
    | blank =>
      rw [hdisk.1]
      exact .failed
    | half cert key =>
      rw [hdisk.2.1]
      dsimp only
      rw [parseCert_encode]
      exact .loadingKeyHalf
    | full cert key =>
      rw [hdisk.2.1]
      dsimp only
      rw [parseCert_encode]
      exact .loadingKeyFull

theorem fits_after (hdisk : era.disk codec configDir s) (hfits : Fits codec era stage)
    (hrest : stage.rest configDir call = .call upd next)
    (hsole : stage = .looked true → call.fails .statKey = none → s (keyPath configDir) = none →
      s (certPath configDir) = none) :
    ∃ era' : Era C K, era'.disk codec configDir (upd s) ∧
      Fits codec era' (stage.after configDir call s) ∧ (era' = era ∨ stage.creating = true ∧
        ∀ other : Stage C K, other.creating = false → Fits codec era other →
          Fits codec era' other) := by
  cases hfits with
  | start =>
    cases hrest
    exact ⟨era, hdisk, .looked, .inl rfl⟩
  | looked =>
    cases hrest
    refine ⟨era, hdisk, fits_decided _ _ ?_, .inl rfl⟩
    rintro rfl hmissing
    obtain ⟨hstat, hkey⟩ := Bool.and_eq_true_iff.mp hmissing
    have hcert := hsole rfl (Option.isNone_iff_eq_none.mp hstat)
      (Option.isNone_iff_eq_none.mp hkey)
    cases era with
    | blank => rfl
    | half cert key => cases hcert.symm.trans hdisk.2.1
    | full cert key => cases hcert.symm.trans hdisk.2.1
  | loadingCert =>
    cases hrest
    refine ⟨era, ?_, ?_, .inl rfl⟩
    · simpa only [Files.outcome_read_fst] using hdisk
    · exact fits_loadingCert hdisk
  | failed => cases hrest
  | making howns =>
    cases hrest
    dsimp only [Stage.after, Handler.outcome, Files.own]
    cases call.fails .mkdir with
    | some err => exact ⟨.blank, hdisk, .failed, .inl rfl⟩
    | none => exact ⟨.blank, hdisk, .savingCert howns, .inl rfl⟩
  | @savingCert cert key howns =>
    cases hrest
    dsimp only [Stage.after, Handler.outcome, Files.write]
    cases call.fails .writeCert with
    | some err => exact ⟨.blank, hdisk, .failed, .inl rfl⟩
    | none =>
      dsimp only
      refine ⟨.half cert key, ?_, ?_, .inr ⟨rfl, fun _ hidle hother => hother.half hidle⟩⟩
      · refine ⟨howns, update_self .., ?_⟩
        rw [update_of_ne (certPath_ne_keyPath configDir).symm]
        exact hdisk.2
      · cases hmarshal : codec.marshalECPrivateKey key with
        | error err => exact .failed
        | ok keyDER => exact .savingKey hmarshal
  | @savingKey cert key keyDER hmarshal =>
    cases hrest
    dsimp only [Stage.after, Handler.outcome, Files.write]
    obtain ⟨howns, hcert, hkey⟩ := id hdisk
    cases call.fails .writeKey with
    | some err => exact ⟨.half cert key, hdisk, .failed, .inl rfl⟩
    | none =>
      dsimp only
      refine ⟨.full cert key, ?_, .succeeded, .inr ⟨rfl, fun _ hidle hother => hother.full hidle⟩⟩
      refine ⟨howns, ?_, keyDER, hmarshal, update_self ..⟩
      rw [update_of_ne (certPath_ne_keyPath configDir)]
      exact hcert
  | @loadingKeyHalf cert key =>
    cases hrest
    refine ⟨.half cert key, ?_, ?_, .inl rfl⟩
    · simpa only [Files.outcome_read_fst] using hdisk
    · dsimp only [Stage.after]
      rw [hdisk.2.2]
      cases call.fails .readKey <;> exact .failed
  | @loadingKeyFull cert key =>
    cases hrest
    refine ⟨.full cert key, ?_, ?_, .inl rfl⟩
    · simpa only [Files.outcome_read_fst] using hdisk
    · obtain ⟨-, -, keyDER, hmarshal, hkey⟩ := hdisk
      dsimp only [Stage.after]
      rw [hkey]
      cases call.fails .readKey with
      | some err => exact .failed
      | none =>
        dsimp only
        rw [parseKey, codec.decode_encode]
        dsimp only
        rw [codec.parseECPrivateKey_marshal hmarshal, Except.mapError]
        exact .succeeded
  | succeeded => cases hrest

theorem creating_after (h : (stage.after configDir call s).creating = true) :
    stage.creating = true ∨
      stage = .looked true ∧ call.fails .statKey = none ∧ s (keyPath configDir) = none := by
  cases stage with
  | start => cases h
  | looked certMissing =>
    right
    dsimp only [Stage.after, Stage.decided] at h
    split at h
    · next hboth =>
        obtain ⟨rfl, hmissing⟩ := Bool.and_eq_true_iff.mp hboth
        obtain ⟨hstat, hkey⟩ := Bool.and_eq_true_iff.mp hmissing
        exact ⟨rfl, Option.isNone_iff_eq_none.mp hstat, Option.isNone_iff_eq_none.mp hkey⟩
    · split at h <;> cases h
  | making cert key => exact .inl rfl
  | savingCert cert key => exact .inl rfl
  | savingKey cert key keyDER => exact .inl rfl
  | loadingCert =>
    dsimp only [Stage.after] at h
    split at h
    · cases h
    · cases h
    · split at h <;> cases h
  | loadingKey cert =>
    dsimp only [Stage.after] at h
    split at h <;> cases h
  | returned answer => cases h

def Settled (configDir : Bytes) (s : Staged (Files Bytes Bytes) (Call codec) (Stage C K)) : Prop :=
  ∃ era : Era C K, era.disk codec configDir s.shared ∧
    (∀ (i : Nat) (c : Call codec × Stage C K), s.calls[i]? = some c → Fits codec era c.2) ∧
    ∀ (i j : Nat) (c d : Call codec × Stage C K), s.calls[i]? = some c → s.calls[j]? = some d →
      c.2.creating = true → d.2.creating = true → i = j

theorem SoleCreator.alone {s : Staged (Files Bytes Bytes) (Call codec) (Stage C K)} {i : Nat}
    (h : SoleCreator configDir s (.next i)) (hi : s.calls[i]? = some (call, .looked true))
    (hstat : call.fails .statKey = none) (hkey : s.shared (keyPath configDir) = none) :
    s.shared (certPath configDir) = none ∧
      ∀ (j : Nat) (c : Call codec × Stage C K), s.calls[j]? = some c → c.2.creating = false := by
  simp only [SoleCreator, comesSecond, hi, hstat, hkey, Option.isNone_none, Bool.true_and,
    Bool.or_eq_false_iff, Option.isSome_eq_false_iff, Option.isNone_iff_eq_none,
    any_eq_false, Bool.not_eq_true] at h
  exact ⟨h.1, fun j c hj => h.2 c (mem_of_getElem? hj)⟩

theorem settled_step {files : Files Bytes Bytes}
    {s s' : Staged (Files Bytes Bytes) (Call codec) (Stage C K)} {event : Event (Call codec)}
    (h : Settled configDir s) (hsole : SoleCreator configDir s event)
    (hstep : ((staging codec configDir).machine files).step s event = some s') :
    Settled configDir s' := by
  obtain ⟨era, hdisk, hfits, hone⟩ := h
  cases event with
  | start call =>
    cases hstep
    refine ⟨era, hdisk, ?_, ?_⟩
    · intro i c hi
      rcases Staging.concat_getElem? hi with hi | rfl
      · exact hfits i c hi
      · exact .start
    · intro i j c d hi hj hc hd
      rcases Staging.concat_getElem? hi with hi | rfl
      · rcases Staging.concat_getElem? hj with hj | rfl
        · exact hone i j c d hi hj hc hd
        · cases hd
      · cases hc
  | next i =>
    obtain ⟨call, stage, upd, next, hi, hrest, rfl⟩ := Staging.step_next hstep
    have halone := fun hstage : stage = .looked true => hsole.alone (hstage ▸ hi)
    obtain ⟨era', hdisk', hfits', hera⟩ := fits_after hdisk (hfits i _ hi) hrest
      fun hstage hstat hkey => (halone hstage hstat hkey).1
    refine ⟨era', hdisk', ?_, ?_⟩
    · intro j c hj
      rcases getElem?_set_cases hj with ⟨-, rfl⟩ | ⟨hne, hj⟩
      · exact hfits'
      · rcases hera with rfl | ⟨hcreating, hother⟩
        · exact hfits j c hj
        · refine hother c.2 ?_ (hfits j c hj)
          rw [← Bool.not_eq_true]
          exact fun hc => hne (hone j i c _ hj hi hc hcreating)
    · -- whoever is creating now was creating before, or is the only one
      have hnew : ∀ (j : Nat) (c : Call codec × Stage C K), s.calls[j]? = some c →
          c.2.creating = true → (stage.after configDir call s.shared).creating = true →
          j = i := by
        intro j c hj hc hafter
        rcases creating_after hafter with hcreating | ⟨hstage, hstat, hkey⟩
        · exact hone j i c _ hj hi hc hcreating
        · have hidle := (halone hstage hstat hkey).2 j c hj
          rw [hc] at hidle
          cases hidle
      intro j k c d hj hk hc hd
      rcases getElem?_set_cases hj with ⟨rfl, rfl⟩ | ⟨-, hj'⟩
      · rcases getElem?_set_cases hk with ⟨rfl, -⟩ | ⟨-, hk'⟩
        · rfl
        · exact (hnew k d hk' hd hc).symm
      · rcases getElem?_set_cases hk with ⟨rfl, rfl⟩ | ⟨-, hk'⟩
        · exact hnew j c hj' hc hd
        · exact hone j k c d hj' hk' hc hd

end Creators

/-! ## What the calls agree on -/

section OneCA

variable {C K : Type}

/-- All calls return one CA, which is what the files hold in the end. -/
def OneCA (codec : Codec C K) (configDir : Bytes)
    (p : Pool (Files Bytes Bytes) (Call codec) (Except Error (C × K))) : Prop :=
  (∀ call call' ca ca', ⟨call, .done (.ok ca)⟩ ∈ p.threads → ⟨call', .done (.ok ca')⟩ ∈ p.threads →
    ca = ca') ∧ ∀ call cert key, ⟨call, .done (.ok (cert, key))⟩ ∈ p.threads →
    codec.owns cert key = true ∧ ((∀ t ∈ p.threads, t.program.isDone = true) →
        p.shared (certPath configDir) =
            some (codec.encodeToMemory (utf8 "CERTIFICATE") (codec.raw cert)) ∧
          ∃ keyDER, codec.marshalECPrivateKey key = .ok keyDER ∧ p.shared (keyPath configDir) =
              some (codec.encodeToMemory (utf8 "EC PRIVATE KEY") keyDER))

variable {codec : Codec C K} {configDir : Bytes}

theorem rest_eq_done {call : Call codec} {stage : Stage C K} {answer : Except Error (C × K)}
    (h : stage.rest configDir call = .done answer) : stage = .returned answer := by
  cases stage with
  | returned answer' =>
    cases h
    rfl
  | _ => cases h

theorem oneCA_of_settled
    {s : Staged (Files Bytes Bytes) (Call codec) (Stage C K)} (h : Settled configDir s) :
    OneCA codec configDir ((staging codec configDir).pool s) := by
  obtain ⟨era, hdisk, hfits, -⟩ := h
  -- a success is there in the last era only, and is its authority
  have hsuccess : ∀ call ca, ⟨call, .done (.ok ca)⟩ ∈ ((staging codec configDir).pool s).threads →
      era = .full ca.1 ca.2 := by
    intro call ca hmem
    obtain ⟨⟨call', stage⟩, hcall, hthread⟩ := mem_map.mp hmem
    injection hthread with hrequest hrest
    cases rest_eq_done hrest
    obtain ⟨i, hi⟩ := getElem?_of_mem hcall
    cases hfits i _ hi
    rfl
  refine ⟨?_, ?_⟩
  · intro call call' ca ca' hca hca'
    have heq := (hsuccess call ca hca).symm.trans (hsuccess call' ca' hca')
    injection heq with hcert hkey
    exact Prod.ext hcert hkey
  · intro call cert key hca
    cases hsuccess call _ hca
    exact ⟨hdisk.1, fun _ => hdisk.2⟩

theorem settled_init (codec : Codec C K) {files : Files Bytes Bytes}
    (hcert : files (certPath configDir) = none) (hkey : files (keyPath configDir) = none) :
    Settled configDir ((staging codec configDir).machine files).init := by
  refine ⟨.blank, ⟨hcert, hkey⟩, ?_, ?_⟩
  · intro i c hi
    cases getElem?_nil.symm.trans hi
  · intro i j c d hi
    cases getElem?_nil.symm.trans hi

/-- **One authority**: in every run in which no second call comes to create files, all calls
agree. -/
theorem callers_agree (codec : Codec C K) (configDir : Bytes) (files : Files Bytes Bytes)
    (hcert : files (certPath configDir) = none) (hkey : files (keyPath configDir) = none)
    (events : List (Event (Call codec)))
    (h : ((staging codec configDir).machine files).Along (SoleCreator configDir)
      ((staging codec configDir).machine files).init events) :
    (callers codec configDir files).Throughout (fun c => OneCA codec configDir c.pool)
      (callers codec configDir files).init events := by
  refine Staging.throughout_of_staged oneCA_of_settled ?_
  exact Machine.throughout_of_along (J := fun _ => True) (fun _ _ => trivial)
    (fun _ hsettled hsole hstep => settled_step hsettled hsole hstep) trivial
    (settled_init codec hcert hkey) h

def byteCodec : Codec UInt8 UInt8 where
  owns cert key := cert = key
  raw cert := [cert]
  parseCertificate der := der.head?.elim (.error []) .ok
  marshalECPrivateKey key := .ok [key]
  parseECPrivateKey der := der.head?.elim (.error []) .ok
  encodeToMemory type der := type.length.toUInt8 :: der
  decode text := some text.tail
  parseCertificate_raw _ := rfl
  parseECPrivateKey_marshal h := by
    cases h
    rfl
  decode_encode _ _ := rfl

def generating (b : UInt8) : Call byteCodec where
  meshName := utf8 "mesh"
  generateCA _ := .ok (b, b)
  owns_generated h := by
    cases h
    exact decide_eq_true rfl

def secondLoads : List (Event (Call byteCodec)) :=
  [.start (generating 1), .start (generating 2), .next 0, .next 0, .next 0, .next 0, .next 1,
    .next 0, .next 1, .next 1, .next 1]

theorem callers_agree_secondLoads :
    ((staging byteCodec (utf8 "conf")).machine fun _ => none).Along (SoleCreator (utf8 "conf"))
        ((staging byteCodec (utf8 "conf")).machine fun _ => none).init secondLoads ∧
      (callers byteCodec (utf8 "conf") fun _ => none).Throughout
        (fun c => OneCA byteCodec (utf8 "conf") c.pool)
        (callers byteCodec (utf8 "conf") fun _ => none).init secondLoads :=
  ⟨by decide, callers_agree byteCodec (utf8 "conf") (fun _ => none) rfl rfl secondLoads
    (by decide)⟩

def bothCreate : List (Event (Call byteCodec)) :=
  [.start (generating 1), .start (generating 2), .next 0, .next 0, .next 1, .next 1, .next 0,
    .next 1, .next 0, .next 1, .next 1, .next 0]

/-- **Two creators disagree**. -/
theorem two_creators_disagree :
    ¬ (callers byteCodec (utf8 "conf") fun _ => none).Throughout
      (fun c => OneCA byteCodec (utf8 "conf") c.pool)
      (callers byteCodec (utf8 "conf") fun _ => none).init bothCreate := by
  intro h
  obtain ⟨c, hexec, hthreads⟩ : ∃ c, (callers byteCodec (utf8 "conf") fun _ => none).exec
      (callers byteCodec (utf8 "conf") fun _ => none).init bothCreate = some c ∧ c.pool.threads =
        [⟨generating 1, .done (.ok (1, 1))⟩, ⟨generating 2, .done (.ok (2, 2))⟩] := ⟨_, rfl, rfl⟩
  have hfirst : ⟨generating 1, .done (.ok (1, 1))⟩ ∈ c.pool.threads := by
    rw [hthreads]
    exact mem_cons_self
  have hsecond : ⟨generating 2, .done (.ok (2, 2))⟩ ∈ c.pool.threads := by
    rw [hthreads]
    exact mem_cons_of_mem _ mem_cons_self
  have heq := (h.last hexec).1 _ _ _ _ hfirst hsecond
  exact absurd heq (by decide)

end OneCA

end AwgMesh.MeshCtl.MeshCA
