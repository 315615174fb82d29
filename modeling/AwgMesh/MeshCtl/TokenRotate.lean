import AwgMesh.Tls.Token

/-!
# Rotating a token

`mesh-ctl token rotate` of `cmd/mesh-ctl/cmd/token.go`, from the call of `RotateToken` on: what
comes before only reads.
-/

namespace AwgMesh.MeshCtl

open Tls

structure RotateCall where
  applied : Bool
  reply : Option Bool
  honest : reply = some true → applied = true

inductive FileWrite where
  | done
  | failed (left : Option Bytes)

structure RotateFiles where
  mkdirHash : Bool
  writeTmp : Bool
  rename : Bool
  mkdirToken : Bool
  writeToken : FileWrite

structure TokenSides where
  token : Option Bytes
  tokenHash : Option Bytes
  nodeHash : Bytes

inductive RotateError where
  | rotateTokenRPC
  | failedOnNode
  | saveHash
  | saveToken

def saveTokenHash (files : RotateFiles) (hash : Bytes) (s : TokenSides) : Bool × TokenSides :=
  if files.mkdirHash && files.writeTmp && files.rename then
    (true, { s with tokenHash := some hash })
  else (false, s)

def saveToken (files : RotateFiles) (token : Bytes) (s : TokenSides) : Bool × TokenSides :=
  if files.mkdirToken then
    match files.writeToken with
    | .done => (true, { s with token := some token })
    | .failed left => (false, { s with token := left })
  else (false, s)

def rotateToken (newHash newToken : Bytes) (call : RotateCall) (files : RotateFiles)
    (s : TokenSides) : Except RotateError Unit × TokenSides :=
  let s := if call.applied then { s with nodeHash := newHash } else s
  match call.reply with
  | none => (.error .rotateTokenRPC, s)
  | some false => (.error .failedOnNode, s)
  | some true =>
    let hashed := saveTokenHash files newHash s
    if hashed.1 then
      let saved := saveToken files newToken hashed.2
      (if saved.1 then .ok () else .error .saveToken, saved.2)
    else (.error .saveHash, hashed.2)

/-- The token is accepted, and every write of it gets to the disk. -/
def Undisturbed (call : RotateCall) (files : RotateFiles) (newToken : Bytes) : Prop :=
  call.reply = some true ∧ (files.mkdirHash = true ∧ files.writeTmp = true ∧ files.rename = true) ∧
    files.mkdirToken = true ∧
    (files.writeToken = .done ∨ files.writeToken = .failed (some newToken))

theorem rotateToken_token_iff (newHash : Bytes) {newToken : Bytes} {call : RotateCall}
    {files : RotateFiles} {s : TokenSides} (hfresh : s.token ≠ some newToken) :
    (rotateToken newHash newToken call files s).2.token = some newToken ↔
      Undisturbed call files newToken := by
  have hstart : (if call.applied then { s with nodeHash := newHash } else s).token = s.token := by
    split <;> rfl
  unfold rotateToken Undisturbed
  generalize (if call.applied then { s with nodeHash := newHash } else s) = s' at hstart
  rw [← hstart] at hfresh
  rcases call.reply with _ | _ | _
  · simpa using hfresh
  · simpa using hfresh
  · by_cases hhash : files.mkdirHash && files.writeTmp && files.rename
    · by_cases hdir : files.mkdirToken
      · cases hwrite : files.writeToken <;> simp_all [saveTokenHash, saveToken]
      · simp_all [saveTokenHash, saveToken]
    · have hsave : saveTokenHash files newHash s' = (false, s') := if_neg hhash
      refine iff_of_false (by simpa [hsave] using hfresh) fun h => hhash ?_
      simp [h.2.1]

/-- What the token file holds afterwards. -/
theorem rotateToken_token_cases (newHash newToken : Bytes) (call : RotateCall)
    (files : RotateFiles) (s : TokenSides) :
    let after := (rotateToken newHash newToken call files s).2
    after.token = s.token ∨ after.token = some newToken ∨
      files.writeToken = .failed after.token := by
  have hstart : (if call.applied then { s with nodeHash := newHash } else s).token = s.token := by
    split <;> rfl
  unfold rotateToken
  generalize (if call.applied then { s with nodeHash := newHash } else s) = s' at hstart
  rcases call.reply with _ | _ | _
  · exact .inl hstart
  · exact .inl hstart
  · by_cases hhash : files.mkdirHash && files.writeTmp && files.rename
    · by_cases hdir : files.mkdirToken
      · cases hwrite : files.writeToken <;> simp [saveTokenHash, saveToken, hhash, hdir, hwrite]
      · simp [saveTokenHash, saveToken, hhash, hdir, hstart]
    · simp [saveTokenHash, hhash, hstart]

/-- **Which failures lose the token.** -/
theorem rotation_keeps_token_iff (argon : Argon2) (salt newToken : Bytes) (call : RotateCall)
    (files : RotateFiles) (s : TokenSides) (hsalt : salt.length = 16)
    (hold : ∀ t ∈ s.token,
      argon.idKey t salt 1 4096 1 32 ≠ argon.idKey newToken salt 1 4096 1 32)
    (hleft : ∀ t, files.writeToken = .failed (some t) → t ≠ newToken →
      argon.idKey t salt 1 4096 1 32 ≠ argon.idKey newToken salt 1 4096 1 32) :
    let after := (rotateToken (hashTokenV2 argon salt newToken) newToken call files s).2
    (call.applied = true → ∃ token, after.token = some token ∧
      verifyToken argon token after.nodeHash = some (.ok ())) ↔
      (call.applied = true → Undisturbed call files newToken) := by
  intro after
  refine forall_congr' fun happlied => ?_
  have hnode : after.nodeHash = hashTokenV2 argon salt newToken := by
    simp only [after, rotateToken, saveTokenHash, saveToken, happlied, if_true]
    grind
  rw [hnode, ← rotateToken_token_iff (hashTokenV2 argon salt newToken)
    (fun hsame => hold newToken hsame rfl)]
  constructor
  · rintro ⟨token, htoken, hverify⟩
    have hkey := (verifyToken_hashTokenV2 argon _ _ hsalt).mp hverify
    rcases rotateToken_token_cases (hashTokenV2 argon salt newToken) newToken call files s with
      hsame | hnew | hwrite
    · exact absurd hkey (hold token (hsame.symm.trans htoken))
    · exact hnew
    · by_contra hne
      refine hleft token (hwrite.trans (congrArg _ htoken)) ?_ hkey
      rintro rfl
      exact hne htoken
  · exact fun htoken => ⟨newToken, htoken, (verifyToken_hashTokenV2 argon _ _ hsalt).mpr rfl⟩

/-- A key that is the front of the password, filled up with the salt. -/
def frontArgon : Argon2 where
  idKey password salt _ _ _ keyLen := (password ++ salt ++ List.replicate keyLen 0).take keyLen
  length := by
    intros
    simp
    omega

def oldToken : Bytes := List.replicate 64 0x61

def newToken : Bytes := List.replicate 64 0x62

def sampleCall : RotateCall := { applied := true, reply := some true, honest := fun _ => rfl }

def sampleFiles : RotateFiles :=
  { mkdirHash := true, writeTmp := true, rename := true, mkdirToken := true, writeToken := .done }

def sampleSides : TokenSides := { token := some oldToken, tokenHash := none, nodeHash := [] }

def sampleHash : Bytes := hashTokenV2 frontArgon (List.replicate 16 0) newToken

theorem rotation_keeps_token_sample :
    Undisturbed sampleCall sampleFiles newToken ∧
      ∃ token, (rotateToken sampleHash newToken sampleCall sampleFiles sampleSides).2.token =
          some token ∧
        verifyToken frontArgon token (rotateToken sampleHash newToken sampleCall sampleFiles
          sampleSides).2.nodeHash = some (.ok ()) := by
  have h : Undisturbed sampleCall sampleFiles newToken :=
    ⟨rfl, ⟨rfl, rfl, rfl⟩, rfl, .inl rfl⟩
  refine ⟨h, (rotation_keeps_token_iff frontArgon (List.replicate 16 0) newToken sampleCall
    sampleFiles sampleSides (by decide) ?_ ?_).mpr (fun _ => h) rfl⟩
  · rintro t ⟨⟩
    decide
  · nofun

/-- `mesh.token` cannot be replaced once the node has the new hash. -/
theorem rotation_loses_token :
    let after := rotateToken sampleHash newToken sampleCall { sampleFiles with rename := false }
      sampleSides
    after.1 = .error .saveHash ∧ after.2.nodeHash = sampleHash ∧ after.2.token = some oldToken ∧
      verifyToken frontArgon oldToken sampleHash ≠ some (.ok ()) := by
  refine ⟨rfl, rfl, rfl, fun h => ?_⟩
  exact absurd ((verifyToken_hashTokenV2 _ _ _ (by decide)).mp h) (by decide)

end AwgMesh.MeshCtl
