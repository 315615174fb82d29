import AwgMesh.Base64

/-!
# Token hashes

`HashTokenV2`, `ParseV2` and `VerifyToken` of `pkg/tls/token.go`.
-/

namespace AwgMesh.Tls

open List Option UInt8

/-! ## `base64.RawURLEncoding` -/

def urlSextetChar (n : Nat) : UInt8 :=
  if n = 62 then 0x2d else if n = 63 then 0x5f else sextetChar n

def urlSextetValue (c : UInt8) : Option Nat :=
  if c = 0x2d then some 62
  else if c = 0x5f then some 63
  else if c = 43 ∨ c = 47 then none
  else sextetValue c

def rawURLEncode : Bytes → Bytes
  | [] => []
  | [a] => [urlSextetChar (a.toNat / 4), urlSextetChar (a.toNat % 4 * 16)]
  | [a, b] =>
    [urlSextetChar (a.toNat / 4), urlSextetChar (a.toNat % 4 * 16 + b.toNat / 16),
      urlSextetChar (b.toNat % 16 * 4)]
  | a :: b :: c :: rest =>
    urlSextetChar (a.toNat / 4) :: urlSextetChar (a.toNat % 4 * 16 + b.toNat / 16) ::
      urlSextetChar (b.toNat % 16 * 4 + c.toNat / 64) :: urlSextetChar (c.toNat % 64) ::
      rawURLEncode rest

def rawURLQuanta : Bytes → Option Bytes
  | [] => some []
  | [_] => none
  | [p, q] => do
    let p ← urlSextetValue p
    let q ← urlSextetValue q
    return [ofNat (p * 4 + q / 16)]
  | [p, q, x] => do
    let p ← urlSextetValue p
    let q ← urlSextetValue q
    let x ← urlSextetValue x
    return [ofNat (p * 4 + q / 16), ofNat (q % 16 * 16 + x / 4)]
  | p :: q :: x :: y :: rest => do
    let p ← urlSextetValue p
    let q ← urlSextetValue q
    let x ← urlSextetValue x
    let y ← urlSextetValue y
    let bytes ← rawURLQuanta rest
    return ofNat (p * 4 + q / 16) :: ofNat (q % 16 * 16 + x / 4) ::
      ofNat (x % 4 * 64 + y) :: bytes

def dropBreaks (b : Bytes) : Bytes := b.filter fun c => c ≠ 10 ∧ c ≠ 13

def rawURLDecode (b : Bytes) : Option Bytes := rawURLQuanta (dropBreaks b)

theorem urlSextetChar_spec : ∀ n < 64, urlSextetValue (urlSextetChar n) = some n ∧
    urlSextetChar n ≠ 10 ∧ urlSextetChar n ≠ 13 := by
  decide

theorem urlSextetValue_eq_some {c : UInt8} {n : Nat} (h : urlSextetValue c = some n) :
    n < 64 ∧ urlSextetChar n = c := by
  have hall : ∀ k < 256, ∀ n ∈ urlSextetValue (UInt8.ofNat k),
      n < 64 ∧ urlSextetChar n = UInt8.ofNat k := by
    decide +kernel
  have := hall c.toNat c.toNat_lt
  rw [UInt8.ofNat_toNat] at this
  exact this n h

theorem rawURLEncode_of_quanta {b blob : Bytes} (h : rawURLQuanta b = some blob)
    (hlength : blob.length % 3 = 0) : rawURLEncode blob = b := by
  fun_induction rawURLQuanta b generalizing blob with
  | case1 =>
    cases h
    rfl
  | case2 => cases h
  | case3 p q =>
    simp only [bind_eq_bind, bind_eq_some_iff] at h
    obtain ⟨_, _, _, _, h⟩ := h
    cases h
    cases hlength
  | case4 p q x =>
    simp only [bind_eq_bind, bind_eq_some_iff] at h
    obtain ⟨_, _, _, _, _, _, h⟩ := h
    cases h
    cases hlength
  | case5 p q x y rest ih =>
    simp only [bind_eq_bind, bind_eq_some_iff] at h
    obtain ⟨p', hp, q', hq, x', hx, y', hy, bytes, hbytes, h⟩ := h
    cases h
    obtain ⟨hp, rfl⟩ := urlSextetValue_eq_some hp
    obtain ⟨hq, rfl⟩ := urlSextetValue_eq_some hq
    obtain ⟨hx, rfl⟩ := urlSextetValue_eq_some hx
    obtain ⟨hy, rfl⟩ := urlSextetValue_eq_some hy
    have hrest := ih hbytes (by simp only [length_cons] at hlength; omega)
    have htoNat : ∀ n < 256, (ofNat n).toNat = n := fun n hn => by simp [hn]
    rw [rawURLEncode, hrest, htoNat _ (by omega), htoNat _ (by omega), htoNat _ (by omega)]
    rw [show (p' * 4 + q' / 16) / 4 = p' by omega,
      show (p' * 4 + q' / 16) % 4 * 16 + (q' % 16 * 16 + x' / 4) / 16 = q' by omega,
      show (q' % 16 * 16 + x' / 4) % 16 * 4 + (x' % 4 * 64 + y') / 64 = x' by omega,
      show (x' % 4 * 64 + y') % 64 = y' by omega]

theorem rawURLDecode_encode {b : Bytes} (hlength : b.length % 3 = 0) :
    rawURLDecode (rawURLEncode b) = some b := by
  fun_induction rawURLEncode b with
  | case1 => rfl
  | case2 => cases hlength
  | case3 => cases hlength
  | case4 a b c rest ih =>
    have ha := a.toNat_lt
    have hb := b.toNat_lt
    have hc := c.toNat_lt
    have hrest := ih (by simp only [length_cons] at hlength; omega)
    obtain ⟨hp, hpKept⟩ := urlSextetChar_spec (a.toNat / 4) (by omega)
    obtain ⟨hq, hqKept⟩ := urlSextetChar_spec (a.toNat % 4 * 16 + b.toNat / 16) (by omega)
    obtain ⟨hx, hxKept⟩ := urlSextetChar_spec (b.toNat % 16 * 4 + c.toNat / 64) (by omega)
    obtain ⟨hy, hyKept⟩ := urlSextetChar_spec (c.toNat % 64) (by omega)
    unfold rawURLDecode dropBreaks at hrest ⊢
    simp only [filter_cons, decide_eq_true hpKept, decide_eq_true hqKept,
      decide_eq_true hxKept, decide_eq_true hyKept, if_true]
    simp only [rawURLQuanta, hp, hq, hx, hy, hrest, bind_eq_bind, bind_some]
    rw [ofNat_eq (a := a) (by omega), ofNat_eq (a := b) (by omega), ofNat_eq (a := c) (by omega)]
    rfl

/-! ## Hashes -/

inductive TokenError where
  | unknownTokenFormat
  | malformedTokenBlob
  | invalidToken
  deriving DecidableEq

/-- The results of `ParseV2`. -/
structure TokenFields where
  formatVersion : UInt8
  algo : UInt8
  mCostKB : Nat
  tCost : UInt8
  parallelism : UInt8
  salt : Bytes
  key : Bytes
  deriving DecidableEq

def tokenFormatPrefix : Bytes := [0x6d, 0x65, 0x73, 0x68, 0x31, 0x2e]

def tokenBlobLen : Nat := 54

def fieldsOf (blob : Bytes) : TokenFields where
  formatVersion := blob.getD 0 0
  algo := blob.getD 1 0
  mCostKB := (blob.getD 2 0).toNat * 256 + (blob.getD 3 0).toNat
  tCost := blob.getD 4 0
  parallelism := blob.getD 5 0
  salt := (blob.drop 6).take 16
  key := (blob.drop 22).take 32

def parseV2 (hash : Bytes) : Except TokenError TokenFields :=
  if tokenFormatPrefix <+: hash then
    match rawURLDecode (hash.drop tokenFormatPrefix.length) with
    | none => .error .malformedTokenBlob
    | some blob =>
      if blob.length ≠ tokenBlobLen then .error .malformedTokenBlob else .ok (fieldsOf blob)
  else .error .unknownTokenFormat

/-- `argon2.IDKey` where it does not panic. -/
structure Argon2 where
  idKey : Bytes → Bytes → Nat → Nat → Nat → Nat → Bytes
  length : ∀ password salt time memory threads keyLen,
    (idKey password salt time memory threads keyLen).length = keyLen

def Argon2.call (argon : Argon2) (password salt : Bytes) (time memory threads keyLen : Nat) :
    Option Bytes :=
  if time < 1 ∨ threads < 1 then none
  else some (argon.idKey password salt time memory threads keyLen)

/-- `VerifyToken`. -/
def verifyToken (argon : Argon2) (rawToken hash : Bytes) : Option (Except TokenError Unit) :=
  match parseV2 hash with
  | .error err => some (.error err)
  | .ok f => do
    let computed ← argon.call rawToken f.salt f.tCost.toNat f.mCostKB f.parallelism.toNat
      f.key.length
    return if computed = f.key then .ok () else .error .invalidToken

/-- `HashTokenV2`, with the salt that was drawn. -/
def hashTokenV2 (argon : Argon2) (salt rawToken : Bytes) : Bytes :=
  tokenFormatPrefix ++ rawURLEncode
    ([0x01, 0x01, 0x10, 0x00, 1, 1] ++ salt ++ argon.idKey rawToken salt 1 4096 1 32)

theorem parseV2_eq_ok {hash : Bytes} {f : TokenFields} :
    parseV2 hash = .ok f ↔ ∃ body blob, hash = tokenFormatPrefix ++ body ∧
      rawURLDecode body = some blob ∧ blob.length = tokenBlobLen ∧ f = fieldsOf blob := by
  unfold parseV2
  constructor
  · intro h
    split at h
    next hstart =>
      obtain ⟨body, rfl⟩ := hstart
      rw [drop_left] at h
      cases hblob : rawURLDecode body with
      | none => simp [hblob] at h
      | some blob =>
        simp only [hblob, ne_eq, ite_not] at h
        split at h
        next hlength => exact ⟨body, blob, rfl, hblob, hlength, (Except.ok.inj h).symm⟩
        next => cases h
    next => cases h
  · rintro ⟨body, blob, rfl, hblob, hlength, rfl⟩
    rw [if_pos (prefix_append _ _), drop_left]
    simp [hblob, hlength]

theorem eq_of_fieldsOf_eq {a b : Bytes} (ha : a.length = tokenBlobLen)
    (hb : b.length = tokenBlobLen) (h : fieldsOf a = fieldsOf b) : a = b := by
  have hlayout : ∀ {c : Bytes}, c.length = tokenBlobLen → c =
      [(fieldsOf c).formatVersion, (fieldsOf c).algo, ofNat ((fieldsOf c).mCostKB / 256),
        ofNat ((fieldsOf c).mCostKB % 256), (fieldsOf c).tCost, (fieldsOf c).parallelism] ++
        ((fieldsOf c).salt ++ (fieldsOf c).key) := by
    intro c hc
    rcases c with _ | ⟨c0, _ | ⟨c1, _ | ⟨c2, _ | ⟨c3, _ | ⟨c4, _ | ⟨c5, rest⟩⟩⟩⟩⟩⟩ <;>
      try cases hc
    have hlow := c3.toNat_lt
    have hrest : (rest.drop 16).take 32 = rest.drop 16 :=
      take_of_length_le (by simp [tokenBlobLen] at hc ⊢; omega)
    simp only [fieldsOf, getD_cons_zero, getD_cons_succ, drop_succ_cons,
      drop_zero, hrest, take_append_drop]
    rw [ofNat_eq (a := c2) (by omega), ofNat_eq (a := c3) (by omega)]
    rfl
  rw [hlayout ha, hlayout hb, h]

theorem verifyToken_hashTokenV2 (argon : Argon2) (rawToken token : Bytes) {salt : Bytes}
    (hsalt : salt.length = 16) :
    verifyToken argon rawToken (hashTokenV2 argon salt token) = some (.ok ()) ↔
      argon.idKey rawToken salt 1 4096 1 32 = argon.idKey token salt 1 4096 1 32 := by
  have hkey := argon.length token salt 1 4096 1 32
  unfold hashTokenV2
  generalize argon.idKey token salt 1 4096 1 32 = key at hkey
  have hlength : ([0x01, 0x01, 0x10, 0x00, 1, 1] ++ salt ++ key).length = tokenBlobLen := by
    simp [hsalt, hkey, tokenBlobLen]
  have hdecode := rawURLDecode_encode (b := [0x01, 0x01, 0x10, 0x00, 1, 1] ++ salt ++ key)
    (by rw [hlength]; rfl)
  have hparse := parseV2_eq_ok.mpr ⟨_, _, rfl, hdecode, hlength, rfl⟩
  have hfields : fieldsOf ([0x01, 0x01, 0x10, 0x00, 1, 1] ++ salt ++ key) =
      { formatVersion := 1, algo := 1, mCostKB := 4096, tCost := 1, parallelism := 1,
        salt, key } := by
    have htake : key.take 32 = key := take_of_length_le hkey.le
    simp [fieldsOf, drop_append, hsalt, htake]
  rw [verifyToken, hparse, hfields]
  simp [Argon2.call, hkey]

/-! ## Verification -/

section

variable {argon : Argon2} {rawToken hash : Bytes} {f : TokenFields}

theorem verifyToken_eq_none (h : parseV2 hash = .ok f) :
    verifyToken argon rawToken hash = none ↔ f.tCost = 0 ∨ f.parallelism = 0 := by
  have hzero : ∀ c : UInt8, c.toNat < 1 ↔ c = 0 := fun c => by
    rw [Nat.lt_one_iff, ← UInt8.toNat_inj]
    rfl
  rw [verifyToken, h, ← hzero, ← hzero]
  by_cases hcost : f.tCost.toNat < 1 ∨ f.parallelism.toNat < 1
  · exact iff_of_true (by simp only [Argon2.call, if_pos hcost]; rfl) hcost
  · exact iff_of_false (by simp only [Argon2.call, if_neg hcost]; nofun) hcost

theorem verifyToken_eq_ok (h : parseV2 hash = .ok f)
    (hcosts : verifyToken argon rawToken hash ≠ none) :
    verifyToken argon rawToken hash = some (.ok ()) ↔
      argon.idKey rawToken f.salt f.tCost.toNat f.mCostKB f.parallelism.toNat f.key.length =
        f.key := by
  rw [verifyToken, h] at hcosts ⊢
  by_cases hcost : f.tCost.toNat < 1 ∨ f.parallelism.toNat < 1
  · exact absurd (by simp only [Argon2.call, if_pos hcost]; rfl) hcosts
  · simp only [Argon2.call, if_neg hcost, Option.bind_eq_bind, Option.bind_some, Option.pure_def,
      Option.some.injEq]
    split <;> simp [*]

end

/-- No panic; own hashes are accepted, and others only in the one format. -/
structure TotalAndStrict (argon : Argon2) (rawToken hash other : Bytes) : Prop where
  total : verifyToken argon rawToken hash ≠ none
  strict : verifyToken argon rawToken hash = some (.ok ()) →
    ∃ f, parseV2 hash = .ok f ∧ f.formatVersion = 1 ∧ f.algo = 1
  complete : ∀ salt, salt.length = 16 →
    verifyToken argon rawToken (hashTokenV2 argon salt rawToken) = some (.ok ())
  unique : ∀ f, parseV2 hash = .ok f → parseV2 other = .ok f → hash = other

/-- Known parameters that are not zero, and a spelling that no other token shares. -/
def Canonical (hash other : Bytes) : Prop :=
  ∀ body blob, hash = tokenFormatPrefix ++ body → rawURLDecode body = some blob →
    blob.length = tokenBlobLen →
    (blob.getD 0 0 = 1 ∧ blob.getD 1 0 = 1 ∧ blob.getD 4 0 ≠ 0 ∧ blob.getD 5 0 ≠ 0) ∧
    ∀ body', other = tokenFormatPrefix ++ body' → dropBreaks body' = dropBreaks body → body' = body

/-- An `argon2` that gives the key it is told. -/
def Argon2.constant (key : Bytes) : Argon2 where
  idKey _ _ _ _ _ keyLen := (key ++ replicate keyLen 0).take keyLen
  length := by simp

/-- **What `VerifyToken` needs**. -/
theorem verifyToken_strict_iff (hash other : Bytes) :
    (∀ argon rawToken, TotalAndStrict argon rawToken hash other) ↔ Canonical hash other := by
  constructor
  · intro h body blob hhash hblob hlength
    have hparse : parseV2 hash = .ok (fieldsOf blob) :=
      parseV2_eq_ok.mpr ⟨body, blob, hhash, hblob, hlength, rfl⟩
    have hone := h (.constant (fieldsOf blob).key) []
    have hcosts := mt (verifyToken_eq_none hparse).mpr hone.total
    obtain ⟨f, hf, hversion, halgo⟩ :=
      hone.strict ((verifyToken_eq_ok hparse hone.total).mpr take_left)
    cases hparse.symm.trans hf
    refine ⟨⟨hversion, halgo, not_or.mp hcosts⟩, fun body' hother hbreaks => ?_⟩
    have hsame := hone.unique _ hparse (parseV2_eq_ok.mpr
      ⟨body', blob, hother, (congrArg rawURLQuanta hbreaks).trans hblob, hlength, rfl⟩)
    rw [hhash, hother] at hsame
    exact (append_cancel_left hsame).symm
  · intro h argon rawToken
    have hblob : ∀ f, parseV2 hash = .ok f →
        f.formatVersion = 1 ∧ f.algo = 1 ∧ ¬ (f.tCost = 0 ∨ f.parallelism = 0) := by
      intro f hf
      obtain ⟨body, blob, hhash, hblob, hlength, rfl⟩ := parseV2_eq_ok.mp hf
      have := (h body blob hhash hblob hlength).1
      exact ⟨this.1, this.2.1, not_or.mpr this.2.2⟩
    cases hparse : parseV2 hash with
    | error err =>
      have hverify : verifyToken argon rawToken hash = some (.error err) := by
        rw [verifyToken, hparse]
      refine ⟨by simp [hverify], fun hok => ?_,
        fun _ h => (verifyToken_hashTokenV2 argon _ _ h).mpr rfl, fun f hf => ?_⟩
      · rw [hverify] at hok
        cases hok
      · cases hparse.symm.trans hf
    | ok f =>
      obtain ⟨hversion, halgo, hcosts⟩ := hblob f hparse
      refine ⟨mt (verifyToken_eq_none hparse).mp hcosts, fun _ => ⟨f, hparse, hversion, halgo⟩,
        fun _ h => (verifyToken_hashTokenV2 argon _ _ h).mpr rfl, fun g hg hother => ?_⟩
      obtain ⟨body, blob, hhash, hblob, hlength, rfl⟩ := parseV2_eq_ok.mp hg
      obtain ⟨body', blob', hhash', hblob', hlength', hfields⟩ := parseV2_eq_ok.mp hother
      cases eq_of_fieldsOf_eq hlength hlength' hfields
      have hthree : blob.length % 3 = 0 := by rw [hlength]; rfl
      have hbreaks := (rawURLEncode_of_quanta hblob' hthree).symm.trans
        (rawURLEncode_of_quanta hblob hthree)
      rw [hhash, hhash', (h body blob hhash hblob hlength).2 body' hhash' hbreaks]

/-- 72 times `A`: version 0, and `argon2.IDKey` is called with a time of 0. -/
theorem verifyToken_panics : verifyToken (.constant []) []
    (tokenFormatPrefix ++ replicate 72 0x41) = none := by
  have hparse : parseV2 (tokenFormatPrefix ++ replicate 72 0x41) =
      .ok (fieldsOf (replicate 54 0)) := by
    decide +kernel
  exact (verifyToken_eq_none hparse).mpr (Or.inl rfl)

end AwgMesh.Tls
