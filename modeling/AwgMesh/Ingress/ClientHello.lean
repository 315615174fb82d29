import AwgMesh.ByteText
import AwgMesh.Lib.Bounds
import AwgMesh.Lib.Checks
import Mathlib.Data.List.TakeWhile

/-!
# The server name of a TLS ClientHello

`ClientHelloServerName` of `pkg/ingress/sni.go` with `normalizeHostname` of `types.go`.
-/

namespace AwgMesh.Ingress

open Lib Lib.Checked ByteText List UInt8

/-! ## Host names -/

inductive HostnameError where
  | required
  | tooLong (hostname : Bytes)
  | dotAtEnd (hostname : Bytes)
  | labelLength (hostname : Bytes)
  | hyphenAtEnd (hostname label : Bytes)
  | invalidCharacter (hostname rest : Bytes)

def isLabelChar (c : UInt8) : Bool :=
  (0x61 ≤ c && c ≤ 0x7a) || (0x30 ≤ c && c ≤ 0x39) || c = 0x2d

def splitDots (host : Bytes) : List Bytes := splitByte 0x2e host

def checkLabel (hostname label : Bytes) : Except HostnameError Unit :=
  if label = [] ∨ label.length > 63 then .error (.labelLength hostname)
  else if label.head? = some 0x2d ∨ label.getLast? = some 0x2d then
    .error (.hyphenAtEnd hostname label)
  else match label.dropWhile isLabelChar with
    | [] => .ok ()
    | rest => .error (.invalidCharacter hostname rest)

def normalizeHostname (toLower : Bytes → Bytes) (hostname : Bytes) :
    Except HostnameError Bytes := do
  let host := toLower (trimSpace hostname)
  if host = [] then throw .required
  if host.length > 253 then throw (.tooLong hostname)
  if host.head? = some 0x2e ∨ host.getLast? = some 0x2e then throw (.dotAtEnd hostname)
  let _ ← (splitDots host).mapM (checkLabel hostname)
  return host

/-! ## The parser -/

inductive HelloError where
  | tooShort
  | noSNI
  | notHandshake (contentType : UInt8)
  | notClientHello
  | hostname (err : HostnameError)

def uint16 (b : Bytes) (pos : Nat) : Checked HelloError Nat := do
  let two ← slice b pos (pos + 2)
  let hi ← index two 0
  let lo ← index two 1
  return hi.toNat * 256 + lo.toNat

def serverNameLoop (toLower : Bytes → Bytes) (data : Bytes) (endPos cursor : Nat) :
    Checked HelloError Bytes :=
  if cursor + 3 ≤ endPos then do
    let nameType ← index data cursor
    let nameLen ← uint16 data (cursor + 1)
    refuseIf (cursor + 3 + nameLen > endPos) .tooShort
    if nameType = 0 then
      let name ← slice data (cursor + 3) (cursor + 3 + nameLen)
      Checked.lift ((normalizeHostname toLower name).mapError .hostname)
    else serverNameLoop toLower data endPos (cursor + 3 + nameLen)
  else throw .noSNI
termination_by endPos - cursor

def parseSNIServerName (toLower : Bytes → Bytes) (data : Bytes) : Checked HelloError Bytes := do
  refuseIf (data.length < 2) .tooShort
  let listLen ← uint16 data 0
  refuseIf (listLen = 0 ∨ data.length - 2 < listLen) .tooShort
  serverNameLoop toLower data (2 + listLen) 2

def extensionLoop (toLower : Bytes → Bytes) (body : Bytes) (extensionsEnd cursor : Nat) :
    Checked HelloError Bytes :=
  if cursor + 4 ≤ extensionsEnd then do
    let extType ← uint16 body cursor
    let extLen ← uint16 body (cursor + 2)
    refuseIf (cursor + 4 + extLen > extensionsEnd) .tooShort
    if extType = 0 then
      let data ← slice body (cursor + 4) (cursor + 4 + extLen)
      parseSNIServerName toLower data
    else extensionLoop toLower body extensionsEnd (cursor + 4 + extLen)
  else throw .noSNI
termination_by extensionsEnd - cursor

def helloExtensions (toLower : Bytes → Bytes) (body : Bytes) : Checked HelloError Bytes := do
  let cursor := 4 + 2 + 32
  refuseIf (cursor ≥ body.length) .tooShort
  let sessionIDLen ← index body cursor
  let cursor := cursor + 1 + sessionIDLen.toNat
  refuseIf (cursor + 2 > body.length) .tooShort
  let cipherSuitesLen ← uint16 body cursor
  let cursor := cursor + (2 + cipherSuitesLen)
  refuseIf (cursor ≥ body.length) .tooShort
  let compressionMethodsLen ← index body cursor
  let cursor := cursor + 1 + compressionMethodsLen.toNat
  refuseIf (cursor + 2 > body.length) .noSNI
  let extensionsLen ← uint16 body cursor
  let cursor := cursor + 2
  refuseIf (cursor + extensionsLen > body.length) .tooShort
  extensionLoop toLower body (cursor + extensionsLen) cursor

def clientHelloServerName (toLower : Bytes → Bytes) (record : Bytes) :
    Checked HelloError Bytes := do
  refuseIf (record.length < 5) .tooShort
  let contentType ← index record 0
  refuseIf (contentType ≠ 22) (.notHandshake contentType)
  let recordLen ← uint16 record 3
  refuseIf (record.length - 5 < recordLen) .tooShort
  let body ← slice record 5 (5 + recordLen)
  refuseIf (body.length < 42) .tooShort
  let msgType ← index body 0
  refuseIf (msgType ≠ 1) .notClientHello
  let b1 ← index body 1
  let b2 ← index body 2
  let b3 ← index body 3
  let helloLen := b1.toNat * 65536 + b2.toNat * 256 + b3.toNat
  refuseIf (body.length - 4 < helloLen) .tooShort
  helloExtensions toLower body

/-! ## Never out of range -/

section

variable (toLower : Bytes → Bytes)

theorem uint16_meets {b : Bytes} {pos : Nat} (h : pos + 2 ≤ b.length) :
    Meets (uint16 b pos) fun _ => True := by
  unfold uint16
  refine .bind (meets_slice (by omega) h) fun two htwo => ?_
  refine .bind (meets_index (by omega)) fun _ _ => ?_
  refine .bind (meets_index (by omega)) fun _ _ => ?_
  exact .pure trivial

theorem serverNameLoop_meets {data : Bytes} {endPos : Nat} (hend : endPos ≤ data.length)
    (cursor : Nat) : Meets (serverNameLoop toLower data endPos cursor) fun _ => True := by
  fun_induction serverNameLoop toLower data endPos cursor with
  | case1 cursor h ih =>
    refine .bind (meets_index (by omega)) fun nameType _ => ?_
    refine .bind (uint16_meets (by omega)) fun nameLen _ => ?_
    refine .bind meets_refuseIf fun _ hlen => ?_
    split
    · refine .bind (meets_slice (by omega) (by omega)) fun name _ => ?_
      exact meets_lift _
    · exact ih nameLen
  | case2 cursor h => exact .throw _

theorem parseSNIServerName_meets (data : Bytes) :
    Meets (parseSNIServerName toLower data) fun _ => True := by
  unfold parseSNIServerName
  refine .bind meets_refuseIf fun _ hlen => ?_
  refine .bind (uint16_meets (by omega)) fun listLen _ => ?_
  refine .bind meets_refuseIf fun _ hlist => ?_
  exact serverNameLoop_meets toLower (by omega) 2

theorem extensionLoop_meets {body : Bytes} {extensionsEnd : Nat}
    (hend : extensionsEnd ≤ body.length) (cursor : Nat) :
    Meets (extensionLoop toLower body extensionsEnd cursor) fun _ => True := by
  fun_induction extensionLoop toLower body extensionsEnd cursor with
  | case1 cursor h ih =>
    refine .bind (uint16_meets (by omega)) fun extType _ => ?_
    refine .bind (uint16_meets (by omega)) fun extLen _ => ?_
    refine .bind meets_refuseIf fun _ hlen => ?_
    split
    · refine .bind (meets_slice (by omega) (by omega)) fun data _ => ?_
      exact parseSNIServerName_meets toLower data
    · exact ih extLen
  | case2 cursor h => exact .throw _

theorem helloExtensions_meets (body : Bytes) :
    Meets (helloExtensions toLower body) fun _ => True := by
  unfold helloExtensions
  refine .bind meets_refuseIf fun _ hsession => ?_
  refine .bind (meets_index (by omega)) fun sessionIDLen _ => ?_
  refine .bind meets_refuseIf fun _ hsuites => ?_
  refine .bind (uint16_meets (by omega)) fun cipherSuitesLen _ => ?_
  refine .bind meets_refuseIf fun _ hmethods => ?_
  refine .bind (meets_index (by omega)) fun compressionMethodsLen _ => ?_
  refine .bind meets_refuseIf fun _ hextensions => ?_
  refine .bind (uint16_meets (by omega)) fun extensionsLen _ => ?_
  refine .bind meets_refuseIf fun _ hend => ?_
  exact extensionLoop_meets toLower (by omega) _

theorem clientHelloServerName_meets (record : Bytes) :
    Meets (clientHelloServerName toLower record) fun _ => True := by
  unfold clientHelloServerName
  refine .bind meets_refuseIf fun _ hlen => ?_
  refine .bind (meets_index (by omega)) fun contentType _ => ?_
  refine .bind meets_refuseIf fun _ _ => ?_
  refine .bind (uint16_meets (by omega)) fun recordLen _ => ?_
  refine .bind meets_refuseIf fun _ hrecord => ?_
  refine .bind (meets_slice (by omega) (by omega)) fun body hbody => ?_
  refine .bind meets_refuseIf fun _ hshort => ?_
  refine .bind (meets_index (by omega)) fun msgType _ => ?_
  refine .bind meets_refuseIf fun _ _ => ?_
  refine .bind (meets_index (by omega)) fun b1 _ => ?_
  refine .bind (meets_index (by omega)) fun b2 _ => ?_
  refine .bind (meets_index (by omega)) fun b3 _ => ?_
  refine .bind meets_refuseIf fun _ _ => ?_
  exact helloExtensions_meets toLower body

end

/-! ## Which host names are accepted -/

open Lib.Checks

def dottedI : Char := Char.ofNat 0x130

def kelvin : Char := Char.ofNat 0x212a

structure LowerTable where
  lower : Char → Char
  ascii : ∀ c, c.toNat < 128 → lower c = c.toLower
  dottedI : lower dottedI = 'i'
  kelvin : lower kelvin = 'k'
  others : ∀ c, 128 ≤ c.toNat → c ≠ Ingress.dottedI → c ≠ Ingress.kelvin → 128 ≤ (lower c).toNat

/-- `strings.Map`. -/
def mapRunes (f : Char → Char) : Bytes → Bytes
  | [] => []
  | x :: b =>
    match (x :: b).toByteArray.utf8DecodeChar? 0 with
    | some c => String.utf8EncodeChar (f c) ++ mapRunes f (b.drop (c.utf8Size - 1))
    | none => [0xef, 0xbf, 0xbd] ++ mapRunes f b
termination_by b => b.length
decreasing_by all_goals simp only [length_drop, length_cons]; omega

/-- `strings.ToLower`. -/
def LowerTable.toLower (table : LowerTable) : Bytes → Bytes := mapRunes table.lower

def lowerByte (c : UInt8) : UInt8 := if 0x41 ≤ c ∧ c ≤ 0x5a then c + 0x20 else c

/-- The first is lowered to the second, which is ASCII. -/
inductive Folds : Bytes → Bytes → Prop
  | nil : Folds [] []
  | plain {c : UInt8} {s h : Bytes} (small : c < 0x80) (rest : Folds s h) :
      Folds (c :: s) (lowerByte c :: h)
  | dottedI {s h : Bytes} (rest : Folds s h) : Folds (0xc4 :: 0xb0 :: s) (0x69 :: h)
  | kelvin {s h : Bytes} (rest : Folds s h) : Folds (0xe2 :: 0x84 :: 0xaa :: s) (0x6b :: h)

structure IsHostname (h : Bytes) : Prop where
  length : 1 ≤ h.length ∧ h.length ≤ 253
  labels : ∀ label ∈ splitDots h, 1 ≤ label.length ∧ label.length ≤ 63
  hyphens : ∀ label ∈ splitDots h, label.head? ≠ some 0x2d ∧ label.getLast? ≠ some 0x2d
  chars : ∀ label ∈ splitDots h, ∀ c ∈ label, isLabelChar c = true

/-! ## Lower case -/

section

variable {table : LowerTable}

theorem mapRunes_encode (f : Char → Char) (c : Char) (s : Bytes) :
    mapRunes f (String.utf8EncodeChar c ++ s) = String.utf8EncodeChar (f c) ++ mapRunes f s := by
  have hdecode : (String.utf8EncodeChar c ++ s).toByteArray.utf8DecodeChar? 0 = some c := by
    rw [toByteArray_append]
    exact ByteArray.utf8DecodeChar?_utf8EncodeChar_append
  have hlength := String.length_utf8EncodeChar c
  cases hc : String.utf8EncodeChar c with
  | nil =>
    have := c.utf8Size_pos
    simp [hc] at hlength
    omega
  | cons x b =>
    rw [hc, cons_append] at hdecode
    rw [hc, length_cons] at hlength
    rw [cons_append, mapRunes, hdecode]
    dsimp only
    rw [show c.utf8Size - 1 = b.length by omega, drop_left]

theorem encode_lower {c : UInt8} (hc : c < 0x80) :
    String.utf8EncodeChar (Char.ofNat c.toNat) = [c] ∧
      String.utf8EncodeChar (table.lower (Char.ofNat c.toNat)) = [lowerByte c] := by
  have hval : ∀ n < 128, (Char.ofNat n).toNat < 128 ∧
      String.utf8EncodeChar (Char.ofNat n) = [UInt8.ofNat n] ∧
      String.utf8EncodeChar (Char.ofNat n).toLower = [lowerByte (UInt8.ofNat n)] := by
    decide +kernel
  obtain ⟨hsmall, hsame, hlower⟩ := hval c.toNat (UInt8.lt_iff_toNat_lt.mp hc)
  rw [UInt8.ofNat_toNat] at hsame hlower
  exact ⟨hsame, table.ascii _ hsmall ▸ hlower⟩

theorem Folds.toLower {s h : Bytes} (hs : Folds s h) : table.toLower s = h := by
  induction hs with
  | nil => rw [LowerTable.toLower, mapRunes]
  | @plain c s h small rest ih =>
    obtain ⟨hsame, hlower⟩ := @encode_lower table _ small
    have hmap := mapRunes_encode table.lower (Char.ofNat c.toNat) s
    rw [hsame, hlower] at hmap
    exact hmap.trans (congrArg _ ih)
  | dottedI rest ih =>
    have hmap := mapRunes_encode table.lower Ingress.dottedI
    rw [table.dottedI] at hmap
    exact (hmap _).trans (congrArg _ ih)
  | kelvin rest ih =>
    have hmap := mapRunes_encode table.lower Ingress.kelvin
    rw [table.kelvin] at hmap
    exact (hmap _).trans (congrArg _ ih)

theorem folds_of_ascii (s : Bytes) (h : ∀ c ∈ table.toLower s, c < 0x80) :
    Folds s (table.toLower s) := by
  unfold LowerTable.toLower at h ⊢
  fun_induction mapRunes table.lower s with
  | case1 => exact .nil
  | case2 x b c hc ih =>
    obtain ⟨l, hl⟩ := ByteArray.exists_of_utf8DecodeChar?_eq_some hc
    have hb : x :: b = String.utf8EncodeChar c ++ l.data.toList := by
      have := congrArg (fun a : ByteArray => a.data.toList) hl
      simpa [data_toByteArray] using this
    have hrest : b.drop (c.utf8Size - 1) = l.data.toList := by
      have hdrop := congrArg (drop c.utf8Size) hb
      rw [← String.length_utf8EncodeChar, drop_left, String.length_utf8EncodeChar] at hdrop
      rw [← hdrop]
      cases hsize : c.utf8Size with
      | zero => exact absurd hsize c.utf8Size_pos.ne'
      | succ n => rfl
    rw [forall_mem_append] at h
    have hfolds := ih h.2
    rw [hrest] at hfolds ⊢
    rw [hb]
    by_cases hsmall : c.toNat < 128
    · have hbyte : ofNat c.toNat < 0x80 := by
        rw [lt_iff_toNat_lt, toNat_ofNat']
        exact (Nat.mod_le _ _).trans_lt hsmall
      obtain ⟨hsame, hlower⟩ := @encode_lower table _ hbyte
      have htoNat : (ofNat c.toNat).toNat = c.toNat := by
        rw [toNat_ofNat']
        omega
      rw [htoNat, Char.ofNat_toNat] at hsame hlower
      rw [hsame, hlower]
      exact hfolds.plain hbyte
    · by_cases hdotted : c = Ingress.dottedI
      · subst hdotted
        rw [table.dottedI]
        exact hfolds.dottedI
      · by_cases hkelvin : c = Ingress.kelvin
        · subst hkelvin
          rw [table.kelvin]
          exact hfolds.kelvin
        · have hwide := table.others c (Nat.le_of_not_lt hsmall) hdotted hkelvin
          rcases utf8EncodeChar_cases (table.lower c) with
            ⟨hlt, -⟩ | ⟨-, first, rest, heq, hfirst, -⟩
          · omega
          · have := h.1 first (by simp [heq])
            rw [lt_iff_toNat_lt] at this
            exact absurd this (by simp; omega)
  | case3 x b hnone ih => exact absurd (h 0xef (by simp)) (by decide)

end

/-! ## Acceptance -/

theorem checkLabel_eq_ok {hostname label : Bytes} :
    checkLabel hostname label = .ok () ↔ (1 ≤ label.length ∧ label.length ≤ 63) ∧
      (label.head? ≠ some 0x2d ∧ label.getLast? ≠ some 0x2d) ∧
      ∀ c ∈ label, isLabelChar c = true := by
  rw [← dropWhile_eq_nil_iff, Nat.one_le_iff_ne_zero, ne_eq, length_eq_zero_iff]
  unfold checkLabel
  split_ifs with hlength hhyphen
  · rw [gt_iff_lt, ← Nat.not_le] at hlength
    tauto
  · tauto
  · cases label.dropWhile isLabelChar with
    | nil =>
      rw [gt_iff_lt, ← Nat.not_le] at hlength
      tauto
    | cons c rest => tauto

theorem mem_splitDots_of_dot {h : Bytes} (hdot : h.head? = some 0x2e ∨ h.getLast? = some 0x2e) :
    [] ∈ splitDots h := by
  unfold splitDots
  rcases hdot with hhead | hlast
  · obtain ⟨t, rfl⟩ := head?_eq_some_iff.mp hhead
    exact splitByte_append_sep 0x2e [] t ▸ mem_cons_self
  · obtain ⟨t, rfl⟩ := getLast?_eq_some_iff.mp hlast
    exact splitByte_append_sep 0x2e t [] ▸ mem_append_right _ mem_cons_self

theorem normalizeHostname_eq_ok {toLower : Bytes → Bytes} {s h : Bytes} :
    normalizeHostname toLower s = .ok h ↔ toLower (trimSpace s) = h ∧ IsHostname h := by
  unfold normalizeHostname
  generalize toLower (trimSpace s) = host
  have hlabels : ∀ us, (splitDots host).mapM (checkLabel s) = .ok us ↔
      (∀ l ∈ splitDots host, checkLabel s l = .ok ()) ∧ us = (splitDots host).map fun _ => () := by
    intro us
    rw [mapM_eq_ok (g := fun _ => ()) (fun _ _ _ => rfl)]
    exact and_congr_left' (forall₂_congr fun _ _ => ⟨fun ⟨(), h⟩ => h, fun h => ⟨(), h⟩⟩)
  constructor
  · intro hrun
    dsimp only at hrun
    split at hrun
    next => contradiction
    next hempty =>
    split at hrun
    next => contradiction
    next hlong =>
    split at hrun
    next => contradiction
    next hdot =>
    obtain ⟨us, hus, hret⟩ := bind_eq_ok.mp hrun
    cases hret
    have hlabel := fun l hl => checkLabel_eq_ok.mp (((hlabels us).mp hus).1 l hl)
    exact ⟨rfl, ⟨length_pos_iff.mpr hempty, Nat.le_of_not_lt hlong⟩,
      fun l hl => (hlabel l hl).1, fun l hl => (hlabel l hl).2.1, fun l hl => (hlabel l hl).2.2⟩
  · rintro ⟨rfl, hname⟩
    have hempty : host ≠ [] := length_pos_iff.mp hname.length.1
    have hdot : ¬ (host.head? = some 0x2e ∨ host.getLast? = some 0x2e) := fun h =>
      absurd (hname.labels [] (mem_splitDots_of_dot h)).1 (by decide)
    rw [if_neg hempty, if_neg (Nat.not_lt.mpr hname.length.2), if_neg hdot]
    refine bind_eq_ok.mpr ⟨_, (hlabels _).mpr ⟨fun l hl => ?_, rfl⟩, rfl⟩
    exact checkLabel_eq_ok.mpr ⟨hname.labels l hl, hname.hyphens l hl, hname.chars l hl⟩

theorem IsHostname.char {h : Bytes} (hname : IsHostname h) :
    ∀ c ∈ h, 0x21 ≤ c ∧ c ≤ 0x7e ∧ lowerByte c = c := by
  have hchar : ∀ n < 256, isLabelChar (UInt8.ofNat n) = true →
      0x21 ≤ UInt8.ofNat n ∧ UInt8.ofNat n ≤ 0x7e ∧ lowerByte (UInt8.ofNat n) = UInt8.ofNat n := by
    decide +kernel
  intro c hc
  rcases mem_splitByte_or 0x2e h c hc with rfl | ⟨label, hlabel, hin⟩
  · decide
  · have := hchar c.toNat c.toNat_lt
    rw [UInt8.ofNat_toNat] at this
    exact this (hname.chars label hlabel c hin)

theorem folds_self {h : Bytes} (hsmall : ∀ c ∈ h, c ≤ 0x7e ∧ lowerByte c = c) : Folds h h := by
  induction h with
  | nil => exact .nil
  | cons c h ih =>
    obtain ⟨⟨hc, hlower⟩, hrest⟩ := forall_mem_cons.mp hsmall
    have := (ih hrest).plain (c := c) (lt_of_le_of_lt (b := 0x7e) hc (by decide))
    rwa [hlower] at this

theorem normalizeHostname_eq_ok_folds {table : LowerTable} {s h : Bytes} :
    normalizeHostname table.toLower s = .ok h ↔ Folds (trimSpace s) h ∧ IsHostname h := by
  rw [normalizeHostname_eq_ok]
  refine and_congr_left fun hname => ⟨?_, Folds.toLower⟩
  rintro rfl
  exact folds_of_ascii _ fun c hc => lt_of_le_of_lt (b := 0x7e) (hname.char c hc).2.1 (by decide)

/-- What is accepted, and what it becomes. -/
theorem hostname_accepted_iff (table : LowerTable) (s h : Bytes) :
    (normalizeHostname table.toLower s = .ok h ↔ Folds (trimSpace s) h ∧ IsHostname h) ∧
      (normalizeHostname table.toLower s = .ok h → normalizeHostname table.toLower h = .ok h) := by
  refine ⟨normalizeHostname_eq_ok_folds, ?_⟩
  rw [normalizeHostname_eq_ok, normalizeHostname_eq_ok]
  rintro ⟨-, hname⟩
  have hvisible : Visible h := fun c hc => ⟨(hname.char c hc).1, (hname.char c hc).2.1⟩
  rw [trimSpace_eq_self_iff.mpr hvisible.trimmed]
  exact ⟨(folds_self fun c hc => (hname.char c hc).2).toLower, hname⟩

theorem toLower_of_large {c : Char} (hc : 128 ≤ c.toNat) : c.toLower = c :=
  dif_neg fun h => absurd (show c.toNat ≤ 90 from h.2) (by omega)

def smallTable : LowerTable where
  lower c := if c = Ingress.dottedI then 'i' else if c = Ingress.kelvin then 'k' else c.toLower
  ascii c hc := by
    rw [if_neg (by rintro rfl; exact absurd hc (by decide)),
      if_neg (by rintro rfl; exact absurd hc (by decide))]
  dottedI := if_pos rfl
  kelvin := rfl
  others c hc hi hk := by
    rw [if_neg hi, if_neg hk, toLower_of_large hc]
    exact hc

/-- The Kelvin sign is read as `k`. -/
theorem kelvin_sign_accepted :
    normalizeHostname smallTable.toLower [0xe2, 0x84, 0xaa] = .ok [0x6b] :=
  normalizeHostname_eq_ok.mpr ⟨Folds.nil.kelvin.toLower, by decide, by decide +kernel,
    by decide +kernel, by decide +kernel⟩

end AwgMesh.Ingress
