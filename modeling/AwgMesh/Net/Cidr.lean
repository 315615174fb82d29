import AwgMesh.Text
import Mathlib.Data.Fin.Basic
import AwgMesh.Strconv

/-! # Networks as Go's `net` reads them -/

namespace AwgMesh.Net

open BitVec List

inductive IP where
  | four (bits : BitVec 32)
  | sixteen (bits : BitVec 128)
  deriving DecidableEq

/-- `net.IPMask` as `net.CIDRMask` makes it. -/
inductive IPMask where
  | four (ones : Fin 33)
  | sixteen (ones : Fin 129)
  deriving DecidableEq

structure IPNet where
  ip : IP
  mask : IPMask
  deriving DecidableEq

def IP.to4 : IP → Option (BitVec 32)
  | .four bits => some bits
  | .sixteen bits => Net.to4 bits

def IP.to16 : IP → BitVec 128
  | .four bits => (Addr.v4 bits).as16
  | .sixteen bits => bits

def maskBits (w ones : Nat) : BitVec w := allOnes w <<< (w - ones)

def IP.applyMask : IP → IPMask → Option IP
  | .four bits, .four ones => some (.four (bits &&& maskBits 32 ones))
  | .four bits, .sixteen ones =>
    if 96 ≤ ones.val then some (.four (bits &&& maskBits 32 (ones - 96))) else none
  | .sixteen bits, .four ones => (Net.to4 bits).map fun v4 => .four (v4 &&& maskBits 32 ones)
  | .sixteen bits, .sixteen ones => some (.sixteen (bits &&& maskBits 128 ones))

def IPNet.numberAndMask (n : IPNet) : Option (IP × Nat) :=
  match n.ip.to4, n.mask with
  | some v4, .four ones => some (.four v4, ones)
  | some v4, .sixteen ones => some (.four v4, ones - 96)
  | none, .four _ => none
  | none, .sixteen ones => some (.sixteen n.ip.to16, ones)

def IPNet.contains (n : IPNet) (ip : IP) : Bool :=
  match n.numberAndMask, ip.to4 with
  | some (.four nn, ones), some x => nn &&& maskBits 32 ones == x &&& maskBits 32 ones
  | some (.sixteen nn, ones), none => nn &&& maskBits 128 ones == ip.to16 &&& maskBits 128 ones
  | _, _ => false

def IPNet.string (n : IPNet) : String :=
  match n.numberAndMask with
  | none => "<nil>"
  | some (nn, ones) => ipString nn.to16 ++ "/" ++ digitString 10 ones

/-! ## Parsing -/

def dtoiLoop : List Char → (n : Nat) → Option (Nat × List Char)
  | [], n => some (n, [])
  | c :: rest, n =>
    if '0' ≤ c ∧ c ≤ '9' then
      if n * 10 + (c.toNat - 48) ≥ 0xffffff then none
      else dtoiLoop rest (n * 10 + (c.toNat - 48))
    else some (n, c :: rest)

def dtoi (cs : List Char) : Option (Nat × List Char) :=
  match dtoiLoop cs 0 with
  | none => none
  | some (n, rest) => if rest.length = cs.length then none else some (n, rest)

def cidrNet : Addr → (n : Nat) → Option IPNet
  | .v4 bits, n =>
    if h : n < 33 then
      ((IP.sixteen (Addr.v4 bits).as16).applyMask (.four ⟨n, h⟩)).map fun ip =>
        { ip := ip, mask := .four ⟨n, h⟩ }
    else none
  | .v6 bits zone, n =>
    if zone ≠ "" then none
    else if h : n < 129 then
      ((IP.sixteen bits).applyMask (.sixteen ⟨n, h⟩)).map fun ip =>
        { ip := ip, mask := .sixteen ⟨n, h⟩ }
    else none

def parseCIDR (s : String) : Option IPNet :=
  match s.toList.dropWhile (· ≠ '/') with
  | [] => none
  | _ :: mask =>
    match parseAddr (String.ofList (s.toList.takeWhile (· ≠ '/'))), dtoi mask with
    | some addr, some (n, []) => cidrNet addr n
    | _, _ => none

/-! ## The characters of an address -/

def isAddrChar (c : Char) : Bool := c = '.' || c = ':' || (hexDigit c).isSome

variable {c : Char}

theorem isAddrChar_of_digit (h : '0' ≤ c ∧ c ≤ '9') : isAddrChar c = true := by
  simp [isAddrChar, hexDigit, h]

variable {cs : List Char}

theorem parseIPv4Fields_chars {val digLen : Nat} {fields out : List Nat}
    (h : parseIPv4Fields cs val digLen fields = some out) : ∀ c ∈ cs, isAddrChar c = true := by
  induction cs generalizing val digLen fields with
  | nil => simp
  | cons c rest ih =>
    rw [parseIPv4Fields] at h
    rw [forall_mem_cons]
    split at h
    · next hc =>
        split at h
        · cases h
        split at h
        · cases h
        exact ⟨isAddrChar_of_digit hc, ih h⟩
    · split at h
      · next hdot =>
          split at h
          · cases h
          split at h
          · cases h
          exact ⟨by rw [hdot]; decide, ih h⟩
      · cases h

theorem hexGroup_chars {cs rest : List Char} {off acc off' acc' : Nat}
    (h : hexGroup cs off acc = some (acc', off', rest)) :
    ∃ digits, cs = digits ++ rest ∧ ∀ c ∈ digits, isAddrChar c = true := by
  induction cs generalizing off acc with
  | nil =>
    cases h
    exact ⟨[], rfl, by simp⟩
  | cons c cs ih =>
    rw [hexGroup] at h
    split at h
    · cases h
      exact ⟨[], rfl, by simp⟩
    · next d hd =>
        split at h
        · cases h
        split at h
        · cases h
        obtain ⟨digits, rfl, hall⟩ := ih h
        refine ⟨c :: digits, rfl, ?_⟩
        rw [forall_mem_cons]
        exact ⟨by simp [isAddrChar, hd], hall⟩

theorem parseIPv6Groups_chars {room : Nat} {gs gs' : List Nat} {ell ell' : Option Nat}
    (h : parseIPv6Groups room cs gs ell = some ([], gs', ell')) :
    ∀ c ∈ cs, isAddrChar c = true := by
  induction room generalizing cs gs ell with
  | zero => cases h; simp
  | succ room ih =>
    rw [parseIPv6Groups] at h
    split at h
    · cases h
    next acc off rest hgroup =>
    split at h
    · cases h
    split at h
    · -- an embedded dotted quad is read by the IPv4 loop, from the start of the group
      split at h
      · cases h
      split at h
      · cases h
      split at h
      · next hfields => exact parseIPv4Fields_chars hfields
      · cases h
    · obtain ⟨digits, rfl, hdigits⟩ := hexGroup_chars hgroup
      have hcolon : ∀ {tail : List Char}, (∀ c ∈ tail, isAddrChar c = true) →
          ∀ c ∈ ':' :: tail, isAddrChar c = true := by
        intro tail htail
        rw [forall_mem_cons]
        exact ⟨by decide, htail⟩
      refine forall_mem_append.mpr ⟨hdigits, ?_⟩
      split at h
      · simp
      · cases h
      · next s' =>
          split at h
          · cases h
          apply hcolon
          apply hcolon
          split at h
          · next hnil => simp [hnil]
          · exact ih h
      · exact hcolon (ih h)
      · cases h

theorem parseIPv6Body_eq_some {zone : String} {addr : Addr}
    (h : parseIPv6Body cs zone = some addr) :
    (∀ c ∈ cs, isAddrChar c = true) ∧ ∃ bits, addr = .v6 bits zone := by
  unfold parseIPv6Body at h
  split at h
  next s ell hsplit =>
  have hs : (∀ c ∈ s, isAddrChar c = true) → ∀ c ∈ cs, isAddrChar c = true := by
    intro hs
    split at hsplit
    · cases hsplit
      simp only [forall_mem_cons]
      exact ⟨by decide, by decide, hs⟩
    · cases hsplit
      exact hs
  split at h
  · next hnil =>
      cases h
      exact ⟨hs (by simp [hnil.1]), _, rfl⟩
  split at h
  · next hgroups =>
      refine ⟨hs (parseIPv6Groups_chars hgroups), ?_⟩
      split at h
      · split at h
        · cases h
        · cases h; exact ⟨_, rfl⟩
      · split at h
        · cases h; exact ⟨_, rfl⟩
        · cases h
  · cases h

variable {s : String} {ip : BitVec 128}

theorem parseIP_chars (h : parseIP s = some ip) : ∀ c ∈ s.toList, isAddrChar c = true := by
  have haddr : ∃ addr, parseAddr s = some addr ∧ ∀ bits zone, addr = .v6 bits zone → zone = "" := by
    unfold parseIP at h
    split at h
    · next bits hs => exact ⟨_, hs, by simp⟩
    · next bits zone hs =>
        split at h
        · next hzone => exact ⟨_, hs, by rintro _ _ ⟨⟩; exact hzone⟩
        · cases h
    · cases h
  obtain ⟨addr, hs, hzone⟩ := haddr
  unfold parseAddr at hs
  split at hs
  · unfold parseIPv4 at hs
    split at hs
    · next hfields => exact parseIPv4Fields_chars hfields
    · cases hs
  · unfold parseIPv6 at hs
    split at hs
    · exact (parseIPv6Body_eq_some hs).1
    · next zone hpct =>
        split at hs
        · cases hs
        · next hne =>
            obtain ⟨-, bits, rfl⟩ := parseIPv6Body_eq_some hs
            have hnil := congrArg String.toList (hzone bits _ rfl)
            rw [String.toList_ofList] at hnil
            exact absurd hnil hne
  · cases hs

theorem not_isSpace_of_isAddrChar (h : isAddrChar c = true) : isSpace c = false := by
  have hrange : c.toNat = 46 ∨ c.toNat = 58 ∨ (48 ≤ c.toNat ∧ c.toNat ≤ 57) ∨
      (97 ≤ c.toNat ∧ c.toNat ≤ 102) ∨ (65 ≤ c.toNat ∧ c.toNat ≤ 70) := by
    simp only [isAddrChar, hexDigit, Bool.or_eq_true, decide_eq_true_eq] at h
    rcases h with (rfl | rfl) | h
    · exact .inl rfl
    · exact .inr (.inl rfl)
    · split at h
      · next hc => exact .inr (.inr (.inl hc))
      split at h
      · next hc => exact .inr (.inr (.inr (.inl hc)))
      split at h
      · next hc => exact .inr (.inr (.inr (.inr hc)))
      · cases h
  simp only [isSpace, Bool.or_eq_false_iff, Bool.and_eq_false_iff, decide_eq_false_iff_not]
  omega

theorem ne_slash_of_isAddrChar (h : isAddrChar c = true) : c ≠ '/' := by
  rintro rfl
  revert h
  decide

theorem parseCIDR_append (h : parseIP s = some ip) :
    parseCIDR (s ++ "/32") = (parseAddr s).bind fun addr => cidrNet addr 32 := by
  have hchars : ∀ c ∈ s.toList, (decide (c ≠ '/')) = true := by
    intro c hc
    simpa using ne_slash_of_isAddrChar (parseIP_chars h c hc)
  unfold parseCIDR
  rw [String.toList_append, dropWhile_append_of_pos hchars,
    takeWhile_append_of_pos hchars]
  have hdrop : ("/32".toList).dropWhile (fun c => decide (c ≠ '/')) = ['/', '3', '2'] := by decide
  have htake : ("/32".toList).takeWhile (fun c => decide (c ≠ '/')) = [] := by decide
  have hmask : dtoi ['3', '2'] = some (32, []) := by decide
  rw [hdrop, htake, append_nil, String.ofList_toList]
  dsimp only
  rw [hmask]
  cases parseAddr s <;> rfl

/-! ## Single hosts -/

/-- The network has one address, `a`. -/
def IPNet.IsHost (n : IPNet) (a : BitVec 32) : Prop :=
  ∀ ip, n.contains ip = true ↔ ip.to4 = some a

def hostNet (a : BitVec 32) : IPNet := { ip := .four a, mask := .four 32 }

theorem and_maskBits_full {w : Nat} (b : BitVec w) : b &&& maskBits w w = b := by
  simp [maskBits]

theorem getLsbD_maskBits_of_lt {w ones i : Nat} (h : i < w - ones) :
    (maskBits w ones).getLsbD i = false := by
  unfold maskBits
  rw [getLsbD_shiftLeft]
  simp [h]

theorem isHost_hostNet (a : BitVec 32) : (hostNet a).IsHost a := by
  intro ip
  have hnumber : (hostNet a).numberAndMask = some (.four a, 32) := rfl
  unfold IPNet.contains
  rw [hnumber]
  cases ip.to4 with
  | none => simp
  | some x =>
    show (a &&& maskBits 32 32 == x &&& maskBits 32 32) = true ↔ some x = some a
    rw [and_maskBits_full, and_maskBits_full, beq_iff_eq, Option.some.injEq, eq_comm]

theorem parseCIDR_dotted {bits : BitVec 32} (h : parseAddr s = some (.v4 bits)) :
    parseCIDR (s ++ "/32") = some (hostNet bits) := by
  have hip : parseIP s = some (Addr.v4 bits).as16 := by
    unfold parseIP
    rw [h]
  rw [parseCIDR_append hip, h]
  show ((IP.sixteen (Addr.v4 bits).as16).applyMask (.four 32)).map
    (fun ip => ({ ip := ip, mask := .four 32 } : IPNet)) = some (hostNet bits)
  unfold IP.applyMask
  dsimp only
  rw [to4_as16]
  show some ({ ip := .four (bits &&& maskBits 32 32), mask := .four 32 } : IPNet) = _
  rw [and_maskBits_full]
  rfl

theorem parseAddr_of_isMapped (h : isMapped s = true) :
    ∃ bits, parseAddr s = some (.v6 bits "") ∧ parseIP s = some bits ∧ bits.toNat < 2 ^ 48 := by
  obtain ⟨hip, hdot⟩ : isIPv4 s = true ∧ isDottedQuad s = false := by simpa [isMapped] using h
  obtain ⟨a, ha⟩ := isIPv4_iff.mp hip
  obtain ⟨bits, hbits, hto4⟩ := Option.bind_eq_some_iff.mp ha
  have hlt : bits.toNat < 2 ^ 48 := by
    unfold Net.to4 at hto4
    split at hto4
    · omega
    · cases hto4
  refine ⟨bits, ?_, hbits, hlt⟩
  unfold isDottedQuad at hdot
  unfold parseIP at hbits
  split at hbits
  · next hv4 => rw [hv4] at hdot; cases hdot
  · next hv6 =>
      split at hbits
      · next hzone => cases hbits; rw [hv6, hzone]
      · cases hbits
  · cases hbits

theorem parseCIDR_mapped (h : isMapped s = true) :
    parseCIDR (s ++ "/32") = some { ip := .sixteen 0, mask := .sixteen 32 } := by
  obtain ⟨bits, haddr, hip, hlt⟩ := parseAddr_of_isMapped h
  have hzero : bits &&& maskBits 128 32 = 0 := by
    apply eq_of_getLsbD_eq
    intro i hi
    rw [ofNat_eq_ofNat, getLsbD_zero, getLsbD_and, Bool.and_eq_false_iff]
    by_cases h96 : i < 128 - 32
    · exact .inr (getLsbD_maskBits_of_lt h96)
    · left
      apply Nat.testBit_lt_two_pow
      calc bits.toNat < 2 ^ 48 := hlt
        _ ≤ 2 ^ i := Nat.pow_le_pow_right (by omega) (by omega)
  rw [parseCIDR_append hip, haddr]
  show some ({ ip := .sixteen (bits &&& maskBits 128 32), mask := .sixteen 32 } : IPNet) = _
  rw [hzero]

theorem not_isHost_mapped (a : BitVec 32) :
    ¬ IPNet.IsHost { ip := .sixteen 0, mask := .sixteen 32 } a := by
  intro h
  have hin := (h (.sixteen 0)).mp (by decide)
  have hnone : (IP.sixteen 0).to4 = none := by decide
  rw [hnone] at hin
  cases hin

/-! ## Prefixes as Go's `net/netip` reads them -/

/-- `netip.Prefix`: an address without a zone. -/
inductive Prefix where
  | v4 (bits : BitVec 32) (ones : Fin 33)
  | v6 (bits : BitVec 128) (ones : Fin 129)
  deriving DecidableEq

def Addr.is4 : Addr → Bool
  | .v4 _ => true
  | .v6 .. => false

def Addr.is4In6 : Addr → Bool
  | .v4 _ => false
  | .v6 bits _ => (to4 bits).isSome

def Addr.unmap : Addr → Addr
  | .v4 bits => .v4 bits
  | .v6 bits zone =>
    match to4 bits with
    | some mapped => .v4 mapped
    | none => .v6 bits zone

variable {a : Addr}

theorem Addr.is4_of_is4In6 (h : a.is4In6 = true) : a.is4 = false := by
  cases a with
  | v4 bits => cases h
  | v6 bits zone => rfl

theorem Addr.is4_unmap (h : a.is4In6 = true) : a.unmap.is4 = true := by
  cases a with
  | v4 bits => rfl
  | v6 bits zone =>
    obtain ⟨mapped, hmapped⟩ := Option.isSome_iff_exists.mp h
    simp [Addr.unmap, hmapped, Addr.is4]

namespace Prefix

def addr : Prefix → Addr
  | .v4 bits _ => .v4 bits
  | .v6 bits _ => .v6 bits ""

def masked : Prefix → Prefix
  | .v4 bits ones => .v4 (bits &&& maskBits 32 ones) ones
  | .v6 bits ones => .v6 (bits &&& maskBits 128 ones) ones

/-- `Prefix.Contains`. -/
def contains : Prefix → Addr → Bool
  | .v4 bits ones, .v4 x => x &&& maskBits 32 ones == bits &&& maskBits 32 ones
  | .v6 bits ones, .v6 x zone =>
    zone == "" && (x &&& maskBits 128 ones == bits &&& maskBits 128 ones)
  | _, _ => false

def lastAddr : Prefix → Addr
  | .v4 bits ones => .v4 (bits &&& maskBits 32 ones ||| ~~~ maskBits 32 ones)
  | .v6 bits ones => .v6 (bits &&& maskBits 128 ones ||| ~~~ maskBits 128 ones) ""

/-- `Prefix.String`. -/
def string : Prefix → String
  | .v4 bits ones => ipString (Addr.v4 bits).as16 ++ "/" ++ itoa ones
  | .v6 bits ones =>
    (if (to4 bits).isSome then "::ffff:" ++ ipString bits else ipString bits) ++ "/" ++ itoa ones

end Prefix

def parseBits (cs : List Char) (max : Nat) : Option (Fin (max + 1)) :=
  if cs.length > 1 ∧ ¬ cs.head?.any fun c => '1' ≤ c ∧ c ≤ '9' then none
  else (atoi cs).bind fun n => if h : 0 ≤ n ∧ n ≤ max then some ⟨n.toNat, by omega⟩ else none

/-- `netip.ParsePrefix`: the last slash divides. -/
def parsePrefix (s : String) : Option Prefix :=
  match s.toList.reverse.dropWhile (· ≠ '/') with
  | [] => none
  | _ :: before =>
    let after := (s.toList.reverse.takeWhile (· ≠ '/')).reverse
    match parseAddr (String.ofList before.reverse) with
    | none => none
    | some (.v4 bits) => (parseBits after 32).map (.v4 bits)
    | some (.v6 bits zone) =>
      if zone ≠ "" then none else (parseBits after 128).map (.v6 bits)

/-! ## Containment -/

namespace Prefix

@[simp] theorem contains_masked (p : Prefix) (a : Addr) : p.masked.contains a = p.contains a := by
  cases p <;> cases a <;> simp [masked, contains, BitVec.and_assoc]

@[simp] theorem masked_masked (p : Prefix) : p.masked.masked = p.masked := by
  cases p <;> simp [masked, BitVec.and_assoc]

def is4 : Prefix → Bool
  | .v4 .. => true
  | .v6 .. => false

theorem is4_of_contains {p : Prefix} (h : p.contains a = true) : p.is4 = a.is4 := by
  cases p <;> cases a <;> first | rfl | cases h

end Prefix

/-! ## Walking along addresses -/

def Addr.next : Addr → Option Addr
  | .v4 bits => if bits + 1 = 0 then none else some (.v4 (bits + 1))
  | .v6 bits zone => if bits + 1 = 0 then none else some (.v6 (bits + 1) zone)

def Addr.less : Addr → Addr → Bool
  | .v4 a, .v4 b => a < b
  | .v4 _, .v6 .. => true
  | .v6 .., .v4 _ => false
  | .v6 a zoneA, .v6 b zoneB => a < b || (a = b && zoneA < zoneB)

def Addr.toNat : Addr → Nat
  | .v4 bits => bits.toNat
  | .v6 bits _ => bits.toNat

def width (is4 : Bool) : Nat := if is4 then 32 else 128

def Addr.ofNat (is4 : Bool) (n : Nat) : Addr :=
  if is4 then .v4 (BitVec.ofNat 32 n) else .v6 (BitVec.ofNat 128 n) ""

def Addr.zone : Addr → String
  | .v4 _ => ""
  | .v6 _ zone => zone

theorem Addr.ofNat_toNat (h : a.zone = "") : Addr.ofNat a.is4 a.toNat = a := by
  cases a with
  | v4 bits => exact congrArg Addr.v4 ((BitVec.ofNat_toNat 32 bits).trans bits.setWidth_eq)
  | v6 bits zone =>
    subst h
    exact congrArg (Addr.v6 · "") ((BitVec.ofNat_toNat 128 bits).trans bits.setWidth_eq)

section Numbers

variable {is4 : Bool} {m n : Nat}

theorem Addr.toNat_ofNat (h : n < 2 ^ width is4) : (Addr.ofNat is4 n).toNat = n := by
  cases is4 <;> exact Nat.mod_eq_of_lt h

theorem Addr.next_ofNat (h : n + 1 < 2 ^ width is4) :
    (Addr.ofNat is4 n).next = some (Addr.ofNat is4 (n + 1)) := by
  have hne : ∀ {w : Nat}, n + 1 < 2 ^ w → BitVec.ofNat w n + 1 = BitVec.ofNat w (n + 1) ∧
      BitVec.ofNat w (n + 1) ≠ 0 := by
    intro w hw
    have hadd : BitVec.ofNat w n + 1 = BitVec.ofNat w (n + 1) := (BitVec.ofNat_add n 1).symm
    refine ⟨hadd, fun hzero => ?_⟩
    have htoNat := congrArg BitVec.toNat hzero
    rw [BitVec.toNat_ofNat, Nat.mod_eq_of_lt hw] at htoNat
    simp at htoNat
  cases is4 with
  | true =>
    obtain ⟨hadd, hzero⟩ := hne (w := 32) h
    show (if BitVec.ofNat 32 n + 1 = 0 then none else some (Addr.v4 (BitVec.ofNat 32 n + 1))) = _
    rw [hadd, if_neg hzero]
    rfl
  | false =>
    obtain ⟨hadd, hzero⟩ := hne (w := 128) h
    show (if BitVec.ofNat 128 n + 1 = 0 then none
      else some (Addr.v6 (BitVec.ofNat 128 n + 1) "")) = _
    rw [hadd, if_neg hzero]
    rfl

theorem Addr.next_ofNat_last (h : n + 1 = 2 ^ width is4) : (Addr.ofNat is4 n).next = none := by
  have hzero : ∀ {w : Nat}, n + 1 = 2 ^ w → BitVec.ofNat w n + 1 = 0 := by
    intro w hw
    rw [show BitVec.ofNat w n + 1 = BitVec.ofNat w (n + 1) from (BitVec.ofNat_add n 1).symm, hw]
    apply BitVec.eq_of_toNat_eq
    rw [BitVec.toNat_ofNat, Nat.mod_self]
    rfl
  cases is4 with
  | true => exact if_pos (hzero (w := 32) h)
  | false => exact if_pos (hzero (w := 128) h)

theorem Addr.is4_ofNat : (Addr.ofNat is4 n).is4 = is4 := by
  cases is4 <;> rfl

theorem Addr.zone_ofNat : (Addr.ofNat is4 n).zone = "" := by
  cases is4 <;> rfl

theorem Addr.less_ofNat (hm : m < 2 ^ width is4) (hn : n < 2 ^ width is4) :
    (Addr.ofNat is4 m).less (Addr.ofNat is4 n) = true ↔ m < n := by
  have hlt : ∀ {w : Nat}, m < 2 ^ w → n < 2 ^ w →
      (BitVec.ofNat w m < BitVec.ofNat w n ↔ m < n) := by
    intro w hm hn
    rw [BitVec.lt_def, BitVec.toNat_ofNat, BitVec.toNat_ofNat, Nat.mod_eq_of_lt hm,
      Nat.mod_eq_of_lt hn]
  cases is4 with
  | true => exact decide_eq_true_iff.trans (hlt (w := 32) hm hn)
  | false =>
    have hzone : ¬ ("" : String) < "" := by decide
    simp only [Addr.ofNat, Addr.less, Bool.false_eq_true, if_false, hzone, decide_false,
      Bool.and_false, Bool.or_false, decide_eq_true_eq]
    exact hlt (w := 128) hm hn

end Numbers

/-! ## Prefixes as intervals -/

section Masks

variable {w ones : Nat}

theorem and_maskBits_eq_shift (x : BitVec w) :
    x &&& maskBits w ones = x >>> (w - ones) <<< (w - ones) := by
  unfold maskBits
  ext i hi
  simp only [getElem_and, getElem_shiftLeft, getElem_allOnes]
  by_cases h : i < w - ones
  · simp [h]
  · have hle : w - ones ≤ i := by omega
    simp [h, getElem_eq_testBit_toNat, Nat.testBit_shiftRight, Nat.add_sub_cancel' hle]

theorem toNat_and_maskBits (x : BitVec w) :
    (x &&& maskBits w ones).toNat = x.toNat / 2 ^ (w - ones) * 2 ^ (w - ones) := by
  rw [and_maskBits_eq_shift, toNat_shiftLeft, toNat_ushiftRight,
    Nat.shiftRight_eq_div_pow, Nat.shiftLeft_eq]
  exact Nat.mod_eq_of_lt (lt_of_le_of_lt (Nat.div_mul_le_self _ _) x.isLt)

theorem toNat_not_maskBits : (~~~ maskBits w ones).toNat = 2 ^ (w - ones) - 1 := by
  have hmask : (maskBits w ones).toNat = (2 ^ w - 1) / 2 ^ (w - ones) * 2 ^ (w - ones) := by
    rw [← toNat_allOnes, ← toNat_and_maskBits, allOnes_and]
  rw [toNat_not, hmask]
  obtain ⟨k, hk⟩ : ∃ k, 2 ^ w = 2 ^ (w - ones) * (k + 1) := by
    refine ⟨2 ^ (w - (w - ones)) - 1, ?_⟩
    rw [Nat.sub_add_cancel Nat.one_le_two_pow, ← Nat.pow_add, Nat.add_sub_cancel' (Nat.sub_le _ _)]
  have hpos : 0 < 2 ^ (w - ones) := Nat.two_pow_pos _
  generalize 2 ^ (w - ones) = size at hk hpos ⊢
  have hones : 2 ^ w - 1 = size - 1 + size * k := by
    rw [hk, Nat.mul_add, Nat.mul_one]
    omega
  rw [hones, Nat.add_mul_div_left _ _ hpos, Nat.div_eq_of_lt (Nat.sub_lt hpos Nat.one_pos),
    Nat.zero_add, Nat.mul_comm k, Nat.add_sub_cancel]

theorem toNat_last (x : BitVec w) :
    (x &&& maskBits w ones ||| ~~~ maskBits w ones).toNat =
      x.toNat / 2 ^ (w - ones) * 2 ^ (w - ones) + (2 ^ (w - ones) - 1) := by
  rw [toNat_or, toNat_and_maskBits, toNat_not_maskBits, Nat.mul_comm]
  exact (Nat.two_pow_add_eq_or_of_lt (Nat.sub_lt (Nat.two_pow_pos _) Nat.one_pos) _).symm

theorem and_maskBits_eq_iff (x y : BitVec w) :
    x &&& maskBits w ones = y &&& maskBits w ones ↔ (y &&& maskBits w ones).toNat ≤ x.toNat ∧
        x.toNat ≤ (y &&& maskBits w ones ||| ~~~ maskBits w ones).toNat := by
  have hpos : 0 < 2 ^ (w - ones) := Nat.two_pow_pos _
  rw [← toNat_inj, toNat_last, toNat_and_maskBits, toNat_and_maskBits]
  generalize 2 ^ (w - ones) = size at hpos ⊢
  generalize y.toNat / size = k
  rw [Nat.mul_left_inj (Nat.pos_iff_ne_zero.mp hpos), Nat.div_eq_iff hpos, Nat.add_sub_assoc hpos]

end Masks

namespace Prefix

def low (p : Prefix) : Nat := p.masked.addr.toNat

def high (p : Prefix) : Nat := p.masked.lastAddr.toNat

variable (p : Prefix)

theorem high_lt : p.high < 2 ^ width p.is4 := by
  cases p <;> exact isLt _

theorem low_lt : p.low < 2 ^ width p.is4 := by
  cases p <;> exact isLt _

theorem addr_masked : p.masked.addr = Addr.ofNat p.is4 p.low := by
  cases p <;> exact (Addr.ofNat_toNat rfl).symm

theorem lastAddr_masked : p.masked.lastAddr = Addr.ofNat p.is4 p.high := by
  cases p <;> exact (Addr.ofNat_toNat rfl).symm

theorem contains_iff :
    p.contains a = true ↔
      a.zone = "" ∧ a.is4 = p.is4 ∧ p.low ≤ a.toNat ∧ a.toNat ≤ p.high := by
  cases p with
  | v4 bits ones =>
    cases a with
    | v4 x => simp [contains, and_maskBits_eq_iff, low, high, masked, addr, lastAddr, Addr.zone,
        Addr.is4, is4, Addr.toNat, BitVec.and_assoc]
    | v6 x zone => simp [contains, Addr.is4, is4]
  | v6 bits ones =>
    cases a with
    | v4 x => simp [contains, Addr.is4, is4]
    | v6 x zone => simp [contains, and_maskBits_eq_iff, low, high, masked, addr, lastAddr,
        Addr.zone, Addr.is4, is4, Addr.toNat, BitVec.and_assoc]

theorem contains_ofNat {is4 : Bool} {n : Nat} (h : n < 2 ^ width is4) :
    p.contains (Addr.ofNat is4 n) = true ↔ is4 = p.is4 ∧ p.low ≤ n ∧ n ≤ p.high := by
  rw [contains_iff, Addr.zone_ofNat, Addr.is4_ofNat, Addr.toNat_ofNat h]
  exact and_iff_right rfl

theorem contains_first : p.contains p.masked.addr = true := by
  cases p <;> simp [contains, masked, addr, BitVec.and_assoc]

theorem contains_last : p.contains p.masked.lastAddr = true := by
  have hfirst := p.contains_first
  rw [addr_masked, p.contains_ofNat p.low_lt] at hfirst
  rw [lastAddr_masked, p.contains_ofNat p.high_lt]
  exact ⟨rfl, hfirst.2.2, le_rfl⟩

/-- Of two intervals that meet, one has the lower end of the other in it. -/
theorem contains_masked_of_mem {p q : Prefix} (hp : p.contains a = true) (hq : q.contains a = true)
    :
    p.masked.contains q.masked.addr = true ∨ q.masked.contains p.masked.addr = true := by
  obtain ⟨-, his4, hlow, hhigh⟩ := p.contains_iff.mp hp
  obtain ⟨-, his4', hlow', hhigh'⟩ := q.contains_iff.mp hq
  rw [contains_masked, contains_masked, addr_masked, addr_masked, p.contains_ofNat q.low_lt,
    q.contains_ofNat p.low_lt, ← his4, ← his4']
  rcases Nat.le_total p.low q.low with hle | hle
  · exact .inl ⟨rfl, hle, hlow'.trans hhigh⟩
  · exact .inr ⟨rfl, hle, hlow.trans hhigh'⟩

end Prefix

end AwgMesh.Net
