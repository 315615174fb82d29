import Mathlib.Data.List.Basic
import Mathlib.Data.Nat.Digits.Defs
import Mathlib.Tactic.IntervalCases

/-! # IP addresses as Go's `net` and `net/netip` read them -/

namespace AwgMesh.Net

open List

inductive Addr where
  | v4 (bits : BitVec 32)
  | v6 (bits : BitVec 128) (zone : String)
  deriving DecidableEq

/-! ## Dotted quads -/

/-- The loop of `parseIPv4Fields`. -/
def parseIPv4Fields : List Char → (val digLen : Nat) → (fields : List Nat) → Option (List Nat)
  | [], val, _, fields => if fields.length < 3 then none else some (fields ++ [val])
  | c :: rest, val, digLen, fields =>
    if '0' ≤ c ∧ c ≤ '9' then
      if digLen = 1 ∧ val = 0 then none
      else if val * 10 + (c.toNat - 48) > 255 then none
      else parseIPv4Fields rest (val * 10 + (c.toNat - 48)) (digLen + 1) fields
    else if c = '.' then
      if digLen = 0 ∨ rest = [] then none
      else if fields.length = 3 then none
      else parseIPv4Fields rest 0 0 (fields ++ [val])
    else none

def parseIPv4 (cs : List Char) : Option Addr :=
  match parseIPv4Fields cs 0 0 [] with
  | some [a, b, c, d] => some (.v4 (BitVec.ofNat 32 (((a * 256 + b) * 256 + c) * 256 + d)))
  | _ => none

/-! ## IPv6 -/

def hexDigit (c : Char) : Option Nat :=
  if '0' ≤ c ∧ c ≤ '9' then some (c.toNat - 48)
  else if 'a' ≤ c ∧ c ≤ 'f' then some (c.toNat - 97 + 10)
  else if 'A' ≤ c ∧ c ≤ 'F' then some (c.toNat - 65 + 10)
  else none

def hexGroup : List Char → (off acc : Nat) → Option (Nat × Nat × List Char)
  | [], off, acc => some (acc, off, [])
  | c :: rest, off, acc =>
    match hexDigit c with
    | none => some (acc, off, c :: rest)
    | some d =>
      if off > 3 then none
      else if acc * 16 + d > 0xffff then none
      else hexGroup rest (off + 1) (acc * 16 + d)

def parseIPv6Groups : (room : Nat) → List Char → (groups : List Nat) → (ellipsis : Option Nat) →
    Option (List Char × List Nat × Option Nat)
  | 0, s, groups, ellipsis => some (s, groups, ellipsis)
  | room + 1, s, groups, ellipsis =>
    match hexGroup s 0 0 with
    | none => none
    | some (acc, off, rest) =>
      if off = 0 then none
      else if rest.head? = some '.' then
        -- a trailing dotted quad takes the place of the last two groups
        if ellipsis = none ∧ groups.length ≠ 6 then none
        else if room = 0 then none
        else match parseIPv4Fields s 0 0 [] with
          | some [a, b, c, d] => some ([], groups ++ [a * 256 + b, c * 256 + d], ellipsis)
          | _ => none
      else match rest with
        | [] => some ([], groups ++ [acc], ellipsis)
        | ':' :: [] => none
        | ':' :: ':' :: s' =>
          if ellipsis.isSome then none
          else if s' = [] then some ([], groups ++ [acc], some (groups.length + 1))
          else parseIPv6Groups room s' (groups ++ [acc]) (some (groups.length + 1))
        | ':' :: s' => parseIPv6Groups room s' (groups ++ [acc]) ellipsis
        | _ => none

def groupBits (groups : List Nat) : BitVec 128 :=
  BitVec.ofNat 128 (groups.foldl (fun acc g => acc * 65536 + g) 0)

def parseIPv6Body (s : List Char) (zone : String) : Option Addr :=
  let (s, ellipsis) := match s with
    | ':' :: ':' :: rest => (rest, some 0)
    | _ => (s, none)
  if s = [] ∧ ellipsis = some 0 then some (.v6 0 zone)
  else match parseIPv6Groups 8 s [] ellipsis with
    | some ([], groups, ellipsis) =>
      match ellipsis with
      | none => if groups.length < 8 then none else some (.v6 (groupBits groups) zone)
      | some pos =>
        if groups.length < 8 then
          let zeros := replicate (8 - groups.length) 0
          some (.v6 (groupBits (groups.take pos ++ zeros ++ groups.drop pos)) zone)
        else none
    | _ => none

def parseIPv6 (cs : List Char) : Option Addr :=
  match cs.dropWhile (· ≠ '%') with
  | [] => parseIPv6Body cs ""
  | _ :: zone =>
    if zone = [] then none
    else parseIPv6Body (cs.takeWhile (· ≠ '%')) (String.ofList zone)

/-! ## The exported functions -/

/-- `netip.ParseAddr`. -/
def parseAddr (s : String) : Option Addr :=
  match s.toList.find? (fun c => c = '.' ∨ c = ':' ∨ c = '%') with
  | some '.' => parseIPv4 s.toList
  | some ':' => parseIPv6 s.toList
  | _ => none

def Addr.as16 : Addr → BitVec 128
  | .v4 bits => BitVec.ofNat 128 (0xffff * 2 ^ 32 + bits.toNat)
  | .v6 bits _ => bits

def parseIP (s : String) : Option (BitVec 128) :=
  match parseAddr s with
  | some (.v4 bits) => some (Addr.v4 bits).as16
  | some (.v6 bits zone) => if zone = "" then some bits else none
  | none => none

def to4 (ip : BitVec 128) : Option (BitVec 32) :=
  if ip.toNat / 2 ^ 32 = 0xffff then some (BitVec.ofNat 32 ip.toNat) else none

def isIPv4 (s : String) : Bool := ((parseIP s).bind to4).isSome

def isDottedQuad (s : String) : Bool :=
  match parseAddr s with
  | some (.v4 _) => true
  | _ => false

/-! ## Spelling -/

/-- A number in base `b` with lower-case digits. -/
def digitString (b n : Nat) : String :=
  if n = 0 then "0"
  else String.ofList ((Nat.digits b n).reverse.map fun d => "0123456789abcdef".toList.getD d '0')

def groups (ip : BitVec 128) : List Nat :=
  (range 8).map fun i => ip.toNat / 65536 ^ (7 - i) % 65536

/-- The run of zero groups that `::` stands for. -/
def zeroRun (groups : List Nat) : Nat × Nat :=
  (range 8).foldl (fun best i =>
    let l := ((groups.drop i).takeWhile (· = 0)).length
    if 2 ≤ l ∧ best.2 < l then (i, l) else best) (8, 0)

/-- `IP.String` on the 16-byte form. -/
def ipString (ip : BitVec 128) : String :=
  match to4 ip with
  | some v4 =>
    ".".intercalate ([24, 16, 8, 0].map fun s => digitString 10 (v4.toNat / 2 ^ s % 256))
  | none =>
    let gs := groups ip
    let (start, len) := zeroRun gs
    let spell (gs : List Nat) := ":".intercalate (gs.map (digitString 16))
    if len = 0 then spell gs
    else spell (gs.take start) ++ "::" ++ spell (gs.drop (start + len))

/-! ## Dotted quads are IPv4 -/

theorem to4_as16 (bits : BitVec 32) : to4 (Addr.v4 bits).as16 = some bits := by
  have hlt : bits.toNat < 2 ^ 32 := bits.isLt
  have hval : (Addr.v4 bits).as16.toNat = 0xffff * 2 ^ 32 + bits.toNat := by
    simp only [Addr.as16, BitVec.toNat_ofNat]
    exact Nat.mod_eq_of_lt (by omega)
  unfold to4
  rw [hval, if_pos (by omega)]
  congr 1
  apply BitVec.eq_of_toNat_eq
  rw [BitVec.toNat_ofNat]
  omega

theorem isIPv4_of_isDottedQuad {s : String} (h : isDottedQuad s = true) : isIPv4 s = true := by
  unfold isDottedQuad at h
  split at h
  · next bits hs =>
      unfold isIPv4 parseIP
      rw [hs]
      simp only [Option.bind_some, to4_as16, Option.isSome_some]
  · cases h

/-! ## Host and port -/

inductive HostPortError where
  | missingPort
  | tooManyColons
  | missingBracket
  | unexpectedOpen
  | unexpectedClose
  deriving DecidableEq

/-- The last checks of `SplitHostPort`. -/
def splitBrackets (opens closes host port : List Char) :
    Except HostPortError (List Char × List Char) :=
  if '[' ∈ opens then .error .unexpectedOpen
  else if ']' ∈ closes then .error .unexpectedClose
  else .ok (host, port)

def splitHostPort (s : List Char) : Except HostPortError (List Char × List Char) :=
  match s.reverse.dropWhile (· ≠ ':') with
  | [] => .error .missingPort
  | _ :: before =>
    let port := (s.reverse.takeWhile (· ≠ ':')).reverse
    match s with
    | '[' :: rest =>
      match rest.dropWhile (· ≠ ']') with
      | [] => .error .missingBracket
      | _ :: after =>
        if after = [] then .error .missingPort
        -- the bracket closes right before the last colon
        else if after = ':' :: port then
          splitBrackets rest after (rest.takeWhile (· ≠ ']')) port
        else if after.head? = some ':' then .error .tooManyColons
        else .error .missingPort
    | _ =>
      if ':' ∈ before then .error .tooManyColons
      else splitBrackets s s before.reverse port

/-! ## Decimal numerals -/

def digitChar (d : Nat) : Char := "0123456789abcdef".toList.getD d '0'

def numeral (n : Nat) : List Char := (digitString 10 n).toList

theorem numeral_of_lt {d : Nat} (h : d < 10) : numeral d = [digitChar d] := by
  interval_cases d <;> decide

theorem numeral_append {n d : Nat} (hn : n ≠ 0) (hd : d < 10) :
    numeral (n * 10 + d) = numeral n ++ [digitChar d] := by
  have hne : n * 10 + d ≠ 0 := by omega
  have hdigits : Nat.digits 10 (n * 10 + d) = d :: Nat.digits 10 n := by
    rw [Nat.digits_def' (by omega) (by omega)]
    congr 1
    · omega
    · congr 1
      omega
  unfold numeral digitString
  rw [if_neg hne, if_neg hn, hdigits, String.toList_ofList, String.toList_ofList]
  simp [digitChar]

variable {c : Char}

theorem digitChar_of_char (h : '0' ≤ c ∧ c ≤ '9') :
    c.toNat - 48 < 10 ∧ digitChar (c.toNat - 48) = c := by
  have hlo : 48 ≤ c.toNat := h.1
  have hhi : c.toNat ≤ 57 := h.2
  refine ⟨by omega, ?_⟩
  rw [← Char.ofNat_toNat c]
  generalize c.toNat = n at hlo hhi
  interval_cases n <;> decide

/-! ## The parser's loop -/

def OctetRead (pre : List Char) (val digLen : Nat) : Prop :=
  (pre = [] ∧ val = 0 ∧ digLen = 0) ∨ (pre = numeral val ∧ digLen = pre.length)

def dotted (octets : List Nat) : List Char := ['.'].intercalate (octets.map numeral)

variable {pre : List Char} {val digLen : Nat}

theorem OctetRead.digit
    (h : OctetRead pre val digLen) (hc : '0' ≤ c ∧ c ≤ '9') (hzero : ¬ (digLen = 1 ∧ val = 0)) :
    OctetRead (pre ++ [c]) (val * 10 + (c.toNat - 48)) (digLen + 1) := by
  obtain ⟨hlt, hchar⟩ := digitChar_of_char hc
  right
  rcases h with ⟨rfl, rfl, rfl⟩ | ⟨rfl, rfl⟩
  · rw [Nat.zero_mul, Nat.zero_add, numeral_of_lt hlt, hchar]
    exact ⟨rfl, rfl⟩
  · have hval : val ≠ 0 := by
      rintro rfl
      exact hzero ⟨by decide, rfl⟩
    rw [numeral_append hval hlt, hchar, length_append, length_singleton]
    exact ⟨rfl, rfl⟩

variable {cs : List Char}

theorem parseIPv4Fields_spells {fields out : List Nat}
    (h : parseIPv4Fields cs val digLen fields = some out) (hpre : OctetRead pre val digLen)
    (hval : val ≤ 255) (hend : digLen = 0 → cs ≠ [] ∨ fields.length < 3) :
    ∃ octets, out = fields ++ octets ∧ octets ≠ [] ∧ (∀ o ∈ octets, o ≤ 255) ∧
      pre ++ cs = dotted octets := by
  induction cs generalizing pre val digLen fields with
  | nil =>
    rw [parseIPv4Fields] at h
    split at h
    · cases h
    next hlen =>
    cases h
    -- the octet is not empty, or the input would have ended in a dot
    rcases hpre with ⟨-, -, hdig⟩ | ⟨rfl, -⟩
    · rcases hend hdig with hne | hlt
      · exact absurd rfl hne
      · exact absurd hlt hlen
    · refine ⟨[val], rfl, by simp, by simpa using hval, ?_⟩
      simp [dotted]
  | cons c rest ih =>
    rw [parseIPv4Fields] at h
    split at h
    · next hc =>
        split at h
        · cases h
        next hzero =>
        split at h
        · cases h
        next hbig =>
        have hnext := hpre.digit hc hzero
        obtain ⟨octets, hout, hne, hle, heq⟩ := ih h hnext (by omega) (by omega)
        refine ⟨octets, hout, hne, hle, ?_⟩
        rw [← heq, append_assoc, singleton_append]
    · split at h
      · next hdot =>
          split at h
          · cases h
          next hmore =>
          split at h
          · cases h
          push Not at hmore
          have hnew : OctetRead [] 0 0 := .inl ⟨rfl, rfl, rfl⟩
          obtain ⟨octets, hout, hne, hle, heq⟩ := ih h hnew (by omega) (fun _ => .inl hmore.2)
          rcases hpre with ⟨-, -, hdig⟩ | ⟨rfl, -⟩
          · exact absurd hdig hmore.1
          refine ⟨val :: octets, by rw [hout, append_assoc]; rfl, by simp, ?_, ?_⟩
          · intro o ho
            rcases mem_cons.mp ho with rfl | ho
            · exact hval
            · exact hle o ho
          · obtain ⟨o, os, rfl⟩ := exists_cons_of_ne_nil hne
            rw [hdot, show rest = dotted (o :: os) from heq]
            simp [dotted, intercalate_cons_cons]
      · cases h

/-! ## The round trip -/

variable {bits : BitVec 32}

theorem parseIPv6_ne_v4 : parseIPv6 cs ≠ some (.v4 bits) := by
  have hbody : ∀ (cs : List Char) (zone : String), parseIPv6Body cs zone ≠ some (.v4 bits) := by
    intro cs zone h
    unfold parseIPv6Body at h
    dsimp only at h
    repeat' split at h
    all_goals cases h
  unfold parseIPv6
  split
  · exact hbody _ _
  · split
    · intro h; cases h
    · exact hbody _ _

variable {s : String}

theorem parseAddr_v4 (h : parseAddr s = some (.v4 bits)) :
    ∃ a b c d : Nat, a ≤ 255 ∧ b ≤ 255 ∧ c ≤ 255 ∧ d ≤ 255 ∧ s.toList = dotted [a, b, c, d] ∧
      bits.toNat = ((a * 256 + b) * 256 + c) * 256 + d := by
  have hv4 : parseIPv4 s.toList = some (.v4 bits) := by
    unfold parseAddr at h
    split at h
    · exact h
    · exact absurd h parseIPv6_ne_v4
    · cases h
  unfold parseIPv4 at hv4
  split at hv4
  · next a b c d hfields =>
      cases hv4
      obtain ⟨octets, hout, -, hle, heq⟩ := parseIPv4Fields_spells hfields
        (.inl ⟨rfl, rfl, rfl⟩) (by omega) (fun _ => .inr (by simp))
      rw [nil_append] at hout heq
      subst hout
      have ha := hle a (by simp)
      have hb := hle b (by simp)
      have hc := hle c (by simp)
      have hd := hle d (by simp)
      refine ⟨a, b, c, d, ha, hb, hc, hd, heq, ?_⟩
      rw [BitVec.toNat_ofNat]
      exact Nat.mod_eq_of_lt (by omega)
  · cases hv4

theorem isDottedQuad_iff : isDottedQuad s = true ↔ ∃ bits, parseAddr s = some (.v4 bits) := by
  unfold isDottedQuad
  split
  · next bits h => exact iff_of_true rfl ⟨bits, h⟩
  · next h =>
      refine iff_of_false (by simp) ?_
      rintro ⟨bits, hbits⟩
      exact h bits hbits

theorem ipString_of_parseAddr
    (h : parseAddr s = some (.v4 bits)) : ipString (Addr.v4 bits).as16 = s := by
  obtain ⟨a, b, c, d, ha, hb, hc, hd, hs, hbits⟩ := parseAddr_v4 h
  have hoctets : ([24, 16, 8, 0].map fun k => bits.toNat / 2 ^ k % 256) = [a, b, c, d] := by
    simp only [map_cons, map_nil, hbits, cons.injEq]
    refine ⟨?_, ?_, ?_, ?_, trivial⟩ <;> omega
  apply String.toList_injective
  rw [hs, ← hoctets]
  unfold ipString
  rw [to4_as16]
  simp only [String.toList_intercalate, dotted, map_map]
  rfl

/-! ## Addresses and their spellings -/

def address (s : String) : Option (BitVec 32) := (parseIP s).bind to4

theorem isIPv4_iff : isIPv4 s = true ↔ ∃ bits, address s = some bits :=
  Option.isSome_iff_exists

theorem address_of_parseAddr (h : parseAddr s = some (.v4 bits)) : address s = some bits := by
  unfold address parseIP
  rw [h]
  exact to4_as16 bits

theorem eq_of_address_eq {s t : String} (hs : isDottedQuad s = true) (ht : isDottedQuad t = true)
    (h : address s = address t) : s = t := by
  obtain ⟨a, ha⟩ := isDottedQuad_iff.mp hs
  obtain ⟨b, hb⟩ := isDottedQuad_iff.mp ht
  rw [address_of_parseAddr ha, address_of_parseAddr hb] at h
  cases h
  rw [← ipString_of_parseAddr ha, ← ipString_of_parseAddr hb]

def isMapped (s : String) : Bool := isIPv4 s && !isDottedQuad s

theorem isDottedQuad_of_not_isMapped (h : isMapped s = false)
    (hs : isIPv4 s = true) : isDottedQuad s = true := by
  simpa [isMapped, hs] using h

end AwgMesh.Net
