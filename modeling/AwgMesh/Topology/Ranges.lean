import AwgMesh.Lib.Sorting
import AwgMesh.Topology.V1

/-!
# Ranges as sets of addresses

`prefixLastAddr` of `pkg/topology/ranges.go` with its loop over the bytes, and what the comparisons
of ranges say about the addresses in them. A `[16]byte` is the number that it spells.
-/

namespace AwgMesh.TopologyV1

open Lib Net Addr Prefix

def hostMask : (hostBits : Nat) → BitVec 32
  | 32 => ~~~ 0
  | 0 => 0
  | hostBits => 1#32 <<< hostBits - 1

/-- The byte `b` at index `i`. -/
def byteAt (i : Nat) (b : BitVec 8) : BitVec 128 := b.setWidth 128 <<< (8 * (15 - i))

def setByte (addr16 : BitVec 128) (i : Nat) (b : BitVec 8) : BitVec 128 :=
  addr16 &&& ~~~ byteAt i 0xff ||| byteAt i b

/-- `for i := fullBytes; i < len(addr16); i++ { addr16[i] = 0xFF }` -/
def fillBytes (addr16 : BitVec 128) (fullBytes : Nat) : BitVec 128 :=
  (List.range' fullBytes (16 - fullBytes)).foldl (setByte · · 0xff) addr16

def lastBytes (addr16 : BitVec 128) (prefixBits : Nat) : BitVec 128 :=
  let fullBytes := prefixBits / 8
  let remainderBits := prefixBits % 8
  if fullBytes < 16 then
    if remainderBits ≠ 0 then
      fillBytes (addr16 ||| byteAt fullBytes (0xff#8 >>> remainderBits)) (fullBytes + 1)
    else fillBytes addr16 fullBytes
  else addr16

def prefixLastAddr (p : Prefix) : Addr :=
  match p.masked with
  | .v4 base ones => .v4 (base ||| hostMask (32 - ones))
  | .v6 addr16 ones => .v6 (lastBytes addr16 ones) ""

/-! ## The last address -/

theorem fillBytes_eq (x : BitVec 128) (full : Nat) :
    fillBytes x full = x ||| fillBytes 0#128 full := by
  unfold fillBytes
  generalize List.range' full (16 - full) = l
  induction l generalizing x with
  | nil => exact (BitVec.or_zero).symm
  | cons i l ih =>
    have hset : setByte x i 0xff = x ||| setByte 0#128 i 0xff := by
      ext k hk
      simp [setByte]
      cases x[k] <;> simp
    rw [List.foldl_cons, List.foldl_cons, ih (setByte x i 0xff), ih (setByte 0#128 i 0xff), hset,
      BitVec.or_assoc]

theorem lastBytes_eq (x : BitVec 128) (ones : Nat) :
    lastBytes x ones = x ||| lastBytes 0#128 ones := by
  unfold lastBytes
  dsimp only
  split
  · split
    · rw [fillBytes_eq, fillBytes_eq (0#128 ||| _), BitVec.zero_or, BitVec.or_assoc]
    · exact fillBytes_eq x _
  · exact BitVec.or_zero.symm

theorem prefixLastAddr_eq (p : Prefix) : prefixLastAddr p = p.masked.lastAddr := by
  cases p with
  | v4 bits ones =>
    have hmask : ∀ ones : Fin 33, hostMask (32 - ones) = ~~~ maskBits 32 ones := by decide
    simp only [prefixLastAddr, masked, lastAddr, BitVec.and_assoc, BitVec.and_self,
      hmask]
  | v6 bits ones =>
    have hmask : ∀ ones : Fin 129, lastBytes 0#128 ones = ~~~ maskBits 128 ones := by decide +kernel
    rw [prefixLastAddr, masked]
    simp only [lastBytes_eq (_ &&& _), hmask, lastAddr, BitVec.and_assoc, BitVec.and_self]

/-! ## Sets of addresses -/

theorem isRangeWithinOverlay_eq (overlay candidate : Prefix) :
    isRangeWithinOverlay overlay candidate = (overlay.contains candidate.masked.addr &&
      overlay.contains (prefixLastAddr candidate.masked)) := by
  rw [prefixLastAddr_eq, masked_masked]
  rfl

/--
**Prefix arithmetic.** The last address is the greatest that the prefix contains, ranges overlap
where they share an address, and a range is within the overlay where all its addresses are.
-/
theorem prefix_arithmetic (p q : Prefix) (a b : Range) :
    (p.contains (prefixLastAddr p) = true ∧
        ∀ ip, p.contains ip = true → (prefixLastAddr p).less ip = false) ∧
      (rangesOverlap a b = true ↔
        ∃ ip, a.contains (some ip) = true ∧ b.contains (some ip) = true) ∧
      (isRangeWithinOverlay p q = true ↔ ∀ ip, q.contains ip = true → p.contains ip = true) := by
  rw [isRangeWithinOverlay_eq, prefixLastAddr_eq, prefixLastAddr_eq, masked_masked]
  refine ⟨⟨p.contains_last, ?_⟩, ?_, ?_⟩
  · intro ip hip
    obtain ⟨hzone, his4, -, hle⟩ := p.contains_iff.mp hip
    rw [lastAddr_masked, ← ofNat_toNat hzone, his4, Bool.eq_false_iff, Ne,
      less_ofNat p.high_lt (hle.trans_lt p.high_lt)]
    exact Nat.not_lt.mpr hle
  · constructor
    · intro h
      rw [rangesOverlap, Bool.or_eq_true, contains_masked, contains_masked] at h
      rcases h with hb | ha
      · exact ⟨_, hb, b.network.contains_first⟩
      · exact ⟨_, a.network.contains_first, ha⟩
    · rintro ⟨ip, ha, hb⟩
      exact Bool.or_eq_true_iff.mpr (contains_masked_of_mem ha hb)
  · rw [Bool.and_eq_true]
    constructor
    · rintro ⟨hfirst, hlast⟩ ip hip
      rw [addr_masked, p.contains_ofNat q.low_lt] at hfirst
      rw [lastAddr_masked, p.contains_ofNat q.high_lt] at hlast
      obtain ⟨hzone, his4, hlow, hhigh⟩ := q.contains_iff.mp hip
      exact p.contains_iff.mpr ⟨hzone, his4.trans hfirst.1, hfirst.2.1.trans hlow,
        hhigh.trans hlast.2.2⟩
    · intro hall
      exact ⟨hall _ q.contains_first, hall _ q.contains_last⟩

/-!
## Allocating overlay addresses

`AvailableIPs` and `AllocateIP` of `pkg/topology/ranges.go`.
-/

/-! ## The functions -/

def rounds (first : Option Addr) (last : Addr) : Nat :=
  last.toNat - (first.elim 0 toNat)

def collect (last : Addr) : (fuel : Nat) → Option Addr → List Addr
  | fuel + 1, some ip => if ip.less last then ip :: collect last fuel ip.next else []
  | _, _ => []

def Range.availableIPs (r : Range) : List Addr :=
  let first := r.network.masked.addr.next
  let last := r.network.masked.lastAddr
  if !first.any (·.less last) then [] else collect last (rounds first last) first

def allocateIn (used : List Addr) (last : Addr) : (fuel : Nat) → Option Addr → Option Addr
  | fuel + 1, some addr =>
    if addr.less last then
      if normalizeAddr addr ∈ used then allocateIn used last fuel addr.next
      else some (normalizeAddr addr)
    else none
  | _, _ => none

def usedAddrs (existing : List (Option Addr)) : List Addr :=
  (existing.filterMap id).map normalizeAddr

def allocateIP (ranges : List Range) (existing : List (Option Addr)) : Except String Addr :=
  let found := ranges.findSome? fun r =>
    let first := r.network.masked.addr.next
    let last := r.network.masked.lastAddr
    allocateIn (usedAddrs existing) last (rounds first last) first
  match found with
  | some addr => .ok addr
  | none => .error "no available IP addresses in provided ranges"

/-! ## The addresses between the ends -/

def Usable (r : Range) (a : Addr) : Prop :=
  r.contains (some a) = true ∧ r.network.masked.addr.less a = true ∧
    a.less r.network.masked.lastAddr = true

def Used (existing : List (Option Addr)) (a : Addr) : Prop :=
  ∃ e : Addr, some e ∈ existing ∧ normalizeAddr e = normalizeAddr a

variable {existing : List (Option Addr)} {a : Addr}

theorem mem_usedAddrs : normalizeAddr a ∈ usedAddrs existing ↔ Used existing a := by
  simp [usedAddrs, Used]

theorem collect_none (last : Addr) (fuel : Nat) : collect last fuel none = [] := by
  cases fuel <;> rfl

theorem collect_eq {is4 : Bool} {n k fuel : Nat} (hn : n < 2 ^ width is4) (hk : k < 2 ^ width is4)
    (hfuel : k - n ≤ fuel) :
    collect (ofNat is4 k) fuel (some (ofNat is4 n)) =
      (List.range' n (k - n)).map (ofNat is4) := by
  induction fuel generalizing n with
  | zero => rw [Nat.le_zero.mp hfuel]; rfl
  | succ fuel ih =>
    rw [collect]
    by_cases hlt : n < k
    · rw [if_pos ((less_ofNat hn hk).mpr hlt), next_ofNat (by omega),
        ih (by omega) (by omega)]
      obtain ⟨d, hd⟩ : ∃ d, k - n = d + 1 := ⟨k - n - 1, by omega⟩
      rw [hd, show k - (n + 1) = d by omega, List.range'_succ, List.map_cons]
    · rw [if_neg fun h => hlt ((less_ofNat hn hk).mp h), show k - n = 0 by omega]
      rfl

theorem availableIPs_eq_collect (r : Range) :
    r.availableIPs = collect r.network.masked.lastAddr
      (rounds r.network.masked.addr.next r.network.masked.lastAddr) r.network.masked.addr.next := by
  unfold Range.availableIPs
  dsimp only
  split
  · next h =>
      symm
      cases hfirst : r.network.masked.addr.next with
      | none => exact collect_none _ _
      | some first =>
        rw [hfirst] at h
        cases rounds (some first) r.network.masked.lastAddr with
        | zero => rfl
        | succ fuel => exact if_neg (by simpa using h)
  · rfl

theorem availableIPs_eq (r : Range) :
    r.availableIPs = (List.range' (r.network.low + 1) (r.network.high - (r.network.low + 1))).map
      (ofNat r.network.is4) := by
  have hlow := r.network.low_lt
  have hhigh := r.network.high_lt
  rw [availableIPs_eq_collect, addr_masked, lastAddr_masked]
  by_cases hnext : r.network.low + 1 < 2 ^ width r.network.is4
  · rw [next_ofNat hnext]
    refine collect_eq hnext hhigh ?_
    rw [rounds, Option.elim_some, toNat_ofNat hhigh, toNat_ofNat hnext]
  · rw [next_ofNat_last (by omega), collect_none,
      show r.network.high - (r.network.low + 1) = 0 by omega]
    rfl

variable {r : Range}

theorem mem_availableIPs : a ∈ r.availableIPs ↔ Usable r a := by
  have hlow := r.network.low_lt
  have hhigh := r.network.high_lt
  rw [availableIPs_eq, Usable, addr_masked, lastAddr_masked, Range.contains,
    contains_iff]
  constructor
  · intro h
    obtain ⟨n, hn, rfl⟩ := List.mem_map.mp h
    rw [List.mem_range'_1] at hn
    have hlt : n < 2 ^ width r.network.is4 := by omega
    rw [zone_ofNat, is4_ofNat, toNat_ofNat hlt, less_ofNat hlow hlt,
      less_ofNat hlt hhigh]
    exact ⟨⟨rfl, rfl, by omega, by omega⟩, by omega, by omega⟩
  · rintro ⟨⟨hzone, his4, -, hle⟩, hafter, hbefore⟩
    have heq : a = ofNat r.network.is4 a.toNat := his4 ▸ (ofNat_toNat hzone).symm
    have hlt : a.toNat < 2 ^ width r.network.is4 := by omega
    rw [heq, less_ofNat hlow hlt] at hafter
    rw [heq, less_ofNat hlt hhigh] at hbefore
    rw [heq]
    exact List.mem_map_of_mem (List.mem_range'_1.mpr ⟨by omega, by omega⟩)

theorem pairwise_availableIPs (r : Range) :
    r.availableIPs.Pairwise fun a b => a.toNat < b.toNat := by
  have hhigh := r.network.high_lt
  rw [availableIPs_eq, List.pairwise_map]
  have hrange : (List.range' (r.network.low + 1)
      (r.network.high - (r.network.low + 1))).Pairwise (· < ·) := List.pairwise_lt_range'
  refine hrange.imp_of_mem ?_
  intro m n hm hn hlt
  rw [List.mem_range'_1] at hm hn
  rwa [toNat_ofNat (by omega), toNat_ofNat (by omega)]

theorem Usable.less_iff {a b : Addr} (ha : Usable r a) (hb : Usable r b) :
    a.less b = true ↔ a.toNat < b.toNat := by
  have hhigh := r.network.high_lt
  obtain ⟨hzoneA, hisA, -, hleA⟩ := (contains_iff _).mp ha.1
  obtain ⟨hzoneB, hisB, -, hleB⟩ := (contains_iff _).mp hb.1
  have hA := ofNat_toNat hzoneA
  have hB := ofNat_toNat hzoneB
  rw [hisA] at hA
  rw [hisB] at hB
  have hltA : a.toNat < 2 ^ width r.network.is4 := by omega
  have hltB : b.toNat < 2 ^ width r.network.is4 := by omega
  rw [← less_ofNat hltA hltB, hA, hB]

/-! ## The choice -/

theorem allocateIn_eq (used : List Addr) (last : Addr) (fuel : Nat) (first : Option Addr) :
    allocateIn used last fuel first =
      ((collect last fuel first).find? fun a => normalizeAddr a ∉ used).map normalizeAddr := by
  induction fuel generalizing first with
  | zero => rfl
  | succ fuel ih =>
    cases first with
    | none => rfl
    | some a =>
      rw [allocateIn, collect]
      split
      · split
        · next hused => rw [List.find?_cons_of_neg (by simpa using hused), ih]
        · next hfree =>
            rw [List.find?_cons_of_pos (by simpa using hfree)]
            rfl
      · rfl

/-- `x` is the least free address of `r`, and the ranges before have none. -/
structure Chosen (ranges : List Range) (existing : List (Option Addr)) (r : Range) (x : Addr) :
    Prop where
  first : ∃ before after, ranges = before ++ r :: after ∧
    ∀ r' ∈ before, ∀ y, Usable r' y → Used existing y
  usable : Usable r x
  free : ¬ Used existing x
  least : ∀ y, Usable r y → ¬ Used existing y → y = x ∨ x.less y = true

def freeIn (existing : List (Option Addr)) (r : Range) : Option Addr :=
  (r.availableIPs.find? fun a => normalizeAddr a ∉ usedAddrs existing).map normalizeAddr

theorem allocateIP_eq (ranges : List Range) (existing : List (Option Addr)) :
    allocateIP ranges existing =
      match ranges.findSome? (freeIn existing) with
      | some addr => .ok addr
      | none => .error "no available IP addresses in provided ranges" := by
  unfold allocateIP
  simp only [allocateIn_eq, ← availableIPs_eq_collect]
  rfl

theorem freeIn_eq_none : freeIn existing r = none ↔ ∀ y ∈ r.availableIPs, Used existing y := by
  rw [freeIn, Option.map_eq_none_iff, List.find?_eq_none]
  simp only [decide_eq_true_eq, not_not, mem_usedAddrs]

theorem freeIn_eq_some :
    freeIn existing r = some a ↔ ∃ x, Usable r x ∧ ¬ Used existing x ∧
        (∀ y, Usable r y → ¬ Used existing y → y = x ∨ x.less y = true) ∧ normalizeAddr x = a := by
  rw [freeIn, Option.map_eq_some_iff]
  refine exists_congr fun x => ?_
  rw [find?_eq_some_iff_least (pairwise_availableIPs r)]
  simp only [mem_availableIPs, decide_eq_true_eq, mem_usedAddrs]
  constructor
  · rintro ⟨⟨hx, hfree, hleast⟩, ha⟩
    exact ⟨hx, hfree, fun y hy hy' => (hleast y hy hy').imp_right (hx.less_iff hy).mpr, ha⟩
  · rintro ⟨hx, hfree, hleast, ha⟩
    exact ⟨⟨hx, hfree, fun y hy hy' => (hleast y hy hy').imp_right (hx.less_iff hy).mp⟩, ha⟩

/-- **`AllocateIP`** returns the least free address of the first range that has one. -/
theorem allocateIP_spec (ranges : List Range) (existing : List (Option Addr)) :
    (∀ a, allocateIP ranges existing = .ok a ↔
      ∃ r x, Chosen ranges existing r x ∧ r.contains (some x) = true ∧ a = normalizeAddr x) ∧
    ((∃ err, allocateIP ranges existing = .error err) ↔
      ∀ r ∈ ranges, ∀ y ∈ r.availableIPs, Used existing y) := by
  have hok : ∀ a, allocateIP ranges existing = .ok a ↔
      ranges.findSome? (freeIn existing) = some a := by
    intro a
    rw [allocateIP_eq]
    cases ranges.findSome? (freeIn existing) <;> simp
  have herror : (∃ err, allocateIP ranges existing = .error err) ↔
      ranges.findSome? (freeIn existing) = none := by
    rw [allocateIP_eq]
    cases ranges.findSome? (freeIn existing) <;> simp
  constructor
  · intro a
    rw [hok, List.findSome?_eq_some_iff]
    constructor
    · rintro ⟨before, r, after, hranges, hr, hbefore⟩
      obtain ⟨x, husable, hfree, hleast, rfl⟩ := freeIn_eq_some.mp hr
      refine ⟨r, x, ⟨⟨before, after, hranges, ?_⟩, husable, hfree, hleast⟩, husable.1, rfl⟩
      intro r' hr' y hy
      exact freeIn_eq_none.mp (hbefore r' hr') y (mem_availableIPs.mpr hy)
    · rintro ⟨r, x, ⟨⟨before, after, hranges, hbefore⟩, husable, hfree, hleast⟩, -, rfl⟩
      refine ⟨before, r, after, hranges, freeIn_eq_some.mpr ⟨x, husable, hfree, hleast, rfl⟩, ?_⟩
      intro r' hr'
      exact freeIn_eq_none.mpr fun y hy => hbefore r' hr' y (mem_availableIPs.mp hy)
  · rw [herror, List.findSome?_eq_none_iff]
    exact forall₂_congr fun r _ => freeIn_eq_none

def mappedRange : Range := { name := "legacy", network := .v6 0xffff0a000000 ⟨120, by decide⟩ }

/-- **From an IPv4-mapped range comes an address outside of it**. -/
theorem mappedRange_allocates_outside :
    allocateIP [mappedRange] [] = .ok (.v4 0x0a000001) ∧
      ¬ ∃ r ∈ [mappedRange], r.contains (some (.v4 0x0a000001)) = true := by
  refine ⟨by decide, ?_⟩
  simp [mappedRange, Range.contains, contains]

/-- A range that is full and one that is not. -/
theorem allocateIP_sample :
    ∃ r x, Chosen [{ name := "a", network := .v4 0x0a0a0000 ⟨30, by decide⟩ }, mappedRange]
        [some (.v4 0x0a0a0001), none, some (.v6 0xffff0a0a0002 "")] r x ∧
      r.contains (some x) = true ∧ .v4 0x0a000001 = normalizeAddr x :=
  ((allocateIP_spec _ _).1 (.v4 0x0a000001)).mp (by decide)

end AwgMesh.TopologyV1
