import AwgMesh.Clock
import Mathlib.Logic.Function.Basic
import Mathlib.Tactic.SplitIfs

/-!
# Idle UDP flows

The flow table of `pkg/ingress/udp.go`.
-/

namespace AwgMesh.Ingress

open Function List

structure UDPFlow where
  client : String
  hostname : String
  target : String
  lastSeen : Time
  createdAt : Time

/-- `time.Time.Sub`, which saturates. -/
def subTime (t u : Int) : Int :=
  if t - u > 9223372036854775807 then 9223372036854775807
  else if t - u < -9223372036854775808 then -9223372036854775808
  else t - u

def defaultUDPIdleTimeout : Duration := 30 * 1000000000

structure UDPFlowTable where
  timeout : Duration
  flows : String → Option UDPFlow

def newUDPFlowTable (timeout : Duration) : UDPFlowTable where
  timeout := if timeout ≤ 0 then defaultUDPIdleTimeout else timeout
  flows := fun _ => none

def callTime (now clock : Time) : Time := if now.isZero then clock else now

/-- The arguments of `Resolve`. -/
structure Packet where
  client : String
  hostname : String
  target : String
  now : Time
  clock : Time

def Packet.time (p : Packet) : Time := callTime p.now p.clock

def udpFlowKey (p : Packet) : String := p.client ++ "|" ++ p.hostname ++ "|" ++ p.target

namespace UDPFlowTable

def resolve (t : UDPFlowTable) (p : Packet) : UDPFlow × UDPFlowTable :=
  let found := (t.flows (udpFlowKey p)).getD
    { client := p.client, hostname := p.hostname, target := p.target,
      lastSeen := p.time, createdAt := p.time }
  let flow := { found with lastSeen := p.time }
  (flow, { t with flows := update t.flows (udpFlowKey p) (some flow) })

def expire (t : UDPFlowTable) (now clock : Time) : UDPFlowTable :=
  { t with
    flows := fun key => (t.flows key).filter fun flow =>
      ¬ subTime (callTime now clock) flow.lastSeen > t.timeout }

end UDPFlowTable

inductive FlowCall where
  | resolve (p : Packet)
  | expire (now clock : Time)

def FlowCall.time : FlowCall → Time
  | .resolve p => p.time
  | .expire now clock => callTime now clock

def returned (t : UDPFlowTable) : List FlowCall → List UDPFlow
  | [] => []
  | .resolve p :: calls => (t.resolve p).1 :: returned (t.resolve p).2 calls
  | .expire now clock :: calls => returned (t.expire now clock) calls

def packets : List FlowCall → List Packet
  | [] => []
  | .resolve p :: calls => p :: packets calls
  | .expire .. :: calls => packets calls

/-- No packet comes later than `timeout` after the one before it in its flow. -/
def Steady (timeout : Duration) : (last : String → Option Time) → List Packet → Prop
  | _, [] => True
  | last, p :: ps =>
    (∀ t ∈ last (udpFlowKey p), subTime p.time t ≤ timeout) ∧
      Steady timeout (update last (udpFlowKey p) (some p.time)) ps

/-- A packet later than `timeout` after the last of its flow gets a new flow. -/
def LateFresh (timeout : Duration) :
    (last : String → Option Time) → List Packet → List UDPFlow → Prop
  | last, p :: ps, flow :: flows =>
    ((∃ t ∈ last (udpFlowKey p), timeout < subTime p.time t) → flow.createdAt = p.time) ∧
      LateFresh timeout (update last (udpFlowKey p) (some p.time)) ps flows
  | _, _, _ => True

def Ordered (calls : List FlowCall) : Prop := calls.Pairwise fun c d => c.time ≤ d.time

theorem subTime_mono {b c t : Int} (h : b ≤ c) : subTime b t ≤ subTime c t := by
  unfold subTime
  split_ifs <;> omega

theorem lt_of_subTime {t u : Int} (h : (0 : Int) < subTime t u) : u < t := by
  unfold subTime at h
  split_ifs at h <;> omega

theorem packets_map (ps : List Packet) : packets (ps.map .resolve) = ps := by
  induction ps with
  | nil => rfl
  | cons p ps ih => exact congrArg (p :: ·) ih

theorem Steady.lateFresh {timeout : Duration} {last : String → Option Time} {ps : List Packet}
    (h : Steady timeout last ps) (flows : List UDPFlow) : LateFresh timeout last ps flows := by
  induction ps generalizing last flows with
  | nil => trivial
  | cons p ps ih =>
    cases flows with
    | nil => trivial
    | cons flow flows =>
      refine ⟨?_, ih h.2 flows⟩
      rintro ⟨t, ht, hlate⟩
      exact absurd (h.1 t ht) (Int.not_le.mpr hlate)

section

variable {t u : UDPFlowTable} {last : String → Option Time} {b : Time}

def Tracks (last : String → Option Time) (u : UDPFlowTable) : Prop :=
  ∀ key, (u.flows key).map UDPFlow.lastSeen = last key

open UDPFlowTable

theorem Tracks.resolve (h : Tracks last u) (p : Packet) :
    Tracks (update last (udpFlowKey p) (some p.time)) (u.resolve p).2 := by
  intro key
  by_cases hkey : key = udpFlowKey p
  · subst hkey
    simp [UDPFlowTable.resolve]
  · simp [UDPFlowTable.resolve, hkey, h key]

structure Swept (b : Time) (t u : UDPFlowTable) : Prop where
  timeout : t.timeout = u.timeout
  flows : ∀ key, t.flows key = u.flows key ∨
    t.flows key = none ∧ ∃ flow ∈ u.flows key, u.timeout < subTime b flow.lastSeen

theorem Swept.expire (h : Swept b t u) {now clock : Time} (hb : b ≤ callTime now clock) :
    Swept (callTime now clock) (t.expire now clock) u := by
  refine ⟨h.timeout, fun key => ?_⟩
  rcases h.flows key with heq | ⟨hnone, flow, hflow, hlate⟩
  · cases hu : u.flows key with
    | none => simp [UDPFlowTable.expire, heq, hu]
    | some flow =>
      by_cases hlate : u.timeout < subTime (callTime now clock) flow.lastSeen
      · exact .inr ⟨by simp [UDPFlowTable.expire, heq, hu, h.timeout, hlate], flow, rfl, hlate⟩
      · exact .inl (by simp [UDPFlowTable.expire, heq, hu, h.timeout, Int.not_lt.mp hlate])
  · exact .inr ⟨by simp [UDPFlowTable.expire, hnone], flow, hflow,
      Int.lt_of_lt_of_le hlate (subTime_mono hb)⟩

theorem Swept.resolve (h : Swept b t u) {p : Packet} (hb : b ≤ p.time)
    (hkey : t.flows (udpFlowKey p) = u.flows (udpFlowKey p)) :
    (t.resolve p).1 = (u.resolve p).1 ∧ Swept p.time (t.resolve p).2 (u.resolve p).2 := by
  refine ⟨by simp [UDPFlowTable.resolve, hkey], h.timeout, fun key => ?_⟩
  by_cases hk : key = udpFlowKey p
  · subst hk
    exact .inl (by simp [UDPFlowTable.resolve, hkey])
  · simp only [UDPFlowTable.resolve, update_of_ne hk]
    refine (h.flows key).imp_right fun hgone => ⟨hgone.1, ?_⟩
    obtain ⟨-, flow, hflow, hlate⟩ := hgone
    exact ⟨flow, hflow, Int.lt_of_lt_of_le hlate (subTime_mono hb)⟩

theorem returned_of_steady {calls : List FlowCall} (h : Swept b t u) (htracks : Tracks last u)
    (hb : ∀ c ∈ calls, b ≤ c.time) (horder : Ordered calls)
    (hsteady : Steady u.timeout last (packets calls)) :
    returned t calls = returned u ((packets calls).map .resolve) := by
  induction calls generalizing t u last b with
  | nil => rfl
  | cons c calls ih =>
    obtain ⟨hfirst, hrest⟩ := pairwise_cons.mp horder
    have hc := hb c mem_cons_self
    cases c with
    | expire now clock => exact ih (h.expire hc) htracks hfirst hrest hsteady
    | resolve p =>
      have hkey : t.flows (udpFlowKey p) = u.flows (udpFlowKey p) := by
        rcases h.flows (udpFlowKey p) with heq | ⟨-, flow, hflow, hlate⟩
        · exact heq
        · have hseen : flow.lastSeen ∈ last (udpFlowKey p) :=
            htracks (udpFlowKey p) ▸ Option.mem_map_of_mem _ hflow
          have := hsteady.1 _ hseen
          exact absurd (Int.lt_of_lt_of_le hlate (subTime_mono hc)) (Int.not_lt.mpr this)
      obtain ⟨hflow, hswept⟩ := h.resolve hc hkey
      exact cons_eq_cons.mpr
        ⟨hflow, ih hswept (htracks.resolve p) hfirst hrest hsteady.2⟩

theorem steady_of_returned {ps : List Packet} (htracks : Tracks last u) (hpos : 0 < u.timeout)
    (hcreated : ∀ key, ∀ flow ∈ u.flows key,
      flow.createdAt ≤ flow.lastSeen ∧ ∀ p ∈ ps, flow.lastSeen ≤ p.time)
    (hb : ∀ p ∈ ps, b ≤ p.time) (horder : Ordered (ps.map .resolve))
    (h : ∀ calls, packets calls = ps → Ordered calls → (∀ c ∈ calls, b ≤ c.time) →
      returned u calls = returned u (ps.map .resolve)) : Steady u.timeout last ps := by
  induction ps generalizing u last b with
  | nil => trivial
  | cons p ps ih =>
    obtain ⟨hfirst, hrest⟩ := pairwise_cons.mp horder
    have hlater : ∀ q ∈ ps, p.time ≤ q.time := fun q hq => hfirst _ (mem_map_of_mem hq)
    have hp := hb p mem_cons_self
    refine ⟨fun seen hseen => Int.not_lt.mp fun hlate => ?_,
      ih (u := (u.resolve p).2) (b := p.time) (htracks.resolve p) hpos ?_ hlater hrest ?_⟩
    · rw [← htracks, Option.mem_def, Option.map_eq_some_iff] at hseen
      obtain ⟨flow, hflow, rfl⟩ := hseen
      have htime : (FlowCall.expire p.time p.time).time = p.time := by
        simp [FlowCall.time, callTime]
      have hgone : (u.expire p.time p.time).flows (udpFlowKey p) = none := by
        simp [expire, hflow, callTime, hlate]
      have hbefore : ∀ c ∈ FlowCall.resolve p :: ps.map .resolve, p.time ≤ c.time :=
        forall_mem_cons.mpr ⟨Int.le_refl _, hfirst⟩
      have hsame := h (.expire p.time p.time :: .resolve p :: ps.map .resolve)
        (congrArg (p :: ·) (packets_map ps))
        (pairwise_cons.mpr ⟨fun c hc => htime.symm ▸ hbefore c hc, horder⟩)
        (forall_mem_cons.mpr
          ⟨htime.symm ▸ hp, fun c hc => Int.le_trans hp (hbefore c hc)⟩)
      have hhead := congrArg UDPFlow.createdAt (cons_eq_cons.mp hsame).1
      simp only [resolve, hgone, hflow, Option.getD_none, Option.getD_some] at hhead
      have hold := (hcreated _ _ hflow).1
      have hlt := lt_of_subTime (Int.lt_trans hpos hlate)
      exact absurd (Int.lt_of_le_of_lt hold hlt) (hhead ▸ Int.lt_irrefl _)
    · intro key flow hflow
      by_cases hkey : key = udpFlowKey p
      · subst hkey
        simp only [resolve, update_self, Option.mem_some_iff] at hflow
        subst hflow
        refine ⟨?_, hlater⟩
        cases hold : u.flows (udpFlowKey p) with
        | none => exact Int.le_refl _
        | some old =>
          have := hcreated _ _ hold
          exact Int.le_trans this.1 (this.2 p mem_cons_self)
      · simp only [resolve, update_of_ne hkey] at hflow
        exact ⟨(hcreated _ _ hflow).1, fun q hq => (hcreated _ _ hflow).2 q (.tail _ hq)⟩
    · intro calls hcalls hsorted hbound
      exact (cons_eq_cons.mp (h (.resolve p :: calls) (congrArg (p :: ·) hcalls)
        (pairwise_cons.mpr ⟨hbound, hsorted⟩) (forall_mem_cons.mpr
          ⟨hp, fun c hc => Int.le_trans hp (hbound c hc)⟩))).2

end

/-- **When sweeps do not matter**. -/
theorem sweeps_do_not_matter_iff (timeout : Duration) (ps : List Packet)
    (horder : ps.Pairwise fun p q => p.time ≤ q.time) :
    (∀ calls, packets calls = ps → Ordered calls → returned (newUDPFlowTable timeout) calls =
        returned (newUDPFlowTable timeout) (ps.map .resolve) ∧
      LateFresh (newUDPFlowTable timeout).timeout (fun _ => none) ps
        (returned (newUDPFlowTable timeout) calls)) ↔
      Steady (newUDPFlowTable timeout).timeout (fun _ => none) ps := by
  have hcalls : Ordered (ps.map .resolve) := pairwise_map.mpr horder
  have htracks : Tracks (fun _ => none) (newUDPFlowTable timeout) := fun _ => rfl
  constructor
  · intro h
    have hpos : 0 < (newUDPFlowTable timeout).timeout := by
      dsimp only [newUDPFlowTable]
      split_ifs with hle
      · decide
      · exact Int.not_le.mp hle
    cases ps with
    | nil => trivial
    | cons p ps =>
      refine steady_of_returned (b := p.time) htracks hpos (fun key flow hflow => nomatch hflow)
        ?_ hcalls fun calls hps hsorted _ => (h calls hps hsorted).1
      exact forall_mem_cons.mpr ⟨Int.le_refl _, (pairwise_cons.mp horder).1⟩
  · rintro hsteady calls rfl hsorted
    refine ⟨?_, hsteady.lateFresh _⟩
    cases calls with
    | nil => rfl
    | cons c calls =>
      refine returned_of_steady (b := c.time) ⟨rfl, fun _ => .inl rfl⟩ htracks ?_ hsorted hsteady
      exact forall_mem_cons.mpr ⟨Int.le_refl _, (pairwise_cons.mp hsorted).1⟩

def samplePacket (now : Time) : Packet :=
  { client := "c", hostname := "h", target := "t", now, clock := 1 }

theorem sweeps_do_not_matter_sample :
    Steady 5 (fun _ => none) [samplePacket 1, samplePacket 3] ↔
      ∀ calls, packets calls = [samplePacket 1, samplePacket 3] → Ordered calls →
        returned (newUDPFlowTable 5) calls =
          returned (newUDPFlowTable 5) ([samplePacket 1, samplePacket 3].map .resolve) ∧
        LateFresh 5 (fun _ => none) [samplePacket 1, samplePacket 3]
          (returned (newUDPFlowTable 5) calls) :=
  (sweeps_do_not_matter_iff 5 _ (by decide)).symm

/-- Two packets 9 ns apart, with a timeout of 5 ns. -/
theorem idle_flow_survives :
    (returned (newUDPFlowTable 5) [.resolve (samplePacket 1), .resolve (samplePacket 10)]).map
        UDPFlow.createdAt = [1, 1] ∧
      (returned (newUDPFlowTable 5) [.resolve (samplePacket 1), .expire 10 10,
        .resolve (samplePacket 10)]).map UDPFlow.createdAt = [1, 10] := by
  decide +kernel

end AwgMesh.Ingress
