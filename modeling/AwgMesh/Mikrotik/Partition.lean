import Mathlib.Data.String.Basic
import AwgMesh.Mikrotik.Generator

/-! # The peers of a static configuration -/

namespace AwgMesh.Mikrotik

open Lib Net SchemaV2 Wg List

/-! ## What the peers should be -/

def Covers (s : String) (a : Addr) : Prop := ∃ p, parsePrefix s = some p ∧ p.contains a = true

def others (topo : TopologyV2) (clientName : String) : List NodeV2 :=
  topo.nodes.eraseP fun n => n.name = trimSpace clientName

/-- The peers partition the addresses of the other nodes, and masters have their own. -/
structure Partitions (topo : TopologyV2) (clientName : String) (peers : List Peer) : Prop where
  hosts : ∀ p ∈ peers, ∀ s ∈ p.allowedIPs, ∃ a, parsePrefix s = some (hostPrefix a)
  disjoint : (peers.flatMap (·.allowedIPs)).Pairwise fun s t => ∀ a, ¬ (Covers s a ∧ Covers t a)
  union : ∀ a, (∃ p ∈ peers, ∃ s ∈ p.allowedIPs, Covers s a) ↔
    ∃ n ∈ others topo clientName, parseAddr n.overlayIP = some a
  own : ∀ m ∈ declaredMasters topo, ∃ p ∈ peers, p.name = m.name ∧
    ∃ s ∈ p.allowedIPs, ∃ a, parseAddr m.overlayIP = some a ∧ Covers s a

/-- The peers do not depend on the order of the nodes. -/
def OrderFree (std : Stdlib) (topo : TopologyV2) (clientName : String) (clientPrivateKey : Key)
    (masterPublicKeys : String → Option Key) (peers : List Peer) : Prop :=
  ∀ (std' : Stdlib) (nodes : List NodeV2) (script : StaticScript),
    std'.prefixString = std.prefixString → nodes.Perm topo.nodes →
    buildStaticScript std' { topo with nodes } clientName clientPrivateKey masterPublicKeys =
      .ok script → script.peers = peers

/-! ## What it takes -/

def below (nodes : List NodeV2) (name : String) : Nat :=
  (nodes.filter fun n => n.name < name).length

def peerIndex (topo : TopologyV2) (clientName : String) (n : NodeV2) : Nat :=
  if hasRole n .master then below (declaredMasters topo) n.name
  else below (routed topo (trimSpace clientName)) n.name % (declaredMasters topo).length

def reached (topo : TopologyV2) (clientName : String) : List NodeV2 :=
  declaredMasters topo ++ routed topo (trimSpace clientName)

/-- What `ValidateV2` does not ask of names and addresses. -/
structure Separable (topo : TopologyV2) (clientName : String) : Prop where
  namesakes : ∀ n ∈ others topo clientName, ∃ m ∈ reached topo clientName,
    overlayAddr m = overlayAddr n
  masters : ((declaredMasters topo).map (·.name)).Nodup
  targets : (declaredMasters topo).length = 1 ∨
    ((routed topo (trimSpace clientName)).map (·.name)).Nodup
  addresses : ∀ m ∈ reached topo clientName, ∀ n ∈ reached topo clientName,
    overlayAddr m = overlayAddr n → peerIndex topo clientName m = peerIndex topo clientName n

def ReadsBack (prefixString : Prefix → String) (topo : TopologyV2) : Prop :=
  ∀ n ∈ topo.nodes, parsePrefix (hostCIDR prefixString n) = some (hostPrefix (overlayAddr n))

section

variable {std : Stdlib} {topo : TopologyV2} {clientName : String} {clientPrivateKey : Key}
  {masterPublicKeys : String → Option Key} {script : StaticScript} {client node : NodeV2}
  {prefixString : Prefix → String} {masters : List NodeV2} {targets : List RouteTarget}

/-! ## Allowed addresses -/

theorem addAllowedIP_foldl (l : List RouteTarget) (p : Peer) (hp : p.allowedIPs.Nodup) :
    ∃ ips, l.foldl (fun p target => p.addAllowedIP target.cidr) p = { p with allowedIPs := ips } ∧
      ips.Nodup ∧ ∀ s, s ∈ ips ↔ s ∈ p.allowedIPs ∨ ∃ target ∈ l, target.cidr = s := by
  induction l generalizing p with
  | nil => exact ⟨p.allowedIPs, rfl, hp, by simp⟩
  | cons target l ih =>
    have hadd : ∃ ips, p.addAllowedIP target.cidr = { p with allowedIPs := ips } ∧ ips.Nodup ∧
        ∀ s, s ∈ ips ↔ s ∈ p.allowedIPs ∨ target.cidr = s := by
      unfold Peer.addAllowedIP
      split
      · next hmem => exact ⟨p.allowedIPs, rfl, hp, fun s => by grind⟩
      · next hmem =>
          refine ⟨_, rfl, ?_, fun s => by simp [eq_comm]⟩
          exact nodup_append.mpr ⟨hp, nodup_singleton _, by grind⟩
    obtain ⟨ips, heq, hnodup, hmem⟩ := hadd
    obtain ⟨ips', heq', hnodup', hmem'⟩ := ih { p with allowedIPs := ips } hnodup
    refine ⟨ips', ?_, hnodup', fun s => ?_⟩
    · rw [foldl_cons, heq, heq']
    · rw [hmem', hmem]
      simp [or_assoc]

def AtPeer (prefixString : Prefix → String) (masters : List NodeV2) (targets : List RouteTarget)
    (j : Nat) (s : String) : Prop :=
  (∃ m, masters[j]? = some m ∧ hostCIDR prefixString m = s) ∨
    ∃ n target, targets[n]? = some target ∧ n % masters.length = j ∧ target.cidr = s

variable {j : Nat}

theorem peersFor_getElem? {p : Peer}
    (hp : (peersFor prefixString masterPublicKeys masters targets)[j]? = some p) :
    ∃ m, masters[j]? = some m ∧
      p = { masterPeer prefixString masterPublicKeys m with allowedIPs := p.allowedIPs } ∧
      p.allowedIPs.Nodup ∧ p.allowedIPs.Pairwise (· ≤ ·) ∧
      ∀ s, s ∈ p.allowedIPs ↔ AtPeer prefixString masters targets j s := by
  rw [peersFor, getElem?_map, deal_getElem?, getElem?_map, length_map] at hp
  cases hm : masters[j]? with
  | none => rw [hm] at hp; cases hp
  | some m =>
    obtain ⟨ips, heq, hnodup, hmem⟩ := addAllowedIP_foldl (hand masters.length j 0 targets)
      (masterPeer prefixString masterPublicKeys m) (nodup_singleton _)
    have hown : (masterPeer prefixString masterPublicKeys m).allowedIPs =
        [hostCIDR prefixString m] := rfl
    rw [hm, Option.map_some, Option.map_some, Option.map_some, heq] at hp
    -- the rest of the peer is not looked into
    have hpeer : p = { masterPeer prefixString masterPublicKeys m with
        allowedIPs := p.allowedIPs } ∧ p.allowedIPs = ips.insertionSort (· ≤ ·) := by
      generalize masterPeer prefixString masterPublicKeys m = peer at hp
      cases hp
      exact ⟨rfl, rfl⟩
    have hperm : (ips.insertionSort (· ≤ ·)).Perm ips := perm_insertionSort _ ips
    refine ⟨m, rfl, hpeer.1, ?_⟩
    rw [hpeer.2]
    refine ⟨hperm.nodup_iff.mpr hnodup, pairwise_insertionSort _ ips, fun s => ?_⟩
    refine (hperm.mem_iff.trans (hmem s)).trans (or_congr ?_ ?_)
    · simp [hown, hm, eq_comm]
    · simp only [mem_hand, Nat.zero_add]
      constructor
      · rintro ⟨target, ⟨n, hn, hmod⟩, rfl⟩
        exact ⟨n, target, hn, hmod, rfl⟩
      · rintro ⟨n, target, hn, hmod, rfl⟩
        exact ⟨target, ⟨n, hn, hmod⟩, rfl⟩

theorem length_peersFor :
    (peersFor prefixString masterPublicKeys masters targets).length = masters.length := by
  rw [peersFor, length_map, length_deal, length_map]

variable {targets' : List RouteTarget}

theorem peersFor_congr
    (h : ∀ j s, AtPeer prefixString masters targets j s ↔
      AtPeer prefixString masters targets' j s) :
    peersFor prefixString masterPublicKeys masters targets =
      peersFor prefixString masterPublicKeys masters targets' := by
  refine ext_getElem (length_peersFor.trans length_peersFor.symm) ?_
  intro j hj hj'
  obtain ⟨m, hm, hp, hnodup, hsorted, hmem⟩ := peersFor_getElem? (getElem?_eq_getElem hj)
  obtain ⟨m', hm', hp', hnodup', hsorted', hmem'⟩ :=
    peersFor_getElem? (getElem?_eq_getElem hj')
  rw [hm] at hm'
  cases hm'
  have hperm := (perm_ext_iff_of_nodup hnodup hnodup').mpr fun s =>
    (hmem s).trans ((h j s).trans (hmem' s).symm)
  have hips := Perm.eq_of_pairwise (fun a b _ _ => le_antisymm) hsorted hsorted' hperm
  rw [hp, hp', hips]

variable {s : String}

theorem atPeer_iff_mem (hne : masters ≠ []) :
    AtPeer prefixString masters targets j s ↔
      ∃ p, (peersFor prefixString masterPublicKeys masters targets)[j]? = some p ∧
        s ∈ p.allowedIPs := by
  constructor
  · intro hs
    have hlt : j < (peersFor prefixString masterPublicKeys masters targets).length := by
      rw [length_peersFor]
      rcases hs with ⟨m, hm, -⟩ | ⟨n, target, -, rfl, -⟩
      · exact (List.getElem?_eq_some_iff.mp hm).1
      · exact Nat.mod_lt n (List.length_pos_iff.mpr hne)
    obtain ⟨m, -, -, -, -, hmem⟩ := peersFor_getElem? (List.getElem?_eq_getElem hlt)
    exact ⟨_, List.getElem?_eq_getElem hlt, (hmem s).mpr hs⟩
  · rintro ⟨p, hp, hs⟩
    obtain ⟨m, -, -, -, -, hmem⟩ := peersFor_getElem? hp
    exact (hmem s).mp hs

theorem nodup_allowedIPs_iff (hne : masters ≠ []) :
    ((peersFor prefixString masterPublicKeys masters targets).flatMap (·.allowedIPs)).Nodup ↔
      ∀ i j s, AtPeer prefixString masters targets i s → AtPeer prefixString masters targets j s →
        i = j := by
  rw [List.nodup_flatMap, and_iff_right, List.pairwise_iff_getElem]
  · constructor
    · intro h i j s hi hj
      obtain ⟨p, hp, hs⟩ := (atPeer_iff_mem hne).mp hi
      obtain ⟨q, hq, ht⟩ := (atPeer_iff_mem hne).mp hj
      obtain ⟨hi, rfl⟩ := List.getElem?_eq_some_iff.mp hp
      obtain ⟨hj, rfl⟩ := List.getElem?_eq_some_iff.mp hq
      rcases Nat.lt_trichotomy i j with hij | hij | hij
      · exact absurd ht (h i j hi hj hij hs)
      · exact hij
      · exact absurd hs (h j i hj hi hij ht)
    · intro h i j hi hj hij s hs ht
      have heq := h i j s ((atPeer_iff_mem hne).mpr ⟨_, List.getElem?_eq_getElem hi, hs⟩)
        ((atPeer_iff_mem hne).mpr ⟨_, List.getElem?_eq_getElem hj, ht⟩)
      omega
  · intro p hp
    obtain ⟨j, hj⟩ := List.mem_iff_getElem?.mp hp
    obtain ⟨m, -, -, hnodup, -⟩ := peersFor_getElem? hj
    exact hnodup

/-! ## Addresses of nodes -/

theorem contains_hostPrefix {a b : Addr} (ha : (hostPrefix a).contains a = true) :
    (hostPrefix a).contains b = true ↔ b = a := by
  constructor
  · intro hb
    cases a with
    | v4 x =>
      cases b with
      | v4 y => simpa [hostPrefix, Prefix.contains, and_maskBits_full] using hb
      | v6 y zone => cases hb
    | v6 x zone =>
      cases b with
      | v4 y => cases hb
      | v6 y zone' =>
        simp [hostPrefix, Prefix.contains, and_maskBits_full] at ha hb ⊢
        exact ⟨hb.2, hb.1.trans ha.symm⟩
  · rintro rfl
    exact ha

theorem overlayAddr_spec (hvalid : validateV2 topo = .ok ()) (hn : node ∈ topo.nodes) :
    parseAddr node.overlayIP = some (overlayAddr node) ∧
      (hostPrefix (overlayAddr node)).contains (overlayAddr node) = true := by
  obtain ⟨addr, htrim, haddr, hhost⟩ := parseAddr_of_validateV2 hvalid hn
  have heq : overlayAddr node = addr := by rw [overlayAddr, htrim]; rfl
  rw [heq]
  exact ⟨haddr, hhost⟩

theorem covers_hostCIDR (hvalid : validateV2 topo = .ok ()) (hread : ReadsBack prefixString topo)
    (hn : node ∈ topo.nodes) {a : Addr} :
    Covers (hostCIDR prefixString node) a ↔ a = overlayAddr node := by
  rw [← contains_hostPrefix (overlayAddr_spec hvalid hn).2]
  unfold Covers
  rw [hread node hn]
  simp

theorem hostCIDR_inj (hvalid : validateV2 topo = .ok ()) (hread : ReadsBack prefixString topo)
    {m n : NodeV2} (hm : m ∈ topo.nodes) (hn : n ∈ topo.nodes) :
    hostCIDR prefixString m = hostCIDR prefixString n ↔ overlayAddr m = overlayAddr n := by
  constructor
  · intro h
    have hcovers := (covers_hostCIDR hvalid hread hm).mpr rfl
    rw [h, covers_hostCIDR hvalid hread hn] at hcovers
    exact hcovers
  · intro h
    rw [hostCIDR, h]
    rfl

/-! ## Which node is at which peer -/

structure Arranged (prefixString : Prefix → String) (topo : TopologyV2) (clientName : String)
    (masters : List NodeV2) (targets : List RouteTarget) : Prop where
  masters_perm : masters.Perm (declaredMasters topo)
  targets_perm : targets.Perm (targetsFor prefixString topo (trimSpace clientName))
  masters_ordered : masters.Pairwise fun m n => m.name ≤ n.name
  targets_ordered : targets.Pairwise fun s t => s.name ≤ t.name

theorem arranged_sort (std : Stdlib) (topo : TopologyV2) (clientName : String) :
    Arranged std.prefixString topo clientName (std.sortMasters.sort (declaredMasters topo))
      (std.sortTargets.sort (targetsFor std.prefixString topo (trimSpace clientName))) :=
  ⟨std.sortMasters.perm _, std.sortTargets.perm _, std.sortMasters.ordered _,
    std.sortTargets.ordered _⟩

variable {n : NodeV2}

theorem mem_reached : n ∈ reached topo clientName ↔ n ∈ topo.nodes ∧
    (hasRole n .master = true ∨ n.name ≠ trimSpace clientName) := by
  simp only [reached, declaredMasters, routed, mem_append, mem_filter, decide_eq_true_eq]
  grind

theorem mem_targetsFor {target : RouteTarget} {name : String} :
    target ∈ targetsFor prefixString topo name ↔
      ∃ n ∈ routed topo name, target = { name := n.name, cidr := hostCIDR prefixString n } := by
  simp [targetsFor, eq_comm]

namespace Arranged

variable (h : Arranged prefixString topo clientName masters targets)

include h

variable {j : Nat} {s : String}

theorem reached_of_atPeer (hs : AtPeer prefixString masters targets j s) :
    ∃ n ∈ reached topo clientName, hostCIDR prefixString n = s := by
  rcases hs with ⟨m, hm, rfl⟩ | ⟨i, target, ht, -, rfl⟩
  · exact ⟨m, mem_append_left _ (h.masters_perm.mem_iff.mp (mem_of_getElem? hm)), rfl⟩
  · obtain ⟨n, hn, rfl⟩ := mem_targetsFor.mp (h.targets_perm.mem_iff.mp (mem_of_getElem? ht))
    exact ⟨n, mem_append_right _ hn, rfl⟩

theorem atPeer_of_reached {n : NodeV2} (hn : n ∈ reached topo clientName) :
    ∃ j, AtPeer prefixString masters targets j (hostCIDR prefixString n) := by
  rcases mem_append.mp hn with hn | hn
  · obtain ⟨j, hj⟩ := mem_iff_getElem?.mp (h.masters_perm.mem_iff.mpr hn)
    exact ⟨j, .inl ⟨n, hj, rfl⟩⟩
  · have ht := h.targets_perm.mem_iff.mpr (mem_targetsFor.mpr ⟨n, hn, rfl⟩)
    obtain ⟨i, hi⟩ := mem_iff_getElem?.mp ht
    exact ⟨i % masters.length, .inr ⟨i, _, hi, rfl, rfl⟩⟩

theorem below_masters (hnames : ((declaredMasters topo).map (·.name)).Nodup) {m : NodeV2}
    (hm : masters[j]? = some m) : below (declaredMasters topo) m.name = j := by
  have hkeys : (masters.map (·.name)).Nodup := (h.masters_perm.map _).nodup_iff.mpr hnames
  rw [below, ← (h.masters_perm.filter _).length_eq]
  exact length_filter_lt_of_ordered h.masters_ordered hkeys hm

theorem below_targets (hnames : ((routed topo (trimSpace clientName)).map (·.name)).Nodup)
    {i : Nat} {target : RouteTarget} (ht : targets[i]? = some target) :
    below (routed topo (trimSpace clientName)) target.name = i := by
  have hkeys : (targets.map (·.name)).Nodup := by
    rw [(h.targets_perm.map _).nodup_iff, targetsFor, map_map]
    exact hnames
  have hlength : (targets.filter fun t => t.name < target.name).length =
      below (routed topo (trimSpace clientName)) target.name := by
    rw [(h.targets_perm.filter _).length_eq, targetsFor, filter_map, length_map]
    rfl
  rw [← hlength]
  exact length_filter_lt_of_ordered h.targets_ordered hkeys ht

theorem atPeer_iff_peerIndex (hmasters : ((declaredMasters topo).map (·.name)).Nodup)
    (htargets : (declaredMasters topo).length = 1 ∨
      ((routed topo (trimSpace clientName)).map (·.name)).Nodup) :
    AtPeer prefixString masters targets j s ↔ ∃ n ∈ reached topo clientName,
      hostCIDR prefixString n = s ∧ peerIndex topo clientName n = j := by
  have hlength : masters.length = (declaredMasters topo).length := h.masters_perm.length_eq
  have hmaster : ∀ {m : NodeV2} {j : Nat}, masters[j]? = some m →
      m ∈ declaredMasters topo ∧ peerIndex topo clientName m = j := by
    intro m j hm
    have hmem := h.masters_perm.mem_iff.mp (mem_of_getElem? hm)
    refine ⟨hmem, ?_⟩
    rw [peerIndex, if_pos (mem_filter.mp hmem).2, h.below_masters hmasters hm]
  have htarget : ∀ {n : NodeV2} {i : Nat}, n ∈ routed topo (trimSpace clientName) →
      targets[i]? = some { name := n.name, cidr := hostCIDR prefixString n } →
      peerIndex topo clientName n = i % masters.length := by
    intro n i hn ht
    have hrole : ¬ hasRole n .master = true := by
      have := (mem_filter.mp hn).2
      simp_all
    rw [peerIndex, if_neg hrole, hlength]
    rcases htargets with hone | hnames
    · rw [hone, Nat.mod_one, Nat.mod_one]
    · rw [← h.below_targets hnames ht]
  constructor
  · rintro (⟨m, hm, rfl⟩ | ⟨i, target, ht, rfl, rfl⟩)
    · exact ⟨m, mem_append_left _ (hmaster hm).1, rfl, (hmaster hm).2⟩
    · obtain ⟨n, hn, rfl⟩ :=
        mem_targetsFor.mp (h.targets_perm.mem_iff.mp (mem_of_getElem? ht))
      exact ⟨n, mem_append_right _ hn, rfl, htarget hn ht⟩
  · rintro ⟨n, hn, rfl, rfl⟩
    rcases mem_append.mp hn with hn | hn
    · obtain ⟨j, hj⟩ := mem_iff_getElem?.mp (h.masters_perm.mem_iff.mpr hn)
      rw [(hmaster hj).2]
      exact .inl ⟨n, hj, rfl⟩
    · have ht := h.targets_perm.mem_iff.mpr (mem_targetsFor.mpr ⟨n, hn, rfl⟩)
      obtain ⟨i, hi⟩ := mem_iff_getElem?.mp ht
      exact .inr ⟨i, _, hi, (htarget hn hi).symm, rfl⟩

end Arranged

/-! ## The client and the others -/

theorem mem_eraseP_of_find? {l : List NodeV2} {p : NodeV2 → Bool} (hfind : l.find? p = some client)
    (hn : node ∈ l) (hne : node ≠ client) : node ∈ l.eraseP p := by
  induction l with
  | nil => cases hn
  | cons a l ih =>
    cases ha : p a with
    | true =>
      rw [find?_cons_of_pos ha] at hfind
      cases hfind
      rw [eraseP_cons_of_pos ha]
      exact (mem_cons.mp hn).resolve_left hne
    | false =>
      have hneg : ¬ p a = true := by simp [ha]
      rw [find?_cons_of_neg hneg] at hfind
      rw [eraseP_cons_of_neg hneg]
      rcases mem_cons.mp hn with rfl | hn
      · exact mem_cons_self
      · exact mem_cons_of_mem a (ih hfind hn)

theorem mem_others_of_reached
    (hready : Ready topo clientName clientPrivateKey masterPublicKeys client)
    (hn : n ∈ reached topo clientName) : n ∈ others topo clientName := by
  obtain ⟨hname, hmem, hrole, hfind⟩ := findClientNode_eq_ok hready.found
  obtain ⟨hnodes, hreached⟩ := mem_reached.mp hn
  refine mem_eraseP_of_find? hfind hnodes ?_
  rintro rfl
  rcases hreached with hmaster | hne
  · have hroles := (validateV2_ok hready.valid hmem).2
    have hclient : Role.client ∈ n.roles := by simpa [hasRole] using hrole
    have hmaster : Role.master ∈ n.roles := by simpa [hasRole] using hmaster
    exact nomatch validateComposability_client hroles hclient hmaster
  · exact hne hname

/-! ## The peers of an arrangement -/

section

variable (hready : Ready topo clientName clientPrivateKey masterPublicKeys client)
  (hread : ReadsBack prefixString topo)
  (h : Arranged prefixString topo clientName masters targets)

include hready h

theorem Arranged.masters_ne_nil : masters ≠ [] := by
  rintro rfl
  exact hready.some_master h.masters_perm.symm.eq_nil

theorem mem_allowedIPs_iff {s : String} :
    s ∈ (peersFor prefixString masterPublicKeys masters targets).flatMap (·.allowedIPs) ↔
      ∃ n ∈ reached topo clientName, hostCIDR prefixString n = s := by
  have hne : masters ≠ [] := h.masters_ne_nil hready
  rw [mem_flatMap]
  constructor
  · rintro ⟨p, hp, hs⟩
    obtain ⟨j, hj⟩ := mem_iff_getElem?.mp hp
    exact h.reached_of_atPeer ((atPeer_iff_mem hne).mpr ⟨p, hj, hs⟩)
  · rintro ⟨n, hn, rfl⟩
    obtain ⟨j, hj⟩ := h.atPeer_of_reached hn
    obtain ⟨p, hp, hs⟩ := (atPeer_iff_mem hne).mp hj
    exact ⟨p, mem_of_getElem? hp, hs⟩

theorem own_at_peer {m : NodeV2} (hm : m ∈ declaredMasters topo) :
    ∃ p ∈ peersFor prefixString masterPublicKeys masters targets, p.name = m.name ∧
      hostCIDR prefixString m ∈ p.allowedIPs := by
  obtain ⟨j, hj⟩ := mem_iff_getElem?.mp (h.masters_perm.mem_iff.mpr hm)
  obtain ⟨p, hp, hs⟩ := (atPeer_iff_mem (h.masters_ne_nil hready)).mp (.inl ⟨m, hj, rfl⟩)
  obtain ⟨m', hm', heq, -⟩ := peersFor_getElem? hp
  rw [hj] at hm'
  cases hm'
  exact ⟨p, mem_of_getElem? hp, by rw [heq]; rfl, hs⟩

include hread

theorem covered_iff {a : Addr} :
    (∃ p ∈ peersFor prefixString masterPublicKeys masters targets, ∃ s ∈ p.allowedIPs,
      Covers s a) ↔ ∃ n ∈ reached topo clientName, overlayAddr n = a := by
  constructor
  · rintro ⟨p, hp, s, hs, hcovers⟩
    obtain ⟨n, hn, rfl⟩ :=
      (mem_allowedIPs_iff hready h).mp (mem_flatMap.mpr ⟨p, hp, hs⟩)
    rw [covers_hostCIDR hready.valid hread (mem_reached.mp hn).1] at hcovers
    exact ⟨n, hn, hcovers.symm⟩
  · rintro ⟨n, hn, rfl⟩
    obtain ⟨p, hp, hs⟩ :=
      mem_flatMap.mp ((mem_allowedIPs_iff hready h).mpr ⟨n, hn, rfl⟩)
    exact ⟨p, hp, _, hs, (covers_hostCIDR hready.valid hread (mem_reached.mp hn).1).mpr rfl⟩

theorem disjoint_iff_nodup :
    ((peersFor prefixString masterPublicKeys masters targets).flatMap (·.allowedIPs)).Pairwise
        (fun s t => ∀ a, ¬ (Covers s a ∧ Covers t a)) ↔
      ((peersFor prefixString masterPublicKeys masters targets).flatMap (·.allowedIPs)).Nodup := by
  have hcovers : ∀ {n a}, n ∈ reached topo clientName →
      (Covers (hostCIDR prefixString n) a ↔ a = overlayAddr n) := fun hn =>
    covers_hostCIDR hready.valid hread (mem_reached.mp hn).1
  constructor
  · refine Pairwise.imp_of_mem ?_
    rintro s t hs - hdisjoint rfl
    obtain ⟨n, hn, rfl⟩ := (mem_allowedIPs_iff hready h).mp hs
    exact hdisjoint (overlayAddr n) ⟨(hcovers hn).mpr rfl, (hcovers hn).mpr rfl⟩
  · refine Pairwise.imp_of_mem ?_
    rintro s t hs ht hne a ⟨hsa, hta⟩
    obtain ⟨m, hm, rfl⟩ := (mem_allowedIPs_iff hready h).mp hs
    obtain ⟨n, hn, rfl⟩ := (mem_allowedIPs_iff hready h).mp ht
    refine hne ((hostCIDR_inj hready.valid hread (mem_reached.mp hm).1
      (mem_reached.mp hn).1).mpr ?_)
    exact ((hcovers hm).mp hsa).symm.trans ((hcovers hn).mp hta)

/-! ## Sufficiency -/

theorem partitions_of_separable (hsep : Separable topo clientName) :
    Partitions topo clientName (peersFor prefixString masterPublicKeys masters targets) where
  hosts := by
    intro p hp s hs
    obtain ⟨n, hn, rfl⟩ :=
      (mem_allowedIPs_iff hready h).mp (mem_flatMap.mpr ⟨p, hp, hs⟩)
    exact ⟨overlayAddr n, hread n (mem_reached.mp hn).1⟩
  disjoint := by
    rw [disjoint_iff_nodup hready hread h, nodup_allowedIPs_iff (h.masters_ne_nil hready)]
    intro i j s hi hj
    rw [h.atPeer_iff_peerIndex hsep.masters hsep.targets] at hi hj
    obtain ⟨m, hm, rfl, rfl⟩ := hi
    obtain ⟨n, hn, heq, rfl⟩ := hj
    refine hsep.addresses m hm n hn ?_
    exact (hostCIDR_inj hready.valid hread (mem_reached.mp hm).1 (mem_reached.mp hn).1).mp heq.symm
  union := by
    intro a
    rw [covered_iff hready hread h]
    constructor
    · rintro ⟨n, hn, rfl⟩
      exact ⟨n, mem_others_of_reached hready hn,
        (overlayAddr_spec hready.valid (mem_reached.mp hn).1).1⟩
    · rintro ⟨n, hn, ha⟩
      obtain ⟨m, hm, heq⟩ := hsep.namesakes n hn
      have hspec := (overlayAddr_spec hready.valid (mem_of_mem_eraseP hn)).1
      have haddr : overlayAddr n = a := Option.some.inj (hspec.symm.trans ha)
      exact ⟨m, hm, heq.trans haddr⟩
  own := by
    intro m hm
    obtain ⟨p, hp, hname, hs⟩ := own_at_peer hready h hm
    have hnodes : m ∈ topo.nodes := mem_of_mem_filter hm
    exact ⟨p, hp, hname, _, hs, _, (overlayAddr_spec hready.valid hnodes).1,
      (covers_hostCIDR hready.valid hread hnodes).mpr rfl⟩

end

theorem Arranged.of_perm {nodes : List NodeV2} (hperm : nodes.Perm topo.nodes)
    (h : Arranged prefixString { topo with nodes } clientName masters targets) :
    Arranged prefixString topo clientName masters targets where
  masters_perm := h.masters_perm.trans (hperm.filter _)
  targets_perm := h.targets_perm.trans ((hperm.filter _).map _)
  masters_ordered := h.masters_ordered
  targets_ordered := h.targets_ordered

variable {masters' : List NodeV2}

/-! ## Necessity -/

variable {peers : List Peer}

variable (hready : Ready topo clientName clientPrivateKey masterPublicKeys client)
  (hread : ReadsBack std.prefixString topo) (hpart : Partitions topo clientName peers)
  (horder : OrderFree std topo clientName clientPrivateKey masterPublicKeys peers)

include hready hread hpart horder

omit hread hpart in
theorem OrderFree.peersFor_eq (h : Arranged std.prefixString topo clientName masters targets) :
    peersFor std.prefixString masterPublicKeys masters targets = peers := by
  let std' : Stdlib :=
    { prefixString := std.prefixString
      sortMasters := std.sortMasters.arranging h.masters_perm h.masters_ordered
      sortTargets := std.sortTargets.arranging h.targets_perm h.targets_ordered }
  have hbuild := buildStaticScript_eq_ok.mpr
    ⟨client, hready, Eq.refl (scriptFor std' topo client clientPrivateKey masterPublicKeys)⟩
  have hpeers := horder std' topo.nodes _ rfl (.refl _) hbuild
  rw [scriptFor, (findClientNode_eq_ok hready.found).1] at hpeers
  simpa [std'] using hpeers

theorem peer_unique (h : Arranged std.prefixString topo clientName masters targets)
    (h' : Arranged std.prefixString topo clientName masters' targets') {i j : Nat}
    (hi : AtPeer std.prefixString masters targets i s)
    (hj : AtPeer std.prefixString masters' targets' j s) : i = j := by
  have hne : masters ≠ [] := h.masters_ne_nil hready
  have hpeers := horder.peersFor_eq hready h
  have hnodup := (disjoint_iff_nodup hready hread h).mp (hpeers ▸ hpart.disjoint)
  refine (nodup_allowedIPs_iff hne).mp hnodup i j s hi ?_
  rw [atPeer_iff_mem hne, hpeers, ← horder.peersFor_eq hready h']
  exact (atPeer_iff_mem (h'.masters_ne_nil hready)).mp hj

theorem separable_of_partitions : Separable topo clientName := by
  have h := arranged_sort std topo clientName
  generalize std.sortMasters.sort (declaredMasters topo) = masters at h
  generalize std.sortTargets.sort
    (targetsFor std.prefixString topo (trimSpace clientName)) = targets at h
  have hmasters : ((declaredMasters topo).map (·.name)).Nodup := by
    by_contra hdup
    rw [← (h.masters_perm.map _).nodup_iff] at hdup
    obtain ⟨pre, a, b, post, rfl, hname⟩ := exists_neighbours_of_not_nodup h.masters_ordered hdup
    -- the neighbours change places, and the first one's address with it
    have hswap : Arranged std.prefixString topo clientName (pre ++ b :: a :: post) targets :=
      { h with
        masters_perm := ((Perm.swap a b post).append_left pre).trans h.masters_perm
        masters_ordered := ordered_swap hname h.masters_ordered }
    have hfirst : (pre ++ a :: b :: post)[pre.length]? = some a := by simp
    have hsecond : (pre ++ b :: a :: post)[pre.length + 1]? = some a := by simp
    have heq := peer_unique hready hread hpart horder h hswap (.inl ⟨a, hfirst, rfl⟩)
      (.inl ⟨a, hsecond, rfl⟩)
    omega
  have htargets : (declaredMasters topo).length = 1 ∨
      ((routed topo (trimSpace clientName)).map (·.name)).Nodup := by
    by_contra! hboth
    obtain ⟨hlength, hdup⟩ := hboth
    have hkeys : ¬ (targets.map (·.name)).Nodup := by
      rw [(h.targets_perm.map _).nodup_iff, targetsFor, map_map]
      exact hdup
    obtain ⟨pre, a, b, post, rfl, hname⟩ := exists_neighbours_of_not_nodup h.targets_ordered hkeys
    have hswap : Arranged std.prefixString topo clientName masters (pre ++ b :: a :: post) :=
      { h with
        targets_perm := ((Perm.swap a b post).append_left pre).trans h.targets_perm
        targets_ordered := ordered_swap hname h.targets_ordered }
    have hfirst : (pre ++ a :: b :: post)[pre.length]? = some a := by simp
    have hsecond : (pre ++ b :: a :: post)[pre.length + 1]? = some a := by simp
    have heq := peer_unique hready hread hpart horder h hswap
      (.inr ⟨_, a, hfirst, rfl, rfl⟩) (.inr ⟨_, a, hsecond, rfl, rfl⟩)
    -- neighbours fall to different masters where there are at least two
    have hpos : masters.length ≠ 0 := by simpa using h.masters_ne_nil hready
    have hone : masters.length ≠ 1 := h.masters_perm.length_eq ▸ hlength
    have hmod := Nat.sub_mod_eq_zero_of_mod_eq heq.symm
    rw [Nat.add_sub_cancel_left, Nat.mod_eq_of_lt (by omega)] at hmod
    cases hmod
  refine ⟨?_, hmasters, htargets, ?_⟩
  · intro n hn
    have hnodes : n ∈ topo.nodes := mem_of_mem_eraseP hn
    have hcovered := (hpart.union (overlayAddr n)).mpr
      ⟨n, hn, (overlayAddr_spec hready.valid hnodes).1⟩
    rw [← horder.peersFor_eq hready h, covered_iff hready hread h] at hcovered
    exact hcovered
  · intro m hm n hn heq
    have hcidr := (hostCIDR_inj hready.valid hread (mem_reached.mp hm).1
      (mem_reached.mp hn).1).mpr heq
    refine peer_unique hready hread hpart horder h h
      ((h.atPeer_iff_peerIndex hmasters htargets).mpr ⟨m, hm, rfl, rfl⟩) ?_
    exact (h.atPeer_iff_peerIndex hmasters htargets).mpr ⟨n, hn, hcidr.symm, rfl⟩

end

/-- **The peers of a static client.** -/
theorem static_peers_partition_iff (std : Stdlib) (topo : TopologyV2) (clientName : String)
    (clientPrivateKey : Key) (masterPublicKeys : String → Option Key) (script : StaticScript)
    (hread : ReadsBack std.prefixString topo)
    (h : buildStaticScript std topo clientName clientPrivateKey masterPublicKeys = .ok script) :
    Partitions topo clientName script.peers ∧
        OrderFree std topo clientName clientPrivateKey masterPublicKeys script.peers ↔
      Separable topo clientName := by
  obtain ⟨client, hready, rfl⟩ := buildStaticScript_eq_ok.mp h
  have hname : client.name = trimSpace clientName := (findClientNode_eq_ok hready.found).1
  have harranged := arranged_sort std topo clientName
  constructor
  · rintro ⟨hpart, horder⟩
    exact separable_of_partitions hready hread hpart horder
  · intro hsep
    refine ⟨?_, ?_⟩
    · rw [scriptFor, hname]
      exact partitions_of_separable hready hread harranged hsep
    · intro std' nodes script' hstd hperm hbuild
      obtain ⟨client', hready', rfl⟩ := buildStaticScript_eq_ok.mp hbuild
      have hname' : client'.name = trimSpace clientName := (findClientNode_eq_ok hready'.found).1
      have harranged' := arranged_sort std' { topo with nodes } clientName
      rw [hstd] at harranged'
      rw [scriptFor, scriptFor, hname, hname', hstd]
      replace harranged' := harranged'.of_perm hperm
      have hmasters := eq_of_perm_of_ordered
        (harranged'.masters_perm.trans harranged.masters_perm.symm) harranged'.masters_ordered
        harranged.masters_ordered ((harranged'.masters_perm.map _).nodup_iff.mpr hsep.masters)
      rw [hmasters] at harranged' ⊢
      refine peersFor_congr fun j s => ?_
      rw [harranged.atPeer_iff_peerIndex hsep.masters hsep.targets,
        harranged'.atPeer_iff_peerIndex hsep.masters hsep.targets]

def stableStdlib : Stdlib where
  prefixString := Prefix.string
  sortMasters := Sorter.stable _
  sortTargets := Sorter.stable _

def smallMesh : TopologyV2 where
  mesh := { name := "mesh", overlaySupernet := "172.21.92.0/24" }
  nodes :=
    [{ name := "router", roles := [.client], platform := "MikroTik", overlayIP := "172.21.92.130" },
      { name := "ingress", roles := [.ingress], overlayIP := "172.21.92.20" },
      { name := "master-b", roles := [.master], overlayIP := "172.21.92.3",
        bridgeIP := "198.51.100.11" },
      { name := "egress", roles := [.egress], overlayIP := "172.21.92.34" },
      { name := "master-a", roles := [.master], overlayIP := "172.21.92.2",
        publicIP := "203.0.113.10" }]

def someKeys (_ : String) : Option Key := some (.repeated 7)

theorem static_peers_partition_smallMesh :
    ∃ script,
      buildStaticScript stableStdlib smallMesh "router" (.repeated 1) someKeys = .ok script ∧
      script.peers.map (·.allowedIPs) =
        [["172.21.92.2/32", "172.21.92.34/32"], ["172.21.92.20/32", "172.21.92.3/32"]] ∧
      Partitions smallMesh "router" script.peers := by
  obtain ⟨script, h, hips⟩ : ∃ script,
      buildStaticScript stableStdlib smallMesh "router" (.repeated 1) someKeys = .ok script ∧
        script.peers.map (·.allowedIPs) =
          [["172.21.92.2/32", "172.21.92.34/32"], ["172.21.92.20/32", "172.21.92.3/32"]] :=
    ⟨_, rfl, rfl⟩
  have hsep : Separable smallMesh "router" := ⟨by decide, by decide, by decide, by decide⟩
  have hread : ReadsBack Prefix.string smallMesh := by
    show ∀ n ∈ smallMesh.nodes, _
    decide
  exact ⟨script, h, hips,
    ((static_peers_partition_iff stableStdlib smallMesh "router" _ _ script hread h).mpr hsep).1⟩

def twoSpellings : TopologyV2 where
  mesh := { name := "mesh", overlaySupernet := "fd00::/16" }
  nodes :=
    [{ name := "router", roles := [.client], overlayIP := "fd00::9" },
      { name := "master-a", roles := [.master], overlayIP := "fd00::1",
        publicIP := "203.0.113.10" },
      { name := "master-b", roles := [.master], overlayIP := "fd00::2",
        publicIP := "203.0.113.11" },
      { name := "egress", roles := [.egress], overlayIP := "fd00::10" },
      { name := "ingress", roles := [.ingress], overlayIP := "fd00:0::10" }]

/-- The validator takes the two spellings for two addresses. -/
theorem one_address_at_two_peers :
    ∃ script,
      buildStaticScript stableStdlib twoSpellings "router" (.repeated 1) someKeys = .ok script ∧
      script.peers.map (·.allowedIPs) =
        [["fd00::1/128", "fd00::10/128"], ["fd00::10/128", "fd00::2/128"]] ∧
      ¬ Partitions twoSpellings "router" script.peers := by
  obtain ⟨script, h, hips⟩ : ∃ script,
      buildStaticScript stableStdlib twoSpellings "router" (.repeated 1) someKeys = .ok script ∧
        script.peers.map (·.allowedIPs) =
          [["fd00::1/128", "fd00::10/128"], ["fd00::10/128", "fd00::2/128"]] :=
    ⟨_, rfl, rfl⟩
  refine ⟨script, h, hips, fun hpart => ?_⟩
  have hdisjoint := hpart.disjoint
  rw [flatMap_def, hips] at hdisjoint
  have hcovers : ∃ a, Covers "fd00::10/128" a := by
    obtain ⟨p, hp, hin⟩ : ∃ p, parsePrefix "fd00::10/128" = some p ∧ p.contains p.addr = true :=
      ⟨_, rfl, rfl⟩
    exact ⟨p.addr, p, hp, hin⟩
  obtain ⟨a, ha⟩ := hcovers
  have hsecond := (pairwise_cons.mp (pairwise_cons.mp hdisjoint).2).1
  exact hsecond "fd00::10/128" (by simp) a ⟨ha, ha⟩

end AwgMesh.Mikrotik
