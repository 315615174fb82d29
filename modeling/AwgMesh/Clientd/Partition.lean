import AwgMesh.Clientd.PeerReload
import AwgMesh.ControlPlane.Fanout.Seen

/-! # Allowed IPs from the ledger to the client -/

namespace AwgMesh.Clientd

open Lib ControlPlane Net List
open Net (IP IPNet)

def Disjoint (m n : IPNet) : Prop := ∀ ip, ¬ (m.contains ip = true ∧ n.contains ip = true)

/-- The allowed IPs of the peers partition the addresses in the ledger but the own one. -/
def Partitions (l : Ledger) (own : String) (peers : List ControlPlane.PeerEntry) : Prop :=
  (peers.map (·.peerName)).Nodup ∧ ∃ nets : ControlPlane.PeerEntry → List IPNet,
      (∀ p ∈ peers, parseAllowedIPs p.allowedIps = .ok (nets p)) ∧
      (∀ n ∈ peers.flatMap nets, ∃ e ∈ l.snapshot, ∃ a,
        address e.overlayIP = some a ∧ n.IsHost a) ∧ (peers.flatMap nets).Pairwise Disjoint ∧
      ∀ ip : IP, (∃ n ∈ peers.flatMap nets, n.contains ip) ↔
        ∃ e ∈ l.snapshot, ∃ a, address e.overlayIP = some a ∧ address own ≠ some a ∧
          ip.to4 = some a

/-! ## One overlay -/

def allowedNet (value : String) : IPNet :=
  (parseCIDR value).getD (hostNet 0)

section Overlay

variable {o : String}

theorem allowedNet_dotted (h : isDottedQuad o = true) {a : BitVec 32}
    (ha : address o = some a) : allowedNet (o ++ "/32") = hostNet a := by
  obtain ⟨bits, hbits⟩ := isDottedQuad_iff.mp h
  rw [address_of_parseAddr hbits] at ha
  cases ha
  rw [allowedNet, parseCIDR_dotted hbits]
  rfl

theorem not_isHost_allowedNet_mapped (h : isMapped o = true) (a : BitVec 32) :
    ¬ (allowedNet (o ++ "/32")).IsHost a := by
  rw [allowedNet, parseCIDR_mapped h]
  exact not_isHost_mapped a

theorem parseAllowedIP_overlay (h : isIPv4 o = true) :
    parseAllowedIP (o ++ "/32") = .ok (some (allowedNet (o ++ "/32"))) := by
  obtain ⟨a, ha⟩ := isIPv4_iff.mp h
  obtain ⟨ip, hip, -⟩ := Option.bind_eq_some_iff.mp ha
  have htrim : trimSpace (o ++ "/32") = o ++ "/32" := by
    apply trimSpace_eq_self
    intro c hc
    rw [String.toList_append, mem_append] at hc
    rcases hc with hc | hc
    · exact not_isSpace_of_isAddrChar (parseIP_chars hip c hc)
    · have hsuffix : "/32".toList = ['/', '3', '2'] := by decide
      rw [hsuffix] at hc
      simp only [mem_cons, not_mem_nil, or_false] at hc
      rcases hc with rfl | rfl | rfl <;> decide
  have hne : o ++ "/32" ≠ "" := by
    intro heq
    have := congrArg String.toList heq
    simp at this
  have hcidr : ∃ n, parseCIDR (o ++ "/32") = some n := by
    cases hdot : isDottedQuad o with
    | true =>
      obtain ⟨bits, hbits⟩ := isDottedQuad_iff.mp hdot
      exact ⟨_, parseCIDR_dotted hbits⟩
    | false => exact ⟨_, parseCIDR_mapped (by simp [isMapped, h, hdot])⟩
  obtain ⟨n, hn⟩ := hcidr
  unfold parseAllowedIP
  dsimp only
  rw [htrim, if_neg hne, hn, allowedNet, hn]
  rfl

end Overlay

theorem parseAllowedIPs_eq_map {values : List String}
    (h : ∀ v ∈ values, parseAllowedIP v = .ok (some (allowedNet v))) :
    parseAllowedIPs values = .ok (values.map allowedNet) := by
  induction values with
  | nil => rfl
  | cons v rest ih =>
    obtain ⟨hv, hrest⟩ := forall_mem_cons.mp h
    rw [parseAllowedIPs, hv, ih hrest]
    rfl

/-! ## All of them -/

section Ledger

variable {l : Ledger} {own : String} {e : ControlPlane.OwnershipEntry}

def remoteNets (l : Ledger) (own : String) : List IPNet :=
  (l.snapshot.filter (isRemote own)).map fun e => allowedNet (e.overlayIP ++ "/32")

theorem mem_remote (hl : l.WF) :
    e ∈ l.snapshot.filter (isRemote own) ↔ e ∈ l.snapshot ∧ e.overlayIP ≠ own := by
  rw [mem_filter]
  exact and_congr_right fun he => isRemote_iff hl he

theorem nets_perm (hl : l.WF) {peers : List ControlPlane.PeerEntry}
    (hvalues : (peers.flatMap (·.allowedIps)).Perm
      ((l.snapshot.filter (isRemote own)).map (·.overlayIP ++ "/32"))) :
    (∀ p ∈ peers, parseAllowedIPs p.allowedIps = .ok (p.allowedIps.map allowedNet)) ∧
      ∀ nets : ControlPlane.PeerEntry → List IPNet,
        (∀ p ∈ peers, parseAllowedIPs p.allowedIps = .ok (nets p)) →
          (peers.flatMap nets).Perm (remoteNets l own) := by
  have hparse : ∀ p ∈ peers, parseAllowedIPs p.allowedIps = .ok (p.allowedIps.map allowedNet) := by
    intro p hp
    apply parseAllowedIPs_eq_map
    intro v hv
    obtain ⟨e, he, rfl⟩ := mem_map.mp
      (hvalues.mem_iff.mp (mem_flatMap.mpr ⟨p, hp, hv⟩))
    exact parseAllowedIP_overlay (hl.ipv4 (hl.mem_snapshot.mp (mem_of_mem_filter he)))
  refine ⟨hparse, ?_⟩
  intro nets hall
  have heq : peers.flatMap nets = (peers.flatMap (·.allowedIps)).map allowedNet := by
    rw [map_flatMap]
    apply flatMap_congr
    intro p hp
    exact Except.ok.inj ((hall p hp).symm.trans (hparse p hp))
  rw [heq]
  have hmapped := hvalues.map allowedNet
  rwa [map_map] at hmapped

theorem Disjoint.symm {m n : IPNet} (h : Disjoint m n) : Disjoint n m :=
  fun ip hip => h ip hip.symm

theorem partitions_iff (hl : l.WF) (r : Registry) (subject : String) (version : Nat) :
    Partitions l (subjectOverlay r subject)
        (buildPeerListUpdate r subject l.snapshot version).peers ↔
      (∀ n ∈ remoteNets l (subjectOverlay r subject), ∃ e ∈ l.snapshot, ∃ a,
        address e.overlayIP = some a ∧ n.IsHost a) ∧
      (remoteNets l (subjectOverlay r subject)).Pairwise Disjoint ∧
      ∀ ip : IP, (∃ n ∈ remoteNets l (subjectOverlay r subject), n.contains ip) ↔
        ∃ e ∈ l.snapshot, ∃ a, address e.overlayIP = some a ∧
          address (subjectOverlay r subject) ≠ some a ∧ ip.to4 = some a := by
  obtain ⟨hnames, hvalues⟩ := peers_partition r subject l.snapshot version
  obtain ⟨hparse, hnets⟩ := nets_perm hl hvalues
  constructor
  · rintro ⟨-, nets, hall, hhost, hdisj, hcover⟩
    have hp := hnets nets hall
    refine ⟨fun n hn => hhost n (hp.mem_iff.mpr hn), (hp.pairwise_iff Disjoint.symm).mp hdisj, ?_⟩
    intro ip
    rw [← hcover ip]
    simp only [hp.mem_iff]
  · rintro ⟨hhost, hdisj, hcover⟩
    have hp := hnets (fun p => p.allowedIps.map allowedNet) hparse
    refine ⟨hnames, fun p => p.allowedIps.map allowedNet, hparse, ?_, ?_, ?_⟩
    · exact fun n hn => hhost n (hp.mem_iff.mp hn)
    · exact (hp.pairwise_iff Disjoint.symm).mpr hdisj
    · intro ip
      rw [← hcover ip]
      simp only [hp.mem_iff]

theorem isHost_allowedNet (hl : l.WF) (he : e ∈ l.snapshot)
    (hmapped : isMapped e.overlayIP = false) :
    ∃ a, address e.overlayIP = some a ∧ allowedNet (e.overlayIP ++ "/32") = hostNet a := by
  have hip := hl.ipv4 (hl.mem_snapshot.mp he)
  obtain ⟨a, ha⟩ := isIPv4_iff.mp hip
  exact ⟨a, ha, allowedNet_dotted (isDottedQuad_of_not_isMapped hmapped hip) ha⟩

theorem mem_remoteNets (hl : l.WF) {n : IPNet} :
    n ∈ remoteNets l own ↔
      ∃ e ∈ l.snapshot, e.overlayIP ≠ own ∧ allowedNet (e.overlayIP ++ "/32") = n := by
  simp only [remoteNets, mem_map, mem_remote hl, and_assoc]

section Dotted

variable (hl : l.WF)
  (hdotted : ∀ e ∈ l.snapshot, e.overlayIP ≠ own → isMapped e.overlayIP = false)

include hl hdotted

theorem isHost_of_mem_remoteNets {n : IPNet} (hn : n ∈ remoteNets l own) :
    ∃ e ∈ l.snapshot, ∃ a, address e.overlayIP = some a ∧ n.IsHost a := by
  obtain ⟨e, he, hne, rfl⟩ := (mem_remoteNets hl).mp hn
  obtain ⟨a, ha, hnet⟩ := isHost_allowedNet hl he (hdotted e he hne)
  exact ⟨e, he, a, ha, hnet ▸ isHost_hostNet a⟩

theorem pairwise_remoteNets : (remoteNets l own).Pairwise Disjoint := by
  have hstrings : (l.snapshot.filter (isRemote own)).Pairwise
      (fun e e' => e.overlayIP ≠ e'.overlayIP) :=
    pairwise_map.mp ((OMap.nodup_map_vals hl.keyed).sublist (filter_sublist.map _))
  rw [remoteNets, pairwise_map]
  apply hstrings.imp_of_mem
  intro e e' he he' hne
  obtain ⟨hmem, hown⟩ := (mem_remote hl).mp he
  obtain ⟨hmem', hown'⟩ := (mem_remote hl).mp he'
  have hmapped := hdotted e hmem hown
  have hmapped' := hdotted e' hmem' hown'
  obtain ⟨a, ha, hnet⟩ := isHost_allowedNet hl hmem hmapped
  obtain ⟨a', ha', hnet'⟩ := isHost_allowedNet hl hmem' hmapped'
  rw [hnet, hnet']
  rintro ip ⟨hin, hin'⟩
  have hsame := ((isHost_hostNet a ip).mp hin).symm.trans ((isHost_hostNet a' ip).mp hin')
  apply hne
  exact eq_of_address_eq
    (isDottedQuad_of_not_isMapped hmapped (hl.ipv4 (hl.mem_snapshot.mp hmem)))
    (isDottedQuad_of_not_isMapped hmapped' (hl.ipv4 (hl.mem_snapshot.mp hmem')))
    (by rw [ha, ha', hsame])

theorem covered_remoteNets (ip : IP) :
    (∃ n ∈ remoteNets l own, n.contains ip = true) ↔
      ∃ e ∈ l.snapshot, e.overlayIP ≠ own ∧ ∃ a, address e.overlayIP = some a ∧
        ip.to4 = some a := by
  constructor
  · rintro ⟨n, hn, hin⟩
    obtain ⟨e, he, hne, rfl⟩ := (mem_remoteNets hl).mp hn
    obtain ⟨a, ha, hnet⟩ := isHost_allowedNet hl he (hdotted e he hne)
    rw [hnet, isHost_hostNet a ip] at hin
    exact ⟨e, he, hne, a, ha, hin⟩
  · rintro ⟨e, he, hne, a, ha, hip⟩
    obtain ⟨a', ha', hnet⟩ := isHost_allowedNet hl he (hdotted e he hne)
    rw [ha] at ha'
    cases ha'
    refine ⟨_, (mem_remoteNets hl).mpr ⟨e, he, hne, rfl⟩, ?_⟩
    rw [hnet, isHost_hostNet a ip]
    exact hip

end Dotted

end Ledger

/-- **The allowed IPs partition the ledger's addresses exactly when** no entry besides the subject's
own is in IPv6 notation or denotes the subject's own address. -/
theorem allowedIPs_partition_iff {l : Ledger} (hreach : ledgerRuns.Reachable l) (r : Registry)
    (subject : String) (version : Nat) :
    Partitions l (subjectOverlay r subject)
        (buildPeerListUpdate r subject l.snapshot version).peers ↔
      ∀ e ∈ l.snapshot, e.overlayIP ≠ subjectOverlay r subject → isMapped e.overlayIP = false ∧
          address e.overlayIP ≠ address (subjectOverlay r subject) := by
  have hl := Ledger.WF.of_reachable hreach
  rw [partitions_iff hl]
  generalize subjectOverlay r subject = own
  constructor
  · rintro ⟨hhost, -, hcover⟩
    have hdotted : ∀ e ∈ l.snapshot, e.overlayIP ≠ own → isMapped e.overlayIP = false := by
      intro e he hne
      by_contra hm
      obtain ⟨-, -, a, -, ha⟩ := hhost _ ((mem_remoteNets hl).mpr ⟨e, he, hne, rfl⟩)
      exact not_isHost_allowedNet_mapped (by simpa using hm) a ha
    intro e he hne
    refine ⟨hdotted e he hne, ?_⟩
    -- the address of the entry is covered, so it is not that of `own`
    obtain ⟨a, ha, -⟩ := isHost_allowedNet hl he (hdotted e he hne)
    have hcovered := (covered_remoteNets hl hdotted (.four a)).mpr ⟨e, he, hne, a, ha, rfl⟩
    obtain ⟨-, -, a', -, hother, hsame⟩ := (hcover (.four a)).mp hcovered
    cases hsame
    rw [ha]
    exact hother.symm
  · intro h
    have hdotted : ∀ e ∈ l.snapshot, e.overlayIP ≠ own → isMapped e.overlayIP = false :=
      fun e he hne => (h e he hne).1
    refine ⟨fun n => isHost_of_mem_remoteNets hl hdotted, pairwise_remoteNets hl hdotted, ?_⟩
    intro ip
    rw [covered_remoteNets hl hdotted ip]
    constructor
    · rintro ⟨e, he, hne, a, ha, hip⟩
      exact ⟨e, he, a, ha, fun hsame => (h e he hne).2 (ha.trans hsame.symm), hip⟩
    · rintro ⟨e, he, a, ha, hother, hip⟩
      exact ⟨e, he, fun heq => hother (heq ▸ ha), a, ha, hip⟩

def ledgerOf (overlays : List String) : Ledger :=
  overlays.foldl (fun l o => LedgerStep.after l ⟨1, .reassign o "" "m" "register" false⟩) {}

def clientRegistry : Registry :=
  Registry.store {} { name := "c", roles := [.client], overlayIP := "10.0.0.2", nodeCertPEM := [1] }

/-- Three dotted overlays, one of them the subject's own. -/
theorem allowedIPs_partition_dotted :
    Partitions (ledgerOf ["10.0.0.1", "10.0.0.2", "10.0.0.3"]) "10.0.0.2"
      (buildPeerListUpdate clientRegistry "c"
        (ledgerOf ["10.0.0.1", "10.0.0.2", "10.0.0.3"]).snapshot 3).peers := by
  have hreach : ledgerRuns.Reachable (ledgerOf ["10.0.0.1", "10.0.0.2", "10.0.0.3"]) :=
    ⟨["10.0.0.1", "10.0.0.2", "10.0.0.3"].map fun o => ⟨1, .reassign o "" "m" "register" false⟩,
      rfl⟩
  exact (allowedIPs_partition_iff hreach clientRegistry "c" 3).mpr (by decide)

/-- A master registered as `::ffff:10.0.0.1` comes out as the network `::/32`. -/
theorem allowedIPs_not_partition_mapped :
    ledgerRuns.Reachable (ledgerOf ["::ffff:10.0.0.1"]) ∧ parseAllowedIPs
        ((buildPeerListUpdate {} "c" (ledgerOf ["::ffff:10.0.0.1"]).snapshot 1).peers.flatMap
          (·.allowedIps)) = .ok [{ ip := .sixteen 0, mask := .sixteen 32 }] ∧
      ¬ Partitions (ledgerOf ["::ffff:10.0.0.1"]) (subjectOverlay {} "c")
        (buildPeerListUpdate {} "c" (ledgerOf ["::ffff:10.0.0.1"]).snapshot 1).peers := by
  have hreach : ledgerRuns.Reachable (ledgerOf ["::ffff:10.0.0.1"]) :=
    ⟨[⟨1, .reassign "::ffff:10.0.0.1" "" "m" "register" false⟩], rfl⟩
  refine ⟨hreach, by decide, ?_⟩
  rw [partitions_iff (Ledger.WF.of_reachable hreach)]
  rintro ⟨hhost, -, -⟩
  obtain ⟨-, -, a, -, ha⟩ := hhost (allowedNet ("::ffff:10.0.0.1" ++ "/32")) (by decide)
  exact not_isHost_allowedNet_mapped (by decide) a ha

end AwgMesh.Clientd
