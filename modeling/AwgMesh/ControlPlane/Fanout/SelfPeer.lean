import AwgMesh.ControlPlane.Fanout.Seen
import AwgMesh.ControlPlane.Server.Owners

/-! # Is a node its own peer? -/

namespace AwgMesh.ControlPlane

open Lib

variable {δ : Type} {now : Time} {s t s' : Plane δ}

def Registry.DistinctKeys (r : Registry) : Prop :=
  ∀ {m n : String} {a b}, r.byName[m]? = some a → r.byName[n]? = some b → a.pubkey ≠ [] →
    a.pubkey = b.pubkey → m = n

/-! ## Who is on a peer list -/

section Peers

variable {r : Registry} {l : Ledger} {subject name : String} {version : Nat}

theorem mem_peerNames_iff (hl : l.WF) :
    name ∈ (buildPeerListUpdate r subject l.snapshot version).peers.map (·.peerName) ↔
      l.Shows (subjectOverlay r subject) name := by
  have hnames : (buildPeerListUpdate r subject l.snapshot version).peers.map (·.peerName) =
      (groupByMaster (subjectOverlay r subject) l.snapshot).map Prod.fst := by
    simp [buildPeerListUpdate, Function.comp_def]
  rw [hnames, mem_owners_groupByMaster]
  constructor
  · rintro ⟨e, he, hremote, hown⟩
    exact ⟨e.overlayIP, e, hl.mem_snapshot.mp he, hown, (isRemote_iff hl he).mp hremote⟩
  · rintro ⟨k, e, he, hown, hne⟩
    have hmem : e ∈ l.snapshot := Ledger.mem_snapshot.mpr ⟨k, he⟩
    refine ⟨e, hmem, (isRemote_iff hl hmem).mpr ?_, hown⟩
    rwa [hl.keyed he]

theorem peerPubkey_of_mem {p : PeerEntry}
    (hp : p ∈ (buildPeerListUpdate r subject l.snapshot version).peers) (hkey : p.peerPubkey ≠ []) :
    ∃ node, r.byName[p.peerName]? = some node ∧ node.pubkey = p.peerPubkey := by
  obtain ⟨g, -, rfl⟩ := List.mem_map.mp hp
  have hview : (peerEntry r g.1 g.2).peerPubkey = (peerIdentity r.byName[g.1]?).1 :=
    congrArg PeerView.pubkey peerEntry_view
  rw [hview] at hkey ⊢
  rw [peerEntry_peerName]
  cases hnode : r.byName[g.1]? with
  | none => rw [hnode] at hkey; exact absurd rfl hkey
  | some node => exact ⟨node, rfl, rfl⟩

end Peers

/-- No peer has the name of the subject, or its key if keys are distinct. -/
def NoSelfPeer (s : Plane δ) (subject : String) (node : RegisteredNode) (version : Nat) : Prop :=
  ∀ p ∈ (buildPeerListUpdate s.registry subject s.ledger.snapshot version).peers,
    p.peerName ≠ subject ∧ (s.registry.DistinctKeys → node.pubkey ≠ [] → p.peerPubkey ≠ node.pubkey)

variable {subject : String} {node : RegisteredNode}

theorem noSelfPeer_iff_name {version : Nat} (hnode : s.registry.byName[subject]? = some node) :
    NoSelfPeer s subject node version ↔
      subject ∉ (buildPeerListUpdate s.registry subject s.ledger.snapshot version).peers.map
        (·.peerName) := by
  constructor
  · intro h hmem
    obtain ⟨p, hp, hname⟩ := List.mem_map.mp hmem
    exact (h p hp).1 hname
  · intro hno p hp
    have hname : p.peerName ≠ subject := by
      intro heq
      exact hno (List.mem_map.mpr ⟨p, hp, heq⟩)
    refine ⟨hname, ?_⟩
    intro hdistinct hkey heq
    rw [← heq] at hkey
    obtain ⟨x, hx, hxkey⟩ := peerPubkey_of_mem hp hkey
    rw [← hxkey] at hkey
    exact hname (hdistinct hx hnode hkey (hxkey.trans heq))

variable {r : Registry}

/-! ## Nodes that are never masters

Overlays are given to masters only, so what keeps a node from owning any is that it is not
registered as a master, and never was. -/

def Call.makesMaster (n : String) : Call δ → Bool
  | .registerNode _ _ req => req.nodeName = n && req.node.isMaster
  | .selfRegister _ node => node.name = n && node.isMaster
  | _ => false

structure NoOwner (n : String) (s : Plane δ) : Prop where
  record : ¬ s.registry.HasMaster n
  ledger : ¬ s.ledger.Owns n

namespace NoOwner

variable {n : String}

theorem written {node : RegisteredNode} {reason : String} (h : NoOwner n s)
    (hnode : node.name = n → node.isMaster = false) : NoOwner n (s.written now node reason) := by
  constructor
  · show ¬ (s.registry.store _).HasMaster n
    rw [hasMaster_store, Registry.recorded_name, Registry.recorded_isMaster]
    split
    · next hname => simp [hnode hname]
    · exact h.record
  · intro hown
    rcases hown.of_written with ⟨hm, rfl⟩ | hold
    · rw [hnode rfl] at hm
      cases hm
    · exact h.ledger hold

theorem keeps (n : String) : Keeps δ (¬ ·.HasMaster n) (¬ ·.Owns n) where
  seeded hseed hr hl hown := (hseed.of_owns hown).elim hl fun hsingle => hr hsingle.hasMaster
  without hr hm := hr (hasMaster_without.mp hm).2
  modify hold hroles hr hm := hr ((hasMaster_modify hold hroles).mp hm)
  drained hdrain hr hl hown := (hdrain.of_owns hown).2.elim hr hl

theorem after (hs : s.WF) (h : NoOwner n s) {call : Call δ} (hcall : call.makesMaster n = false) :
    NoOwner n (call.after s) := by
  have hwritten : ∀ {now node} reason, call.Stores now node →
      NoOwner n (s.written now node reason) := by
    intro now node reason hstores
    apply h.written
    cases call <;> obtain ⟨-, rfl⟩ := hstores <;> simp [Call.makesMaster] at hcall
    all_goals exact hcall
  have hkept := (Call.after_outcome hs call).keeps (keeps n) h.record h.ledger
    fun reason hstores => ⟨(hwritten reason hstores).record, (hwritten reason hstores).ledger⟩
  exact ⟨hkept.1, hkept.2⟩

end NoOwner

theorem NoOwner.init (n : String) (world : δ) : NoOwner n (server world).init := by
  constructor
  · rintro ⟨node, hnode, -⟩
    cases hnode
  · rintro ⟨k, e, he, -⟩
    cases he

variable {calls : List (Call δ)}

theorem noOwner_throughout {n : String} (world : δ)
    (hcalls : ∀ call ∈ calls, call.makesMaster n = false) :
    (server world).Throughout (fun s => s.WF ∧ NoOwner n s) (server world).init calls := by
  have halong : (server world).Along (fun _ call => call.makesMaster n = false)
      (server world).init calls :=
    Machine.along_of_forall (fun call hcall _ => hcalls call hcall) _
  refine Machine.throughout_of_along (J := fun _ => True) (fun _ _ => trivial) ?_ trivial
    ⟨Plane.WF.init world, NoOwner.init n world⟩ halong
  intro s call t _ h hcall hstep
  cases hstep
  exact ⟨h.1.after call, h.2.after h.1 hcall⟩

/-! ## Its own peer -/

/-- **When a node is not its own peer**. -/
theorem no_self_peer_iff {world : δ} (hreach : (server world).Reachable s) {subject : String}
    {node : RegisteredNode} (hnode : s.registry.byName[subject]? = some node) (version : Nat) :
    NoSelfPeer s subject node version ↔ ¬ s.ledger.Shows node.overlayIP subject := by
  have hs : s.WF := Plane.WF.of_reachable hreach
  rw [noSelfPeer_iff_name hnode, mem_peerNames_iff hs.ledger, subjectOverlay, Registry.lookup,
    hnode]

theorem no_self_peer_of_never_master (world : δ)
    (hcalls : ∀ call ∈ calls, call.makesMaster subject = false) :
    (server world).Throughout
      (fun s => ∀ node, s.registry.byName[subject]? = some node →
        ∀ version, NoSelfPeer s subject node version) (server world).init calls := by
  apply (noOwner_throughout world hcalls).imp
  rintro s ⟨hs, hno⟩ node hnode version
  rw [noSelfPeer_iff_name hnode, mem_peerNames_iff hs.ledger]
  rintro ⟨k, e, he, hown, -⟩
  exact hno.ledger ⟨k, e, he, hown⟩

/-! ## A master and its client -/

def masterAndClient : List (Call Unit) :=
  [.registerNode 1 none
      { nodeName := "m", roles := ["master", "egress"], nodeCertPem := [1]
        overlayIp := "10.0.0.1", pubkey := [7] }, .registerNode 2 none
      { nodeName := "c", roles := ["client"], nodeCertPem := [2]
        overlayIp := "10.0.0.2", pubkey := [8] }]

theorem no_self_peer_of_never_master_client :
    (∀ call ∈ masterAndClient, call.makesMaster "c" = false) ∧
      (server ()).Throughout
        (fun s => ∀ node, s.registry.byName["c"]? = some node →
          ∀ version, NoSelfPeer s "c" node version) (server ()).init masterAndClient :=
  ⟨by decide, no_self_peer_of_never_master () (by decide)⟩

def withClient : Plane Unit := masterAndClient.foldl Call.after (server ()).init

theorem withClient_reachable : (server ()).Reachable withClient := ⟨masterAndClient, rfl⟩

/-- The client is not on its own list. -/
theorem no_self_peer_client :
    ∃ node, withClient.registry.byName["c"]? = some node ∧ node.overlayIP = "10.0.0.2" ∧
      NoSelfPeer withClient "c" node 2 := by
  have hnode : (withClient.registry.byName["c"]?).map (·.overlayIP) = some "10.0.0.2" := by decide
  obtain ⟨node, hnode, hov⟩ := Option.map_eq_some_iff.mp hnode
  refine ⟨node, hnode, hov, (no_self_peer_iff withClient_reachable hnode 2).mpr ?_⟩
  rintro ⟨k, e, he, hown, -⟩
  have hothers : ∀ e ∈ withClient.ledger.snapshot, e.owningMaster ≠ "c" := by decide
  exact hothers e (Ledger.mem_snapshot.mpr ⟨k, he⟩) hown

theorem Registry.WF.distinctKeys (hr : r.WF)
    (h : ∀ a ∈ r.list, ∀ b ∈ r.list, a.pubkey ≠ [] → a.pubkey = b.pubkey → a.name = b.name) :
    r.DistinctKeys := by
  intro m n a b ha hb hkey heq
  rw [← (hr.named ha).1, ← (hr.named hb).1]
  exact h a (OMap.mem_vals.mpr ⟨m, ha⟩) b (OMap.mem_vals.mpr ⟨n, hb⟩) hkey heq

/-- The master is: its key, with a route for the client's overlay, although keys are distinct. -/
theorem master_is_its_own_peer :
    ∃ node, withClient.registry.byName["m"]? = some node ∧ withClient.registry.DistinctKeys ∧
      node.pubkey ≠ [] ∧ ¬ NoSelfPeer withClient "m" node 2 ∧
      ∃ p ∈ (buildPeerListUpdate withClient.registry "m" withClient.ledger.snapshot 2).peers,
        p.peerName = "m" ∧ p.peerPubkey = node.pubkey ∧ p.allowedIps = ["10.0.0.2/32"] := by
  have hnode : (withClient.registry.byName["m"]?).map (·.pubkey) = some [7] := by decide
  obtain ⟨node, hnode, hkey⟩ := Option.map_eq_some_iff.mp hnode
  have hpeer : ∃ p ∈
      (buildPeerListUpdate withClient.registry "m" withClient.ledger.snapshot 2).peers,
      p.peerName = "m" ∧ p.peerPubkey = [7] ∧ p.allowedIps = ["10.0.0.2/32"] := by decide
  have hs : withClient.WF := Plane.WF.of_reachable withClient_reachable
  rw [← hkey] at hpeer
  refine ⟨node, hnode, hs.registry.distinctKeys (by decide), by simp [hkey], ?_, hpeer⟩
  obtain ⟨p, hp, hname, -⟩ := hpeer
  intro h
  exact (h p hp).1 hname

end AwgMesh.ControlPlane
