import AwgMesh.Text
import AwgMesh.ControlPlane.Server.Rollback

/-!
# The master's mesh device

`pkg/node/master_v2.go`: a master that runs the coordination endpoint keeps its mesh device in step
with the registry through the registration observer, which adds the peer of every node that
registers or heartbeats with a usable identity.
-/

namespace AwgMesh.Wg

open Lib

abbrev Device := OMap Bytes (List (BitVec 128))

structure PeerConfig where
  publicKey : Bytes
  replaceAllowedIPs : Bool
  allowedIPs : List (BitVec 128)

namespace Device

def addPeer (dev : Device) (peer : PeerConfig) : Device :=
  let dev := dev.map fun _ ips => ips.filter (· ∉ peer.allowedIPs)
  let kept := if peer.replaceAllowedIPs then [] else dev[peer.publicKey]?.getD []
  dev.insert peer.publicKey (kept ++ peer.allowedIPs)

theorem getElem?_addPeer_host {dev : Device} {key k : Bytes} {host : BitVec 128} :
    (dev.addPeer { publicKey := key, replaceAllowedIPs := true, allowedIPs := [host] })[k]? =
      if key = k then some [host] else dev[k]?.map (List.filter (· ≠ host)) := by
  unfold addPeer
  dsimp only
  rw [OMap.getElem?_insert, Std.ExtTreeMap.getElem?_map]
  simp

end Device

end AwgMesh.Wg

namespace AwgMesh.Node

open Lib ControlPlane Wg

structure Env where
  quote : String → String
  parseAddrError : String → String
  /-- `net.ResolveUDPAddr("udp", endpoint)`. -/
  resolveUDPAddr : String → Except String Unit

inductive MeshPeerError where
  | keyLength (name : String) (length : Nat)
  | overlay (name overlayIP : String)
  | endpoint (name endpointHost err : String)

def MeshPeerError.message (env : Env) : MeshPeerError → String
  | .keyLength name length =>
    "registered peer " ++ env.quote name ++ " public key length = " ++ toString length ++
      ", want 32"
  | .overlay name overlayIP =>
    "parse registered peer " ++ env.quote name ++ " overlay IP " ++ env.quote overlayIP ++ ": " ++
      env.parseAddrError (trimSpace overlayIP)
  | .endpoint name endpointHost err =>
    "parse registered peer " ++ env.quote name ++ " endpoint " ++ env.quote endpointHost ++
      ": " ++ err

def parseMasterOverlayAddress (value : String) : Option (BitVec 128) :=
  (Net.parseAddr (trimSpace value)).map Net.Addr.as16

def protocolAmneziaWG : String := "amneziawg"

def applyRegisteredMeshPeer (env : Env) (masterName : String) (node : RegisteredNode)
    (listener : Device) : Device × Except MeshPeerError Unit :=
  if node.name = "" || node.name = masterName then (listener, .ok ())
  else if node.isMaster then (listener, .ok ())
  else if node.protocol ≠ "" && node.protocol ≠ protocolAmneziaWG then (listener, .ok ())
  else if node.pubkey = [] then (listener, .ok ())
  else if node.pubkey.length ≠ 32 then
    (listener, .error (.keyLength node.name node.pubkey.length))
  else match parseMasterOverlayAddress node.overlayIP with
    | none => (listener, .error (.overlay node.name node.overlayIP))
    | some peerOverlay =>
      let peer : PeerConfig :=
        { publicKey := node.pubkey, replaceAllowedIPs := true, allowedIPs := [peerOverlay] }
      let endpoint := trimSpace node.endpointHost
      if endpoint ≠ "" then
        match env.resolveUDPAddr endpoint with
        | .error err => (listener, .error (.endpoint node.name node.endpointHost err))
        | .ok () => (listener.addPeer peer, .ok ())
      else (listener.addPeer peer, .ok ())

def meshObserver (env : Env) (masterName : String) : Observer Device := fun node listener =>
  match applyRegisteredMeshPeer env masterName node listener with
  | (listener, .error err) => (listener, .error (err.message env))
  | (listener, .ok ()) => (listener, .ok ())

/-! ## The running master -/

/-- What of `MasterConfig` reaches the registry. -/
structure MasterConfig where
  name : String
  overlayIP : String
  meshEndpointHost : String
  meshPubkey : Bytes

def MasterConfig.selfNode (cfg : MasterConfig) : RegisteredNode :=
  { name := cfg.name
    roles := [.master]
    overlayIP := cfg.overlayIP
    pubkey := cfg.meshPubkey
    endpointHost := cfg.meshEndpointHost
    nodeCertPEM := "self-registered-master".toList.map fun c => UInt8.ofNat c.toNat
    protocol := protocolAmneziaWG }

inductive MasterCall where
  | registerNode (now : Time) (env : Env) (req : RegisterNodeRequest)
  | heartbeat (now : Time) (env : Env) (req : HeartbeatRequest)
  | decommissionNode (now : Time) (name : String)

def MasterCall.run (masterName : String) (s : Plane Device) : MasterCall → Plane Device × Bool
  | .registerNode now env req =>
    let out := (ControlPlane.registerNode now (some (meshObserver env masterName)) req).run s
    (out.1, out.2.accepted)
  | .heartbeat now env req =>
    let out := (ControlPlane.heartbeat now (some (meshObserver env masterName)) req).run s
    (out.1, out.2.isOk)
  | .decommissionNode now name =>
    let out := (ControlPlane.decommissionNode now name).run s
    (out.1, out.2.success)

structure MasterState where
  plane : Plane Device
  ok : Bool := true

def master (cfg : MasterConfig) (now : Time) : Machine MasterState MasterCall where
  init := { plane := (Call.selfRegister now cfg.selfNode).after { world := ∅ } }
  step s call :=
    let out := call.run cfg.name s.plane
    some { plane := out.1, ok := out.2 }

/-! ## Agreement -/

def isMeshPeer (node : RegisteredNode) : Bool :=
  !node.isMaster && (node.protocol = "" || node.protocol = protocolAmneziaWG) &&
    node.pubkey.length = 32

/-- The peers of the device are the registered mesh peers, each with its overlay. -/
structure DeviceAgrees (s : Plane Device) : Prop where
  present : ∀ {name : String} {node}, s.registry.byName[name]? = some node →
    isMeshPeer node = true → ∃ host, parseMasterOverlayAddress node.overlayIP = some host ∧
      s.world[node.pubkey]? = some [host]
  only : ∀ {key : Bytes} {ips}, s.world[key]? = some ips →
    ∃ (name : String) (node : RegisteredNode), s.registry.byName[name]? = some node ∧
      isMeshPeer node = true ∧ node.pubkey = key

/-- After a call that succeeds, the device and the registry agree. -/
def MasterState.Agrees (s : MasterState) : Prop := s.ok = true → DeviceAgrees s.plane

/-! ## The condition on a call -/

/-- A mesh peer stays one, and keeps its key. -/
def KeepsPeer (prev new : RegisteredNode) : Prop :=
  isMeshPeer prev = true → isMeshPeer new = true ∧ new.pubkey = prev.pubkey

/-- No other mesh peer has the key of `node` or its address without having both. -/
def NoClash (s : Plane Device) (name : String) (node : RegisteredNode) : Prop :=
  ∀ other x, other ≠ name → s.registry.byName[other]? = some x → isMeshPeer x = true →
    (x.pubkey = node.pubkey ↔
      parseMasterOverlayAddress x.overlayIP = parseMasterOverlayAddress node.overlayIP)

open Registry

/-- The calls that keep the device and the registry in agreement. -/
def MasterCall.KeepsDevice (masterName : String) (s : Plane Device) : MasterCall → Prop
  | .registerNode now env req =>
    let new := s.registry.recorded now req.node
    s.registry.Admits now req.node → (FailsLate s now (some (meshObserver env masterName)) req →
        ∀ prev, s.registry.byName[req.nodeName]? = some prev → isMeshPeer prev = false) ∧
      (¬ FailsLate s now (some (meshObserver env masterName)) req →
        (∀ prev, s.registry.byName[req.nodeName]? = some prev → KeepsPeer prev new) ∧
          (isMeshPeer new = true → req.nodeName ≠ masterName ∧ NoClash s req.nodeName new))
  | .heartbeat now env req =>
    ∀ prev, s.registry.byName[req.nodeName]? = some prev →
      let new := beat prev now req.health req.pubkey req.endpointHost req.protocol
      KeepsPeer prev new ∧ (isMeshPeer new = true → req.hasPeerIdentity = true →
          (HeartbeatFailsLate s now (some (meshObserver env masterName)) req prev →
            isMeshPeer prev = true) ∧
          (¬ HeartbeatFailsLate s now (some (meshObserver env masterName)) req prev →
            req.nodeName ≠ masterName ∧ NoClash s req.nodeName new))
  | .decommissionNode _ name =>
    ∀ node, s.registry.byName[name]? = some node →
      s.ledger.ownedBy name = [] ∨ (∃ m, s.registry.Survivor name m) → isMeshPeer node = false

/-! ## The observer -/

section Observer

variable {env : Env} {masterName : String} {node : RegisteredNode} {dev dev' : Device}

theorem applyRegisteredMeshPeer_cases (env : Env) (masterName : String) (dev : Device)
    (hname : node.name ≠ "") :
    (∃ res, applyRegisteredMeshPeer env masterName node dev = (dev, res) ∧
        (res = .ok () → isMeshPeer node = false ∨ node.name = masterName)) ∨
      isMeshPeer node = true ∧ ∃ host, parseMasterOverlayAddress node.overlayIP = some host ∧
        applyRegisteredMeshPeer env masterName node dev = (dev.addPeer
          { publicKey := node.pubkey, replaceAllowedIPs := true, allowedIPs := [host] },
          .ok ()) := by
  unfold applyRegisteredMeshPeer
  split
  · next h => exact .inl ⟨_, rfl, fun _ => .inr (by simpa [hname] using h)⟩
  split
  · next h => exact .inl ⟨_, rfl, fun _ => .inl (by simp [isMeshPeer, h])⟩
  next hm =>
  split
  · next h =>
      rw [Bool.and_eq_true, decide_eq_true_eq, decide_eq_true_eq] at h
      exact .inl ⟨_, rfl, fun _ => .inl (by simp [isMeshPeer, h])⟩
  next hproto =>
  split
  · next h => exact .inl ⟨_, rfl, fun _ => .inl (by simp [isMeshPeer, h])⟩
  split
  · exact .inl ⟨_, rfl, fun h => by cases h⟩
  next hlen =>
  split
  · exact .inl ⟨_, rfl, fun h => by cases h⟩
  next host hhost =>
  -- all the checks that define a mesh peer have passed
  have hpeer : isMeshPeer node = true := by
    unfold isMeshPeer
    grind
  dsimp only
  split
  · split
    · exact .inl ⟨_, rfl, fun h => by cases h⟩
    · exact .inr ⟨hpeer, host, hhost, rfl⟩
  · exact .inr ⟨hpeer, host, hhost, rfl⟩

theorem meshObserver_error {err : String} (hname : node.name ≠ "")
    (h : meshObserver env masterName node dev = (dev', .error err)) : dev' = dev := by
  unfold meshObserver at h
  rcases applyRegisteredMeshPeer_cases env masterName dev hname with
    ⟨res, heq, -⟩ | ⟨-, host, -, heq⟩
  · rw [heq] at h
    cases res with
    | error e => cases h; rfl
    | ok u => cases h
  · rw [heq] at h
    cases h

theorem meshObserver_ok (hname : node.name ≠ "")
    (h : meshObserver env masterName node dev = (dev', .ok ())) :
    (dev' = dev ∧ (isMeshPeer node = false ∨ node.name = masterName)) ∨
      isMeshPeer node = true ∧ ∃ host, parseMasterOverlayAddress node.overlayIP = some host ∧
        dev' = dev.addPeer
          { publicKey := node.pubkey, replaceAllowedIPs := true, allowedIPs := [host] } := by
  unfold meshObserver at h
  rcases applyRegisteredMeshPeer_cases env masterName dev hname with
    ⟨res, heq, hidle⟩ | ⟨hpeer, host, hhost, heq⟩
  · rw [heq] at h
    cases res with
    | error e => cases h
    | ok u => cases h; exact .inl ⟨rfl, hidle rfl⟩
  · rw [heq] at h
    cases h
    exact .inr ⟨hpeer, host, hhost, rfl⟩

end Observer

/-! ## Changes that keep the agreement

Each call changes at most the record of one name. -/

section Changes

variable {s s' : Plane Device} {new : RegisteredNode}

section

variable (h : DeviceAgrees s) (name : String)
  (hoff : ∀ n, n ≠ name → s'.registry.byName[n]? = s.registry.byName[n]?)

include h name hoff

theorem DeviceAgrees.update (hnew : s'.registry.byName[name]? = some new)
    (hworld : s'.world = s.world)
    (hkeep : ∀ prev, s.registry.byName[name]? = some prev →
      KeepsPeer prev new ∧ prev.overlayIP = new.overlayIP)
    (hold : isMeshPeer new = true →
      ∃ prev, s.registry.byName[name]? = some prev ∧ isMeshPeer prev = true)
    : DeviceAgrees s' := by
  constructor
  · intro n node hnode hpeer
    by_cases hn : n = name
    · subst hn
      rw [hnew] at hnode
      cases hnode
      obtain ⟨prev, hprev, hprevPeer⟩ := hold hpeer
      obtain ⟨hkeeps, hov⟩ := hkeep prev hprev
      rw [← hov, (hkeeps hprevPeer).2, hworld]
      exact h.present hprev hprevPeer
    · rw [hoff n hn] at hnode
      rw [hworld]
      exact h.present hnode hpeer
  · intro key ips hkey
    rw [hworld] at hkey
    obtain ⟨n, node, hnode, hpeer, hpub⟩ := h.only hkey
    by_cases hn : n = name
    · subst hn
      obtain ⟨hnewPeer, hsame⟩ := (hkeep node hnode).1 hpeer
      exact ⟨n, new, hnew, hnewPeer, hsame.trans hpub⟩
    · exact ⟨n, node, by rw [hoff n hn]; exact hnode, hpeer, hpub⟩

theorem DeviceAgrees.add {host : BitVec 128} (hnew : s'.registry.byName[name]? = some new)
    (hpeer : isMeshPeer new = true) (hhost : parseMasterOverlayAddress new.overlayIP = some host)
    (hworld : s'.world = s.world.addPeer
      { publicKey := new.pubkey, replaceAllowedIPs := true, allowedIPs := [host] })
    (hkeep : ∀ prev, s.registry.byName[name]? = some prev → KeepsPeer prev new)
    (hclash : NoClash s name new) : DeviceAgrees s' := by
  constructor
  · intro n node hnode hnodePeer
    rw [hworld, Device.getElem?_addPeer_host]
    by_cases hn : n = name
    · subst hn
      rw [hnew] at hnode
      cases hnode
      exact ⟨host, hhost, if_pos rfl⟩
    · rw [hoff n hn] at hnode
      obtain ⟨own, hown, hdev⟩ := h.present hnode hnodePeer
      refine ⟨own, hown, ?_⟩
      have hiff := hclash n node hn hnode hnodePeer
      rw [hown, hhost, Option.some_inj] at hiff
      split
      · next hkey => rw [hiff.mp hkey.symm]
      · next hkey =>
          -- another key: its address is another one, and stays
          have hne : own ≠ host := fun heq => hkey (hiff.mpr heq).symm
          rw [hdev]
          simp [hne]
  · intro key ips hkey
    rw [hworld, Device.getElem?_addPeer_host] at hkey
    split at hkey
    · next heq => exact ⟨name, new, hnew, hpeer, heq⟩
    · next hne =>
        obtain ⟨ips₀, hkey₀, -⟩ := Option.map_eq_some_iff.mp hkey
        obtain ⟨n, node, hnode, hnodePeer, hpub⟩ := h.only hkey₀
        by_cases hn : n = name
        · subst hn
          exact absurd ((hkeep node hnode hnodePeer).2.trans hpub) hne
        · exact ⟨n, node, by rw [hoff n hn]; exact hnode, hnodePeer, hpub⟩

theorem DeviceAgrees.remove (hgone : s'.registry.byName[name]? = none) (hworld : s'.world = s.world)
    (hold : ∀ prev, s.registry.byName[name]? = some prev → isMeshPeer prev = false) :
    DeviceAgrees s' := by
  constructor
  · intro n node hnode hpeer
    have hn : n ≠ name := by
      rintro rfl
      rw [hgone] at hnode
      cases hnode
    rw [hoff n hn] at hnode
    rw [hworld]
    exact h.present hnode hpeer
  · intro key ips hkey
    rw [hworld] at hkey
    obtain ⟨n, node, hnode, hpeer, hpub⟩ := h.only hkey
    have hn : n ≠ name := by
      rintro rfl
      rw [hold node hnode] at hpeer
      cases hpeer
    exact ⟨n, node, by rw [hoff n hn]; exact hnode, hpeer, hpub⟩

end

theorem DeviceAgrees.congr (h : DeviceAgrees s) (heq : s'.Agrees s) : DeviceAgrees s' := by
  constructor
  · intro n node hnode hpeer
    rw [heq.registry] at hnode
    rw [heq.world]
    exact h.present hnode hpeer
  · intro key ips hkey
    rw [heq.world] at hkey
    rw [heq.registry]
    exact h.only hkey

end Changes

/-! ## The calls -/

section Calls

variable {s s' : Plane Device} {masterName name : String} {now : Time} {env : Env}
  (h : DeviceAgrees s)

include h

theorem DeviceAgrees.rolledBack {req : RegisterNodeRequest}
    (hreg : s'.registry = s.registry.without req.node) (hworld : s'.world = s.world)
    (hold : ∀ prev, s.registry.byName[req.nodeName]? = some prev → isMeshPeer prev = false) :
    DeviceAgrees s' := by
  refine h.remove req.nodeName ?_ ?_ hworld hold
  · intro n hn
    rw [hreg, without_byName_getElem?]
    exact if_neg (Ne.symm hn)
  · rw [hreg, without_byName_getElem?]
    exact if_pos rfl

theorem DeviceAgrees.observed {new : RegisteredNode} {dev : Device} (name : String)
    (hname : name ≠ "") (hnewName : new.name = name)
    (hoff : ∀ n, n ≠ name → s'.registry.byName[n]? = s.registry.byName[n]?)
    (hnew : s'.registry.byName[name]? = some new)
    (hobs : meshObserver env masterName new s.world = (dev, .ok ())) (hworld : s'.world = dev)
    (hkeep : ∀ prev, s.registry.byName[name]? = some prev →
      KeepsPeer prev new ∧ prev.overlayIP = new.overlayIP)
    (hpeer : isMeshPeer new = true → name ≠ masterName ∧ NoClash s name new) : DeviceAgrees s' := by
  subst hnewName
  rcases meshObserver_ok hname hobs with ⟨hdev, hidle⟩ | ⟨hnewPeer, host, hhost, hdev⟩
  · refine h.update new.name hoff hnew (hworld.trans hdev) hkeep fun hnewPeer => ?_
    rcases hidle with hnot | hmaster
    · rw [hnot] at hnewPeer
      cases hnewPeer
    · exact absurd hmaster (hpeer hnewPeer).1
  · exact h.add new.name hoff hnew hnewPeer hhost (hworld.trans hdev)
      (fun prev hprev => (hkeep prev hprev).1) (hpeer hnewPeer).2

theorem DeviceAgrees.registerNode {req : RegisterNodeRequest} {res : RegisterNodeResponse}
    (hs : s.WF) (hcond : (MasterCall.registerNode now env req).KeepsDevice masterName s)
    (hout : RegisterOutcome now (some (meshObserver env masterName)) req s s' res) :
    DeviceAgrees s' := by
  have hfails := fun had => hout.failsLate_iff hs had
  cases hout with
  | refused err hno hs' => exact h.congr hs'
  | badOverlay err had hm hip hs' =>
    exact h.rolledBack hs'.registry hs'.world ((hcond had).1 ((hfails had).mpr rfl))
  | seedFailed t err had hip hblocked hseed hs' =>
    exact h.rolledBack hs'.registry (hs'.world.trans hseed.seeded.world)
      ((hcond had).1 ((hfails had).mpr rfl))
  | observerFailed t world err had hip hclear hseed hobs hs' =>
    have hname : (s.registry.recorded now req.node).name ≠ "" := by
      rw [recorded_name]
      exact had.name_ne
    exact h.rolledBack hs'.registry (hs'.world.trans (meshObserver_error hname hobs))
      ((hcond had).1 ((hfails had).mpr rfl))
  | accepted t world had hip hclear hseed hobs hs' =>
    have hok : ¬ FailsLate s now (some (meshObserver env masterName)) req := by
      intro hlate
      cases (hfails had).mp hlate
    obtain ⟨hkeep, hpeer⟩ := (hcond had).2 hok
    have hreg : s'.registry = s.registry.store (s.registry.recorded now req.node) :=
      hs'.registry.trans hseed.seeded.registry
    refine h.observed req.nodeName had.name_ne recorded_name ?_ ?_ hobs hs'.world ?_
      hpeer
    · intro n hn
      rw [hreg, store_byName_getElem?, recorded_name]
      exact if_neg (Ne.symm hn)
    · rw [hreg]
      exact store_recorded_byName_self
    · intro prev hprev
      refine ⟨hkeep prev hprev, ?_⟩
      rw [recorded_overlayIP]
      exact (had.pinned prev hprev).2

omit h in
theorem isMeshPeer_beat_of_plain {req : HeartbeatRequest} {node : RegisteredNode}
    (hid : req.hasPeerIdentity = false) :
    isMeshPeer (req.beat now node) = isMeshPeer node := by
  unfold HeartbeatRequest.hasPeerIdentity at hid
  simp only [Bool.or_eq_false_iff, decide_eq_false_iff_not, not_not] at hid
  obtain ⟨⟨hpub, hhost⟩, hproto⟩ := hid
  simp only [isMeshPeer, beat, RegisteredNode.isMaster, hpub, hproto, if_true]

theorem DeviceAgrees.heartbeat {req : HeartbeatRequest}
    {res : Except HandlerError HeartbeatResponse} (hs : s.WF)
    (hcond : (MasterCall.heartbeat now env req).KeepsDevice masterName s)
    (hout : HeartbeatOutcome now (some (meshObserver env masterName)) req s s' res) :
    DeviceAgrees s' := by
  have hfails : ∀ {node}, s.registry.byName[req.nodeName]? = some node →
      (HeartbeatFailsLate s now (some (meshObserver env masterName)) req node ↔ res.isOk = false) :=
    fun hnode => hout.failsLate_iff hs hnode
  have hoff : ∀ {t : Plane Device} {node}, t.registry = (s.beaten now req node).registry →
      ∀ n, n ≠ req.nodeName → t.registry.byName[n]? = s.registry.byName[n]? := by
    intro t node hreg n hn
    rw [hreg, beaten_byName_getElem?, if_neg (Ne.symm hn)]
  have hnew : ∀ {t : Plane Device} {node}, t.registry = (s.beaten now req node).registry →
      t.registry.byName[req.nodeName]? = some (req.beat now node) := by
    intro t node hreg
    rw [hreg, beaten_byName_getElem?, if_pos rfl]
  have hkeep : ∀ {node}, s.registry.byName[req.nodeName]? = some node →
      ∀ prev, s.registry.byName[req.nodeName]? = some prev →
        KeepsPeer prev (req.beat now node) ∧ prev.overlayIP = node.overlayIP := by
    intro node hnode prev hprev
    rw [hnode] at hprev
    cases hprev
    exact ⟨(hcond node hnode).1, rfl⟩
  have hname : ∀ {node}, s.registry.byName[req.nodeName]? = some node →
      (req.beat now node).name = req.nodeName := fun hnode => (hs.registry.named hnode).1
  cases hout with
  | unknown hno hs' => exact h.congr hs'
  | plain node hnode hid hs' =>
    refine DeviceAgrees.congr ?_ hs'
    refine h.update req.nodeName (hoff rfl) (hnew rfl) rfl (hkeep hnode) fun hpeer => ?_
    rw [isMeshPeer_beat_of_plain hid] at hpeer
    exact ⟨node, hnode, hpeer⟩
  | seedFailed node t err hnode hid hseed hs' =>
    have hreg := hseed.seeded.registry
    refine DeviceAgrees.congr ?_ hs'
    refine h.update req.nodeName (hoff hreg) (hnew hreg) hseed.seeded.world (hkeep hnode)
      fun hpeer => ?_
    exact ⟨node, hnode, ((hcond node hnode).2 hpeer hid).1 ((hfails hnode).mpr rfl)⟩
  | observerFailed node t world err hnode hid hseed hobs hs' =>
    have hreg := hseed.seeded.registry
    have hworld : world = s.world := by
      refine meshObserver_error ?_ hobs
      rw [hname hnode]
      exact (hs.registry.named hnode).2
    refine DeviceAgrees.congr ?_ hs'
    refine h.update req.nodeName (hoff hreg) (hnew hreg) hworld (hkeep hnode) fun hpeer => ?_
    exact ⟨node, hnode, ((hcond node hnode).2 hpeer hid).1 ((hfails hnode).mpr rfl)⟩
  | accepted node t world hnode hid hseed hobs hs' =>
    have hreg := hseed.seeded.registry
    have hok : ¬ HeartbeatFailsLate s now (some (meshObserver env masterName)) req node := by
      intro hlate
      cases (hfails hnode).mp hlate
    refine DeviceAgrees.congr ?_ hs'
    refine h.observed req.nodeName (hs.registry.named hnode).2 (hname hnode) (hoff hreg)
      (hnew hreg) hobs rfl (hkeep hnode) fun hpeer => ?_
    exact ((hcond node hnode).2 hpeer hid).2 hok

theorem DeviceAgrees.decommissionNode {res : DecommissionResponse} (hs : s.WF)
    (hcond : (MasterCall.decommissionNode now name).KeepsDevice masterName s)
    (hout : DecommissionOutcome name s s' res) : DeviceAgrees s' := by
  cases hout with
  | refused err hno hs' => exact h.congr hs'
  | done node l hnode hok hdrain hs' =>
    have hname : node.name = name := (hs.registry.named hnode).1
    refine h.remove name ?_ ?_ hs'.world ?_
    · intro n hn
      rw [hs'.registry, without_byName_getElem?, hname, if_neg (Ne.symm hn)]
    · rw [hs'.registry, without_byName_getElem?, if_pos hname]
    · intro prev hprev
      exact hcond prev hprev hok

end Calls

/-! ## Runs -/

theorem MasterCall.run_wf {s : Plane Device} (hs : s.WF) (masterName : String)
    (call : MasterCall) : (call.run masterName s).1.WF := by
  cases call with
  | registerNode now env req =>
    have := hs.after (.registerNode now (some (meshObserver env masterName)) req)
    rwa [Call.after, Call.program, Handler.run_map] at this
  | heartbeat now env req =>
    have := hs.after (.heartbeat now (some (meshObserver env masterName)) req)
    rwa [Call.after, Call.program, Handler.run_map] at this
  | decommissionNode now name =>
    have := hs.after (.decommissionNode now name)
    rwa [Call.after, Call.program, Handler.run_map] at this

theorem DeviceAgrees.step {s : Plane Device} {masterName : String} {call : MasterCall}
    (hs : s.WF) (h : DeviceAgrees s) (hcond : call.KeepsDevice masterName s) :
    DeviceAgrees (call.run masterName s).1 := by
  cases call with
  | registerNode now env req =>
    obtain ⟨s', res, hrun, hout⟩ :=
      registerNode_outcome now (some (meshObserver env masterName)) req hs
    simp only [MasterCall.run, hrun]
    exact h.registerNode hs hcond hout
  | heartbeat now env req =>
    obtain ⟨s', res, hrun, hout⟩ :=
      heartbeat_outcome now (some (meshObserver env masterName)) req hs
    simp only [MasterCall.run, hrun]
    exact h.heartbeat hs hcond hout
  | decommissionNode now name =>
    obtain ⟨s', res, hrun, hout⟩ := decommissionNode_outcome now name hs
    simp only [MasterCall.run, hrun]
    exact h.decommissionNode hs hcond hout

section Init

variable (cfg : MasterConfig) (now : Time)

theorem master_init_wf : (master cfg now).init.plane.WF :=
  (Plane.WF.init (∅ : Device)).after (.selfRegister now cfg.selfNode)

theorem master_init_stores :
    (∀ {name : String} {node}, (master cfg now).init.plane.registry.byName[name]? = some node →
        node.isMaster = true) ∧ (master cfg now).init.plane.world = ∅ := by
  have hself : ∀ {r : Registry}, r = store {} (recorded {} now cfg.selfNode) →
      ∀ {name : String} {node}, r.byName[name]? = some node → node.isMaster = true := by
    rintro r rfl name node hnode
    rw [store_byName_getElem?] at hnode
    split at hnode
    · cases hnode
      rw [recorded_isMaster]
      rfl
    · simp at hnode
  obtain ⟨s', res, hrun, hout⟩ := selfRegister_outcome now cfg.selfNode
    (Plane.WF.init (∅ : Device))
  have hplane : (master cfg now).init.plane = s' := by
    show (((fun _ => ()) <$> selfRegister now cfg.selfNode).run (server ∅).init).1 = s'
    rw [Handler.run_map, hrun]
  rw [hplane]
  cases hout with
  | refused err hno hs' =>
    refine ⟨fun {name node} h => ?_, hs'.world⟩
    rw [hs'.registry] at h
    simp [server] at h
  | plain had hm hs' => exact ⟨hself hs'.registry, hs'.world⟩
  | badOverlay err had hm hip hs' => exact ⟨hself hs'.registry, hs'.world⟩
  | seeded t res had hm hip hseed hs' =>
    exact ⟨hself (hs'.registry.trans hseed.seeded.registry), hs'.world.trans hseed.seeded.world⟩

theorem not_isMeshPeer_of_isMaster {node : RegisteredNode} (h : node.isMaster = true) :
    isMeshPeer node = false := by
  simp [isMeshPeer, h]

theorem master_init_agrees : DeviceAgrees (master cfg now).init.plane := by
  obtain ⟨hmasters, hempty⟩ := master_init_stores cfg now
  constructor
  · intro name node hnode hpeer
    rw [not_isMeshPeer_of_isMaster (hmasters hnode)] at hpeer
    cases hpeer
  · intro key ips hkey
    rw [hempty] at hkey
    simp at hkey

end Init

/-- **Device agreement** on every master with coordination enabled. -/
theorem device_agrees_throughout (cfg : MasterConfig) (now : Time) (calls : List MasterCall)
    (h : (master cfg now).Along (fun s call => call.KeepsDevice cfg.name s.plane)
      (master cfg now).init calls) :
    (master cfg now).Throughout MasterState.Agrees (master cfg now).init calls := by
  have hinv : (master cfg now).Throughout (fun s => DeviceAgrees s.plane)
      (master cfg now).init calls := by
    refine Machine.throughout_of_along (J := fun s : MasterState => s.plane.WF) ?_ ?_
      (master_init_wf cfg now) (master_init_agrees cfg now) h
    · intro s call t hs hstep
      cases hstep
      exact MasterCall.run_wf hs cfg.name call
    · intro s call t hs hi hcond hstep
      cases hstep
      exact hi.step hs hcond
  refine Machine.Throughout.imp ?_ hinv
  intro s hs _
  exact hs

def exampleConfig : MasterConfig :=
  { name := "m"
    overlayIP := "10.0.0.1"
    meshEndpointHost := "203.0.113.10:51820"
    meshPubkey := List.replicate 32 9 }

def exampleEnv : Env :=
  { quote := id, parseAddrError := fun _ => "", resolveUDPAddr := fun _ => .ok () }

def clientKey : Bytes := List.replicate 32 1

def clientArrives : MasterCall :=
  .registerNode 2 exampleEnv
    { nodeName := "c"
      roles := ["client"]
      nodeCertPem := [1]
      overlayIp := "10.0.0.2"
      pubkey := clientKey
      protocol := "amneziawg" }

/-- The theorem at the registration of a client. -/
theorem device_agrees_client_arrives :
    (master exampleConfig 1).Throughout MasterState.Agrees (master exampleConfig 1).init
        [clientArrives] ∧
      (clientArrives.run "m" (master exampleConfig 1).init.plane).1.world[clientKey]? =
        some [Net.Addr.as16 (.v4 0x0a000002)] := by
  have hnew : (master exampleConfig 1).init.plane.registry.byName["c"]? = none := by decide
  refine ⟨device_agrees_throughout exampleConfig 1 [clientArrives] ⟨?_, fun _ _ => trivial⟩,
    by decide⟩
  intro _
  refine ⟨fun _ prev hprev => ?_, fun _ => ⟨fun prev hprev => ?_, fun _ => ⟨by decide, ?_⟩⟩⟩
  · exact absurd (hnew.symm.trans hprev) (Option.some_ne_none prev).symm
  · exact absurd (hnew.symm.trans hprev) (Option.some_ne_none prev).symm
  · intro other x _ hx hpeer
    rw [not_isMeshPeer_of_isMaster ((master_init_stores exampleConfig 1).1 hx)] at hpeer
    cases hpeer

def clientGone : Plane Device × Bool :=
  (MasterCall.decommissionNode 3 "c").run "m"
    (clientArrives.run "m" (master exampleConfig 1).init.plane).1

theorem not_deviceAgrees_clientGone : ¬ DeviceAgrees clientGone.1 := by
  have hwf : clientGone.1.WF :=
    MasterCall.run_wf (MasterCall.run_wf (master_init_wf exampleConfig 1) "m" _) "m" _
  have hdev : clientGone.1.world[clientKey]?.isSome = true := by decide
  have hnone : ∀ x ∈ clientGone.1.registry.list, x.pubkey ≠ clientKey := by decide
  intro h
  obtain ⟨ips, hips⟩ := Option.isSome_iff_exists.mp hdev
  obtain ⟨name, node, hnode, -, hkey⟩ := h.only hips
  refine hnone node (hwf.registry.mem_list.mpr ?_) hkey
  rw [(hwf.registry.named hnode).1]
  exact hnode

/-- The client is decommissioned and stays on the device. -/
theorem device_keeps_decommissioned_client :
    ∃ s, (master exampleConfig 1).exec (master exampleConfig 1).init
        [clientArrives, .decommissionNode 3 "c"] = some s ∧ ¬ s.Agrees := by
  refine ⟨{ plane := clientGone.1, ok := clientGone.2 }, rfl, ?_⟩
  intro h
  have hok : clientGone.2 = true := by decide
  exact not_deviceAgrees_clientGone (h hok)

end AwgMesh.Node
