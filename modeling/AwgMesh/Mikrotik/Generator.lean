import AwgMesh.Lib.Deal
import AwgMesh.Lib.Sorting
import AwgMesh.Topology.V2
import AwgMesh.Wg.Key

/-!
# Static MikroTik configurations

`BuildStaticScript` of `pkg/mikrotik/v2/generator.go`: the peers of a RouterOS client that has no
agent of its own.
-/

namespace AwgMesh.Mikrotik

open Lib Lib.Checks Net SchemaV2 ByteText Wg

/-! ## Data -/

structure Peer where
  name : String
  publicKey : Bytes
  endpointAddress : String
  endpointPort : Int
  allowedIPs : List String := []
  persistentKeepalive : String
  comment : String

structure StaticScript where
  meshName : String
  clientName : String
  interfaceName : String
  listenPort : Int
  privateKey : Bytes
  clientAddress : String
  interfaceComment : String
  addressComment : String
  peers : List Peer

structure RouteTarget where
  name : String
  cidr : String
  deriving DecidableEq

inductive BuildError where
  | invalid (err : V2Error)
  | privateKeyRequired
  | clientNameRequired
  | notClient (name : String)
  | notDeclared (name : String)
  | notMikrotik (node platform : String)
  | invalidOverlayIP (node ip : String)
  | wrongProtocol (master protocol : String)
  | noEndpoint (master : String)
  | noMaster
  | publicKeyRequired (master : String)

structure Stdlib where
  prefixString : Prefix → String
  sortMasters : Sorter NodeV2.name
  sortTargets : Sorter RouteTarget.name

/-! ## The generator -/

def hasRole (node : NodeV2) (want : Role) : Bool := node.roles.contains want

def hostPrefix : Addr → Prefix
  | .v4 bits => .v4 bits (Fin.last 32)
  | .v6 bits _ => .v6 bits (Fin.last 128)

/-- `nodeOverlayCIDR`. -/
def nodeOverlayCIDR (prefixString : Prefix → String) (node : NodeV2) :
    Except BuildError String := do
  let addr ← require (parseAddr (trimSpace node.overlayIP))
    (.invalidOverlayIP node.name node.overlayIP)
  return prefixString (hostPrefix addr)

def masterEndpointAddress (master : NodeV2) : Except BuildError String :=
  require (([master.publicIP, master.bridgeIP].map trimSpace).find? (· ≠ ""))
    (.noEndpoint master.name)

def findClientNode (topo : TopologyV2) (clientName : String) : Except BuildError NodeV2 := do
  let trimmed := trimSpace clientName
  refuseIf (trimmed = "") .clientNameRequired
  let node ← require (topo.nodes.find? fun n => n.name = trimmed) (.notDeclared trimmed)
  refuseIf (hasRole node .client = false) (.notClient trimmed)
  return node

def checkMaster (node : NodeV2) : Except BuildError Unit := do
  let protocol := trimSpace node.clientProtocol
  refuseIf (protocol ≠ "" ∧ protocol ≠ "vanilla-wg") (.wrongProtocol node.name node.clientProtocol)
  let _ ← masterEndpointAddress node
  return ()

def declaredMasters (topo : TopologyV2) : List NodeV2 :=
  topo.nodes.filter fun n => hasRole n .master

def collectMasterNodes (std : Stdlib) (topo : TopologyV2) : Except BuildError (List NodeV2) := do
  let _ ← (declaredMasters topo).mapM checkMaster
  refuseIf (declaredMasters topo = []) .noMaster
  return std.sortMasters.sort (declaredMasters topo)

def Peer.addAllowedIP (p : Peer) (cidr : String) : Peer :=
  if cidr ∈ p.allowedIPs then p else { p with allowedIPs := p.allowedIPs ++ [cidr] }

def newBuilder (prefixString : Prefix → String) (masterPublicKeys : String → Option Key)
    (master : NodeV2) : Except BuildError Peer := do
  let publicKey ← require ((masterPublicKeys master.name).filter fun k => !k.isZero)
    (.publicKeyRequired master.name)
  let endpoint ← masterEndpointAddress master
  let allowed ← nodeOverlayCIDR prefixString master
  let peer : Peer :=
    { name := master.name
      publicKey := publicKey.string
      endpointAddress := endpoint
      endpointPort := 51820
      persistentKeepalive := "25s"
      comment := "awg-mesh: " ++ master.name ++ " client-facing peer" }
  return peer.addAllowedIP allowed

def routed (topo : TopologyV2) (clientName : String) : List NodeV2 :=
  topo.nodes.filter fun n => n.name ≠ clientName ∧ hasRole n .master = false

def routeTarget (prefixString : Prefix → String) (node : NodeV2) :
    Except BuildError RouteTarget := do
  let cidr ← nodeOverlayCIDR prefixString node
  return { name := node.name, cidr }

def Peer.sorted (p : Peer) : Peer := { p with allowedIPs := p.allowedIPs.insertionSort (· ≤ ·) }

def buildMasterPeers (std : Stdlib) (topo : TopologyV2) (client : NodeV2) (masters : List NodeV2)
    (masterPublicKeys : String → Option Key) : Except BuildError (List Peer) := do
  let peerBuilders ← masters.mapM (newBuilder std.prefixString masterPublicKeys)
  let routeTargets ← (routed topo client.name).mapM (routeTarget std.prefixString)
  let dealt := deal (fun p target => p.addAllowedIP target.cidr) peerBuilders 0
    (std.sortTargets.sort routeTargets)
  return dealt.map Peer.sorted

def buildStaticScript (std : Stdlib) (topo : TopologyV2) (clientName : String)
    (clientPrivateKey : Key) (masterPublicKeys : String → Option Key) :
    Except BuildError StaticScript := do
  (validateV2 topo).mapError .invalid
  refuseIf (clientPrivateKey.isZero = true) .privateKeyRequired
  let client ← findClientNode topo clientName
  let platform := trimSpace client.platform
  refuseIf (platform ≠ "" ∧ equalFold platform "mikrotik" = false)
    (.notMikrotik client.name client.platform)
  let clientAddress ← nodeOverlayCIDR std.prefixString client
  let masters ← collectMasterNodes std topo
  let peers ← buildMasterPeers std topo client masters masterPublicKeys
  return {
    meshName := trimSpace topo.mesh.name
    clientName := client.name
    interfaceName := "awg-mesh"
    listenPort := 13231
    privateKey := clientPrivateKey.string
    clientAddress := clientAddress
    interfaceComment := "awg-mesh: " ++ client.name ++ " native WireGuard"
    addressComment := "awg-mesh: " ++ client.name ++ " overlay address"
    peers := peers }

/-! ## What a successful call returns

All checks look at the nodes one by one, so whether the call succeeds does not depend on the sorts;
what it returns is then a function of the sorted lists. -/

def overlayAddr (node : NodeV2) : Addr := (parseAddr (trimSpace node.overlayIP)).getD (.v4 0)

def hostCIDR (prefixString : Prefix → String) (node : NodeV2) : String :=
  prefixString (hostPrefix (overlayAddr node))

def masterPeer (prefixString : Prefix → String) (masterPublicKeys : String → Option Key)
    (master : NodeV2) : Peer where
  name := master.name
  publicKey := ((masterPublicKeys master.name).getD .zero).string
  endpointAddress := ((masterEndpointAddress master).toOption).getD ""
  endpointPort := 51820
  allowedIPs := [hostCIDR prefixString master]
  persistentKeepalive := "25s"
  comment := "awg-mesh: " ++ master.name ++ " client-facing peer"

def peersFor (prefixString : Prefix → String) (masterPublicKeys : String → Option Key)
    (masters : List NodeV2) (targets : List RouteTarget) : List Peer :=
  (deal (fun p target => p.addAllowedIP target.cidr)
    (masters.map (masterPeer prefixString masterPublicKeys)) 0 targets).map Peer.sorted

def targetsFor (prefixString : Prefix → String) (topo : TopologyV2) (clientName : String) :
    List RouteTarget :=
  (routed topo clientName).map fun n => { name := n.name, cidr := hostCIDR prefixString n }

def scriptFor (std : Stdlib) (topo : TopologyV2) (client : NodeV2) (clientPrivateKey : Key)
    (masterPublicKeys : String → Option Key) : StaticScript where
  meshName := trimSpace topo.mesh.name
  clientName := client.name
  interfaceName := "awg-mesh"
  listenPort := 13231
  privateKey := clientPrivateKey.string
  clientAddress := hostCIDR std.prefixString client
  interfaceComment := "awg-mesh: " ++ client.name ++ " native WireGuard"
  addressComment := "awg-mesh: " ++ client.name ++ " overlay address"
  peers := peersFor std.prefixString masterPublicKeys
    (std.sortMasters.sort (declaredMasters topo))
    (std.sortTargets.sort (targetsFor std.prefixString topo client.name))

structure Ready (topo : TopologyV2) (clientName : String) (clientPrivateKey : Key)
    (masterPublicKeys : String → Option Key) (client : NodeV2) : Prop where
  valid : validateV2 topo = .ok ()
  key : clientPrivateKey.isZero = false
  found : findClientNode topo clientName = .ok client
  platform : trimSpace client.platform = "" ∨
    equalFold (trimSpace client.platform) "mikrotik" = true
  masters : ∀ m ∈ declaredMasters topo, checkMaster m = .ok ()
  keys : ∀ m ∈ declaredMasters topo, ∃ k, masterPublicKeys m.name = some k ∧ k.isZero = false
  some_master : declaredMasters topo ≠ []

section

variable {std : Stdlib} {topo : TopologyV2} {clientName : String} {clientPrivateKey : Key}
  {masterPublicKeys : String → Option Key} {script : StaticScript} {client node : NodeV2}
  {prefixString : Prefix → String}

theorem nodeOverlayCIDR_eq_ok {cidr : String} :
    nodeOverlayCIDR prefixString node = .ok cidr ↔
      (∃ addr, parseAddr (trimSpace node.overlayIP) = some addr) ∧
        cidr = hostCIDR prefixString node := by
  simp only [nodeOverlayCIDR, bind_eq_ok, require_eq_ok, pure_eq_ok, hostCIDR, overlayAddr]
  constructor
  · rintro ⟨addr, haddr, rfl⟩
    exact ⟨⟨addr, haddr⟩, by rw [haddr]; rfl⟩
  · rintro ⟨⟨addr, haddr⟩, rfl⟩
    exact ⟨addr, haddr, by rw [haddr]; rfl⟩

theorem newBuilder_eq_ok {peer : Peer} :
    newBuilder prefixString masterPublicKeys node = .ok peer ↔
      ((∃ k, masterPublicKeys node.name = some k ∧ k.isZero = false) ∧
        (∃ endpoint, masterEndpointAddress node = .ok endpoint) ∧
        ∃ addr, parseAddr (trimSpace node.overlayIP) = some addr) ∧
        peer = masterPeer prefixString masterPublicKeys node := by
  simp only [newBuilder, bind_eq_ok, require_eq_ok, pure_eq_ok, Option.filter_eq_some_iff,
    nodeOverlayCIDR_eq_ok, Bool.not_eq_true']
  constructor
  · rintro ⟨k, hk, endpoint, hendpoint, cidr, ⟨haddr, rfl⟩, rfl⟩
    refine ⟨⟨⟨k, hk⟩, ⟨endpoint, hendpoint⟩, haddr⟩, ?_⟩
    simp [masterPeer, Peer.addAllowedIP, hk.1, hendpoint, Except.toOption]
  · rintro ⟨⟨⟨k, hk⟩, ⟨endpoint, hendpoint⟩, haddr⟩, rfl⟩
    refine ⟨k, hk, endpoint, hendpoint, _, ⟨haddr, rfl⟩, ?_⟩
    simp [masterPeer, Peer.addAllowedIP, hk.1, hendpoint, Except.toOption]

theorem routeTarget_eq_ok {target : RouteTarget} :
    routeTarget prefixString node = .ok target ↔
      (∃ addr, parseAddr (trimSpace node.overlayIP) = some addr) ∧
        target = { name := node.name, cidr := hostCIDR prefixString node } := by
  simp only [routeTarget, bind_eq_ok, pure_eq_ok, nodeOverlayCIDR_eq_ok]
  constructor
  · rintro ⟨cidr, ⟨haddr, rfl⟩, rfl⟩
    exact ⟨haddr, rfl⟩
  · rintro ⟨haddr, rfl⟩
    exact ⟨_, ⟨haddr, rfl⟩, rfl⟩

theorem checkMaster_endpoint {u : Unit} (h : checkMaster node = .ok u) :
    ∃ endpoint, masterEndpointAddress node = .ok endpoint := by
  simp only [checkMaster, bind_eq_ok] at h
  obtain ⟨-, -, endpoint, hendpoint, -⟩ := h
  exact ⟨endpoint, hendpoint⟩

theorem collectMasterNodes_eq_ok {masters : List NodeV2} :
    collectMasterNodes std topo = .ok masters ↔
      (∀ m ∈ declaredMasters topo, checkMaster m = .ok ()) ∧ declaredMasters topo ≠ [] ∧
        masters = std.sortMasters.sort (declaredMasters topo) := by
  simp only [collectMasterNodes, bind_eq_ok, refuseIf_eq_ok, pure_eq_ok, exists_const,
    mapM_eq_ok (g := fun _ => ()) (fun _ _ _ => rfl)]
  constructor
  · rintro ⟨-, ⟨hall, -⟩, hne, rfl⟩
    exact ⟨fun m hm => (hall m hm).choose_spec, hne, rfl⟩
  · rintro ⟨hall, hne, rfl⟩
    exact ⟨_, ⟨fun m hm => ⟨(), hall m hm⟩, rfl⟩, hne, rfl⟩

theorem parseAddr_of_parseIP {s : String} {ip : BitVec 128} (h : parseIP s = some ip) :
    ∃ addr, parseAddr (trimSpace s) = some addr ∧ parseAddr s = some addr ∧
      (hostPrefix addr).contains addr = true := by
  have htrim : trimSpace s = s :=
    trimSpace_eq_self fun c hc => not_isSpace_of_isAddrChar (parseIP_chars h c hc)
  rw [htrim]
  unfold parseIP at h
  cases haddr : parseAddr s with
  | none => rw [haddr] at h; cases h
  | some addr =>
    rw [haddr] at h
    refine ⟨addr, rfl, rfl, ?_⟩
    cases addr with
    | v4 bits => simp [hostPrefix, Prefix.contains]
    | v6 bits zone =>
      have hzone : zone = "" := by
        by_contra hne
        simp [hne] at h
      simp [hostPrefix, Prefix.contains, hzone]

theorem parseAddr_of_validateV2 (h : validateV2 topo = .ok ()) (hn : node ∈ topo.nodes) :
    ∃ addr, parseAddr (trimSpace node.overlayIP) = some addr ∧
      parseAddr node.overlayIP = some addr ∧ (hostPrefix addr).contains addr = true := by
  obtain ⟨⟨ip, hip⟩, -⟩ := validateV2_ok h hn
  exact parseAddr_of_parseIP hip

theorem findClientNode_eq_ok (h : findClientNode topo clientName = .ok client) :
    client.name = trimSpace clientName ∧ client ∈ topo.nodes ∧ hasRole client .client = true ∧
      topo.nodes.find? (fun n => n.name = trimSpace clientName) = some client := by
  simp only [findClientNode, bind_eq_ok, refuseIf_eq_ok, require_eq_ok, pure_eq_ok,
    exists_const] at h
  obtain ⟨-, node, hfind, hrole, rfl⟩ := h
  exact ⟨by simpa using List.find?_some hfind, List.mem_of_find?_eq_some hfind,
    Bool.of_not_eq_false hrole, hfind⟩

theorem buildMasterPeers_eq_ok {masters : List NodeV2} {peers : List Peer} :
    buildMasterPeers std topo client masters masterPublicKeys = .ok peers ↔
      (∀ m ∈ masters, (∃ k, masterPublicKeys m.name = some k ∧ k.isZero = false) ∧
        (∃ endpoint, masterEndpointAddress m = .ok endpoint) ∧
        ∃ addr, parseAddr (trimSpace m.overlayIP) = some addr) ∧
      (∀ n ∈ routed topo client.name, ∃ addr, parseAddr (trimSpace n.overlayIP) = some addr) ∧
      peers = peersFor std.prefixString masterPublicKeys masters
        (std.sortTargets.sort (targetsFor std.prefixString topo client.name)) := by
  simp only [buildMasterPeers, bind_eq_ok, pure_eq_ok,
    mapM_eq_ok (fun _ _ h => (newBuilder_eq_ok.mp h).2),
    mapM_eq_ok (fun _ _ h => (routeTarget_eq_ok.mp h).2)]
  constructor
  · rintro ⟨-, ⟨hmasters, rfl⟩, -, ⟨htargets, rfl⟩, rfl⟩
    refine ⟨fun m hm => ?_, fun n hn => ?_, rfl⟩
    · obtain ⟨peer, hpeer⟩ := hmasters m hm
      exact (newBuilder_eq_ok.mp hpeer).1
    · obtain ⟨target, htarget⟩ := htargets n hn
      exact (routeTarget_eq_ok.mp htarget).1
  · rintro ⟨hmasters, htargets, rfl⟩
    exact ⟨_, ⟨fun m hm => ⟨_, newBuilder_eq_ok.mpr ⟨hmasters m hm, rfl⟩⟩, rfl⟩,
      _, ⟨fun n hn => ⟨_, routeTarget_eq_ok.mpr ⟨htargets n hn, rfl⟩⟩, rfl⟩, rfl⟩

theorem buildStaticScript_eq_ok :
    buildStaticScript std topo clientName clientPrivateKey masterPublicKeys = .ok script ↔
      ∃ client, Ready topo clientName clientPrivateKey masterPublicKeys client ∧
        script = scriptFor std topo client clientPrivateKey masterPublicKeys := by
  have hmem : ∀ m, m ∈ std.sortMasters.sort (declaredMasters topo) ↔ m ∈ declaredMasters topo :=
    fun m => (std.sortMasters.perm _).mem_iff
  simp only [buildStaticScript, bind_eq_ok, mapError_eq_ok, refuseIf_eq_ok, pure_eq_ok,
    exists_const, collectMasterNodes_eq_ok, buildMasterPeers_eq_ok, nodeOverlayCIDR_eq_ok]
  constructor
  · rintro ⟨_, hvalid, hkey, client, hfound, hplatform, -, ⟨-, rfl⟩, -,
      ⟨hmasters, hne, rfl⟩, -, ⟨hbuilders, -, rfl⟩, rfl⟩
    refine ⟨client, ⟨hvalid, Bool.eq_false_iff.mpr hkey, hfound, ?_, hmasters, ?_, hne⟩, rfl⟩
    · by_cases hblank : trimSpace client.platform = ""
      · exact .inl hblank
      · exact .inr (Bool.of_not_eq_false fun hfold => hplatform ⟨hblank, hfold⟩)
    · exact fun m hm => (hbuilders m ((hmem m).mpr hm)).1
  · rintro ⟨client, hready, rfl⟩
    have haddr : ∀ n ∈ topo.nodes, ∃ addr, parseAddr (trimSpace n.overlayIP) = some addr := by
      intro n hn
      obtain ⟨addr, h, -⟩ := parseAddr_of_validateV2 hready.valid hn
      exact ⟨addr, h⟩
    refine ⟨(), hready.valid, Bool.eq_false_iff.mp hready.key, client, hready.found, ?_, _,
      ⟨haddr client ?_, rfl⟩, _, ⟨hready.masters, hready.some_master, rfl⟩, _,
      ⟨?_, fun n hn => haddr n (List.mem_of_mem_filter hn), rfl⟩, rfl⟩
    · rintro ⟨hblank, hfold⟩
      rcases hready.platform with h | h
      · exact hblank h
      · rw [hfold] at h
        cases h
    · exact (findClientNode_eq_ok hready.found).2.1
    · intro m hm
      have hm := (hmem m).mp hm
      exact ⟨hready.keys m hm, checkMaster_endpoint (hready.masters m hm),
        haddr m (List.mem_of_mem_filter hm)⟩

end

end AwgMesh.Mikrotik
