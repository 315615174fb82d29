import AwgMesh.Clientd.State
import AwgMesh.Net.Cidr

/-!
# Applying a state to the interface

`pkg/clientd/peer_reload.go`: the peers of a state are turned into WireGuard peers, the device is
configured with exactly those, and every allowed IP gets a route on the interface.
-/

namespace AwgMesh.Clientd

open Lib
open Net (IP IPMask IPNet)

structure UDPAddr where
  ip : BitVec 128
  port : Nat
  zone : String := ""

structure PeerConfig where
  publicKey : Bytes
  replaceAllowedIPs : Bool
  allowedIPs : List IPNet
  endpoint : Option UDPAddr := none
  persistentKeepaliveInterval : Option Duration := none

/-! ## Peers -/

inductive ReloadError where
  | peerNameRequired
  | unsupportedProtocol (protocol : String)
  | publicKeyRequired (peer : String)
  | publicKey (peer : String) (length : Nat)
  | allowedIPs (peer value : String)
  | endpoint (peer err : String)
  | nonMasterPeer (peer : String) (role : Role)
  deriving DecidableEq

def parseAllowedIP (value : String) : Except String (Option IPNet) :=
  let trimmed := trimSpace value
  if trimmed = "" then .ok none
  else match Net.parseCIDR trimmed with
    | some ipNet => .ok (some ipNet)
    | none =>
      match Net.parseIP trimmed with
      | none => .error value
      | some ip =>
        let mask : IPMask :=
          if (Net.to4 ip).isSome then .four (Fin.last 32) else .sixteen (Fin.last 128)
        .ok (some { ip := .sixteen ip, mask := mask })

def parseAllowedIPs : List String → Except String (List IPNet)
  | [] => .ok []
  | value :: rest =>
    match parseAllowedIP value with
    | .error err => .error err
    | .ok ipNet =>
      match parseAllowedIPs rest with
      | .error err => .error err
      | .ok out => .ok (ipNet.toList ++ out)

def knownProtocols : List String := ["vanilla-wg", "amneziawg"]

def peerEntryToWGConfig (resolveUDPAddr : String → Except String UDPAddr) (peer : PeerEntry) :
    Except ReloadError PeerConfig :=
  if trimSpace peer.peerName = "" then .error .peerNameRequired
  else if peer.protocol ≠ "" && peer.protocol ∉ knownProtocols then
    .error (.unsupportedProtocol peer.protocol)
  else if peer.peerPubkey.length = 0 then .error (.publicKeyRequired peer.peerName)
  else if peer.peerPubkey.length ≠ 32 then
    .error (.publicKey peer.peerName peer.peerPubkey.length)
  else match parseAllowedIPs peer.allowedIPs with
    | .error value => .error (.allowedIPs peer.peerName value)
    | .ok allowed =>
      let cfg : PeerConfig :=
        { publicKey := peer.peerPubkey
          replaceAllowedIPs := true
          allowedIPs := allowed
          persistentKeepaliveInterval :=
            if peer.persistentKeepaliveSecs > 0 then
              some (peer.persistentKeepaliveSecs * 1000000000)
            else none }
      if trimSpace peer.peerEndpointHost ≠ "" then
        match resolveUDPAddr peer.peerEndpointHost with
        | .error err => .error (.endpoint peer.peerName err)
        | .ok addr => .ok { cfg with endpoint := some addr }
      else .ok cfg

/-- The second loop of `BuildPeerConfigs`. -/
def convertPeers (resolveUDPAddr : String → Except String UDPAddr) :
    List PeerEntry → Except ReloadError (List PeerConfig × List String)
  | [] => .ok ([], [])
  | peer :: rest =>
    match peerEntryToWGConfig resolveUDPAddr peer with
    | .error (.publicKeyRequired _) =>
      (convertPeers resolveUDPAddr rest).map fun out => (out.1, peer.peerName :: out.2)
    | .error err => .error err
    | .ok cfg => (convertPeers resolveUDPAddr rest).map fun out => (cfg :: out.1, out.2)

def buildPeerConfigs (resolveUDPAddr : String → Except String UDPAddr) (localRoles : List Role)
    (peers : List PeerEntry) : Except ReloadError (List PeerConfig × List String) :=
  let foreign := fun p : PeerEntry => p.peerRole ≠ .unknown "" && p.peerRole ≠ .master
  match if localRoles.contains .client then peers.find? foreign else none with
  | some peer => .error (.nonMasterPeer peer.peerName peer.peerRole)
  | none => convertPeers resolveUDPAddr peers

/-! ## The interface -/

/-- A route of the table: out of `iface`. -/
structure Route where
  dest : IPNet
  iface : String
  src : IP

structure Interface where
  privateKey : Option Bytes := none
  listenPort : Option Int := none
  peers : List PeerConfig := []
  addrs : List IPNet := []
  up : Bool := false
  routes : OMap String Route := ∅

structure TransportConfigurator where
  transport : Option String
  localRoles : List Role := []
  privateKey : Option Bytes := none
  listenPort : Int := 0
  overlayAddress : Option IPNet := none
  link : Bool := true

/-- What an `Apply` meets outside. -/
structure ApplyEnv where
  ctxErr : Option String := none
  ctxErrLater : Option String := none
  resolveUDPAddr : String → Except String UDPAddr
  configureErr : Option String := none
  addrAddErr : Option String := none
  linkSetUpErr : Option String := none
  routeErr : IPNet → Option String := fun _ => none

inductive ApplyError where
  | context (err : String)
  | transportRequired
  | reload (err : ReloadError)
  | configure (err : String)
  | linkRequired
  | addrAdd (err : String)
  | linkSetUp (err : String)
  | route (dest iface err : String)
  deriving DecidableEq

def normalizeCIDR (value : IPNet) : IPNet :=
  let ip := match value.mask with
    | .four _ => (value.ip.to4.map IP.four).getD value.ip
    | .sixteen _ => value.ip
  { value with ip := (ip.applyMask value.mask).getD ip }

namespace Interface

/-- `Transport.Configure` with `ReplacePeers`. -/
def configure (dev : Interface) (privateKey : Option Bytes) (listenPort : Option Int)
    (peers : List PeerConfig) : Interface :=
  { dev with
    privateKey := privateKey.or dev.privateKey
    listenPort := listenPort.or dev.listenPort
    peers := peers }

def routeReplace (dev : Interface) (dest : IPNet) (iface : String) (src : IP) : Interface :=
  { dev with routes := dev.routes.insert dest.string { dest := dest, iface := iface, src := src } }

end Interface

def installPeerRoutes (env : ApplyEnv) (ifaceName : String) (overlay : IPNet) :
    List IPNet → (seen : List String) → Interface → Interface × Except ApplyError Unit
  | [], _, dev => (dev, .ok ())
  | allowedIP :: rest, seen, dev =>
    let route := normalizeCIDR allowedIP
    if route.string = (normalizeCIDR overlay).string then
      installPeerRoutes env ifaceName overlay rest seen dev
    else if route.string ∈ seen then installPeerRoutes env ifaceName overlay rest seen dev
    else match env.routeErr route with
      | some err => (dev, .error (.route route.string ifaceName err))
      | none =>
        installPeerRoutes env ifaceName overlay rest (route.string :: seen)
          (dev.routeReplace route ifaceName overlay.ip)

def setUpLink (c : TransportConfigurator) (env : ApplyEnv) (ifaceName : String)
    (peers : List PeerConfig) (dev : Interface) : Interface × Except ApplyError Unit :=
  match c.overlayAddress with
  | none => (dev, .ok ())
  | some overlay =>
    if !c.link then (dev, .error .linkRequired)
    else match env.addrAddErr with
      | some err => (dev, .error (.addrAdd err))
      | none =>
        let dev := { dev with addrs := dev.addrs.insert overlay }
        match env.linkSetUpErr with
        | some err => (dev, .error (.linkSetUp err))
        | none =>
          installPeerRoutes env ifaceName overlay (peers.flatMap (·.allowedIPs)) []
            { dev with up := true }

def TransportConfigurator.apply (c : TransportConfigurator) (env : ApplyEnv) (state : State)
    (dev : Interface) : Interface × Except ApplyError Unit :=
  match env.ctxErr, c.transport with
  | some err, _ => (dev, .error (.context err))
  | none, none => (dev, .error .transportRequired)
  | none, some ifaceName =>
    let localRoles := if c.localRoles.length = 0 then [.client] else c.localRoles
    match buildPeerConfigs env.resolveUDPAddr localRoles state.peers with
    | .error err => (dev, .error (.reload err))
    | .ok (peers, _) =>
      match env.ctxErrLater, env.configureErr with
      | some err, _ => (dev, .error (.context err))
      | none, some err => (dev, .error (.configure err))
      | none, none =>
        let listenPort := if c.listenPort > 0 then some c.listenPort else none
        setUpLink c env ifaceName peers (dev.configure c.privateKey listenPort peers)

/-! ## What is left of an earlier state -/

open Net (IP IPNet)

/-! ## Installing routes -/

variable {dev : Interface}

section Install

variable {env : ApplyEnv} {ifaceName : String} {overlay : IPNet} {nets : List IPNet}
  {seen : List String}

theorem installPeerRoutes_result (dev dev' : Interface) :
    (installPeerRoutes env ifaceName overlay nets seen dev).2 =
      (installPeerRoutes env ifaceName overlay nets seen dev').2 := by
  induction nets generalizing seen dev dev' with
  | nil => rfl
  | cons n rest ih =>
    rw [installPeerRoutes, installPeerRoutes]
    split
    · exact ih dev dev'
    split
    · exact ih dev dev'
    split
    · rfl
    · exact ih _ _

theorem installPeerRoutes_peers (dev : Interface) :
    (installPeerRoutes env ifaceName overlay nets seen dev).1.peers = dev.peers := by
  induction nets generalizing seen dev with
  | nil => rfl
  | cons n rest ih =>
    rw [installPeerRoutes]
    split
    · exact ih dev
    split
    · exact ih dev
    split
    · rfl
    · exact ih _

theorem installPeerRoutes_routes (dev : Interface) (k : String) :
    (installPeerRoutes env ifaceName overlay nets seen dev).1.routes[k]? =
      (installPeerRoutes env ifaceName overlay nets seen {}).1.routes[k]?.or dev.routes[k]? := by
  induction nets generalizing seen dev with
  | nil => simp [installPeerRoutes]
  | cons n rest ih =>
    rw [installPeerRoutes, installPeerRoutes]
    split
    · exact ih dev
    split
    · exact ih dev
    split
    · simp
    · -- both loops go on from a table with one more route
      rw [ih, ih (Interface.routeReplace {} _ _ _)]
      simp only [Interface.routeReplace, OMap.getElem?_insert]
      split
      · simp
      · simp

end Install

/-! ## Applying a state -/

variable {c : TransportConfigurator} {overlay : IPNet} {env : ApplyEnv}

theorem apply_ok {state : State} (hoverlay : c.overlayAddress = some overlay)
    (h : (c.apply env state dev).2 = .ok ()) :
    ∃ (peers : List PeerConfig) (routes : OMap String Route), ∀ dev' : Interface,
      (c.apply env state dev').2 = .ok () ∧ (c.apply env state dev').1.peers = peers ∧
        ∀ k : String, (c.apply env state dev').1.routes[k]? = routes[k]?.or dev'.routes[k]? := by
  unfold TransportConfigurator.apply at h ⊢
  cases hctx : env.ctxErr with
  | some err => rw [hctx] at h; cases h
  | none =>
  cases htransport : c.transport with
  | none => rw [hctx, htransport] at h; cases h
  | some ifaceName =>
  rw [hctx, htransport] at h
  dsimp only at h ⊢
  generalize (if c.localRoles.length = 0 then [Role.client] else c.localRoles) = localRoles at h ⊢
  cases hbuild : buildPeerConfigs env.resolveUDPAddr localRoles state.peers with
  | error err => rw [hbuild] at h; cases h
  | ok out =>
  obtain ⟨peers, skipped⟩ := out
  rw [hbuild] at h
  dsimp only at h ⊢
  cases hlater : env.ctxErrLater with
  | some err => rw [hlater] at h; cases h
  | none =>
  cases hconfigure : env.configureErr with
  | some err => rw [hlater, hconfigure] at h; cases h
  | none =>
  rw [hlater, hconfigure] at h
  refine ⟨peers, (installPeerRoutes env ifaceName overlay (peers.flatMap (·.allowedIPs)) []
    {}).1.routes, fun dev' => ?_⟩
  unfold setUpLink at h ⊢
  rw [hoverlay] at h ⊢
  dsimp only at h ⊢
  split at h
  · cases h
  next hlink =>
  rw [if_neg hlink]
  split at h
  · cases h
  split at h
  · cases h
  refine ⟨?_, installPeerRoutes_peers _, installPeerRoutes_routes _⟩
  rw [← h]
  exact installPeerRoutes_result _ _

/-- **Applying one state after another**. -/
theorem apply_after_apply {c : TransportConfigurator} {overlay : IPNet} (env₁ env₂ : ApplyEnv)
    (s₁ s₂ : State) (hoverlay : c.overlayAddress = some overlay)
    (h : (c.apply env₂ s₂ {}).2 = .ok ()) : let first := (c.apply env₁ s₁ {}).1
    let alone := (c.apply env₂ s₂ {}).1
    let both := (c.apply env₂ s₂ first).1
    (c.apply env₂ s₂ first).2 = .ok () ∧ both.peers = alone.peers ∧
      (∀ k : String, both.routes[k]? = alone.routes[k]?.or first.routes[k]?) ∧
      (both.routes = alone.routes ↔ ∀ k ∈ first.routes, k ∈ alone.routes) := by
  intro first alone both
  obtain ⟨peers, routes, hall⟩ := apply_ok hoverlay h
  obtain ⟨hok, hpeers, hroutes⟩ := hall first
  obtain ⟨-, hpeers', hroutes'⟩ := hall {}
  have halone : ∀ k : String, alone.routes[k]? = routes[k]? := by
    intro k
    rw [hroutes' k]
    simp
  have hboth : ∀ k : String, both.routes[k]? = alone.routes[k]?.or first.routes[k]? := by
    intro k
    rw [halone k]
    exact hroutes k
  refine ⟨hok, hpeers.trans hpeers'.symm, hboth, ?_⟩
  constructor
  · intro heq k hk
    rw [← heq]
    rw [Std.ExtTreeMap.mem_iff_isSome_getElem?] at hk ⊢
    rw [hboth k, Option.isSome_or, hk, Bool.or_true]
  · intro hsub
    apply Std.ExtTreeMap.ext_getElem?
    intro k
    rw [hboth k]
    cases hk : first.routes[k]? with
    | none => rw [Option.or_none]
    | some route =>
      have hmem := hsub k (Std.ExtTreeMap.mem_iff_isSome_getElem?.mpr (by rw [hk]; rfl))
      obtain ⟨r, hr⟩ := Option.isSome_iff_exists.mp
        (Std.ExtTreeMap.mem_iff_isSome_getElem?.mp hmem)
      rw [hr, Option.some_or]

def sampleConfigurator : TransportConfigurator :=
  { transport := some "awg0", overlayAddress := some (Net.hostNet 0xac155c82) }

def sampleEnv : ApplyEnv := { resolveUDPAddr := fun _ => .error "no such host" }

def sampleState (allowedIPs : List String) : State :=
  { peers := [{ peerName := "m", peerPubkey := List.replicate 32 1, allowedIPs := allowedIPs }] }

/-- A second state with one more overlay leaves no trace of the first. -/
theorem apply_after_apply_larger :
    let first := (sampleConfigurator.apply sampleEnv (sampleState ["10.0.0.1/32"]) {}).1
    let second := sampleState ["10.0.0.1/32", "10.0.0.2/32"]
    (sampleConfigurator.apply sampleEnv second first).1.routes =
      (sampleConfigurator.apply sampleEnv second {}).1.routes := by
  intro first second
  have hfirst : first.routes.keys = ["10.0.0.1/32"] := by decide
  refine (apply_after_apply sampleEnv sampleEnv (sampleState ["10.0.0.1/32"]) second rfl
    (by decide)).2.2.2.mpr ?_
  intro k hk
  have hkeys : k ∈ first.routes.keys := Std.ExtTreeMap.mem_keys.mpr hk
  rw [hfirst, List.mem_singleton] at hkeys
  rw [hkeys]
  decide

/-- The route to an overlay that the second state no longer has stays in the table. -/
theorem route_outlives_state :
    let first := (sampleConfigurator.apply sampleEnv (sampleState ["10.0.0.1/32"]) {}).1
    let second := sampleState ["10.0.0.2/32"]
    (sampleConfigurator.apply sampleEnv (sampleState ["10.0.0.1/32"]) {}).2 = .ok () ∧
      (sampleConfigurator.apply sampleEnv second first).2 = .ok () ∧
      (sampleConfigurator.apply sampleEnv second {}).2 = .ok () ∧
      "10.0.0.1/32" ∈ (sampleConfigurator.apply sampleEnv second first).1.routes ∧
      "10.0.0.1/32" ∉ (sampleConfigurator.apply sampleEnv second {}).1.routes := by
  decide

end AwgMesh.Clientd
