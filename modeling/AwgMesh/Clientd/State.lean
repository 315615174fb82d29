import AwgMesh.ControlPlane.PeerList

/-!
# The client's view of the mesh

`State` of `pkg/clientd/agent.go`: the peers and the ownership a client was last sent, with the
versions they came with.
-/

namespace AwgMesh.Clientd

open ControlPlane (OwnershipRecord)

structure PeerEntry where
  peerName : String := ""
  peerRole : Role := .unknown ""
  peerOverlayIP : String := ""
  peerPubkey : Bytes := []
  peerEndpointHost : String := ""
  allowedIPs : List String := []
  persistentKeepaliveSecs : Int := 0
  protocol : String := ""
  deriving DecidableEq

structure OwnershipEntry where
  overlayIP : String := ""
  owningMaster : String := ""
  lastReassignedAtUnix : Int := 0
  reason : String := ""
  deriving DecidableEq

structure State where
  peers : List PeerEntry := []
  ownership : List OwnershipEntry := []
  peerListVersion : Int := 0
  ownershipVersion : Int := 0
  deriving DecidableEq

structure PeerListMessage where
  peers : List (Option ControlPlane.PeerEntry) := []
  version : Int := 0

structure OwnershipMessage where
  entries : List (Option OwnershipRecord) := []
  version : Int := 0

def PeerEntry.ofProto (p : ControlPlane.PeerEntry) : PeerEntry :=
  { peerName := p.peerName
    peerOverlayIP := p.peerOverlayIp
    peerPubkey := p.peerPubkey
    peerEndpointHost := p.peerEndpointHost
    allowedIPs := p.allowedIps
    persistentKeepaliveSecs := p.persistentKeepaliveSecs
    protocol := p.protocol }

def OwnershipEntry.ofProto (e : OwnershipRecord) : OwnershipEntry :=
  { overlayIP := e.overlayIp
    owningMaster := e.owningMaster
    lastReassignedAtUnix := e.lastReassignedAtUnix
    reason := e.reason }

namespace State

def isZero (s : State) : Bool :=
  s.peers.length = 0 && s.ownership.length = 0 && s.peerListVersion = 0 && s.ownershipVersion = 0

def setPeerList (s : State) (update : PeerListMessage) : State :=
  { s with
    peerListVersion := update.version
    peers := update.peers.filterMap fun p => p.map PeerEntry.ofProto }

def withPeerList (s : State) (update : PeerListMessage) : State × Bool :=
  if update.version ≤ s.peerListVersion then (s, false) else (s.setPeerList update, true)

def withPeerListSnapshot (s : State) (update : PeerListMessage) : State × Bool :=
  (s.setPeerList update, true)

def setOwnership (s : State) (update : OwnershipMessage) : State :=
  { s with
    ownershipVersion := update.version
    ownership := update.entries.filterMap fun e => e.map OwnershipEntry.ofProto }

def withOwnership (s : State) (update : OwnershipMessage) : State × Bool :=
  if update.version ≤ s.ownershipVersion then (s, false) else (s.setOwnership update, true)

def withOwnershipSnapshot (s : State) (update : OwnershipMessage) : State × Bool :=
  (s.setOwnership update, true)

end State

end AwgMesh.Clientd
