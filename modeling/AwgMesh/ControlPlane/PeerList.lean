import AwgMesh.ControlPlane.Ledger.Basic
import AwgMesh.ControlPlane.Registry.Basic

/-!
# What the streams send

`buildPeerListUpdate` and `ownershipToProto` of `pkg/control_plane/server.go`, with the messages of
`proto/control_plane.proto` they fill in.
-/

namespace AwgMesh.ControlPlane

open Lib

structure PeerEntry where
  peerName : String := ""
  peerOverlayIp : String := ""
  peerPubkey : Bytes := []
  peerEndpointHost : String := ""
  allowedIps : List String := []
  persistentKeepaliveSecs : Int := 0
  protocol : String := ""

structure PeerListUpdate where
  subjectNode : String := ""
  peers : List PeerEntry := []
  version : Nat := 0

def defaultPeerPersistentKeepaliveSecs : Int := 25

structure MasterAgg where
  allowedIPs : List String
  overlayIP : String

def addToMaster (owner overlayIP : String) :
    List (String × MasterAgg) → List (String × MasterAgg)
  | [] => [(owner, { allowedIPs := [overlayIP ++ "/32"], overlayIP := overlayIP })]
  | (master, agg) :: rest =>
    if master = owner then
      (master, { agg with allowedIPs := agg.allowedIPs ++ [overlayIP ++ "/32"] }) :: rest
    else (master, agg) :: addToMaster owner overlayIP rest

/-- Step 1 of `buildPeerListUpdate`. -/
def groupByMaster (subjectOverlay : String) (snapshot : List OwnershipEntry) :
    List (String × MasterAgg) :=
  snapshot.foldl (fun groups e =>
    if subjectOverlay ≠ "" && e.overlayIP = subjectOverlay then groups
    else addToMaster e.owningMaster e.overlayIP groups) []

def peerEntry (r : Registry) (masterName : String) (agg : MasterAgg) : PeerEntry :=
  let entry : PeerEntry :=
    { peerName := masterName, peerOverlayIp := agg.overlayIP, allowedIps := agg.allowedIPs }
  match r.lookup masterName with
  | none => entry
  | some node =>
    { entry with
      peerOverlayIp := if node.overlayIP ≠ "" then node.overlayIP else entry.peerOverlayIp
      peerPubkey := node.pubkey
      peerEndpointHost := node.endpointHost
      persistentKeepaliveSecs := defaultPeerPersistentKeepaliveSecs
      protocol := node.protocol }

def subjectOverlay (r : Registry) (subject : String) : String :=
  match r.lookup subject with
  | none => ""
  | some node => node.overlayIP

def buildPeerListUpdate (r : Registry) (subject : String) (snapshot : List OwnershipEntry)
    (version : Nat) : PeerListUpdate :=
  { subjectNode := subject
    peers := (groupByMaster (subjectOverlay r subject) snapshot).map fun g => peerEntry r g.1 g.2
    version := version }

structure OwnershipRecord where
  overlayIp : String := ""
  owningMaster : String := ""
  lastReassignedAtUnix : Int := 0
  reason : String := ""

structure OwnershipUpdate where
  entries : List OwnershipRecord := []
  version : Nat := 0
  fullSnapshot : Bool := false

def ownershipToProto (entries : List OwnershipEntry) : List OwnershipRecord :=
  entries.map fun e =>
    { overlayIp := e.overlayIP
      owningMaster := e.owningMaster
      lastReassignedAtUnix := e.lastReassignedAt.unix
      reason := e.reason }

end AwgMesh.ControlPlane
