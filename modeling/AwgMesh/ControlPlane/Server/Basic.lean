import AwgMesh.ControlPlane.Audit
import AwgMesh.ControlPlane.Ledger.Basic
import AwgMesh.ControlPlane.Registry.Basic
import AwgMesh.Lib.Handler

/-!
# The control-plane handlers

The node life-cycle part of `pkg/control_plane/server.go` and `Daemon.SelfRegister`.
-/

namespace AwgMesh.ControlPlane

open Lib Handler

/-! ## The shared state -/

inductive HandlerError where
  | nodeNameRequired
  | registry (err : RegistryError)
  | ledger (err : LedgerError)
  | missingAfterWrite
  | seed (name : String) (err : LedgerError)
  | observer (err : String)
  | notRegistered (name : String)
  | notInRegistry
  | noSurvivingMaster
  | drainNoChooser (overlayIP : String)
  | drainEmptyChoice (overlayIP : String)
  | drain (overlayIP : String) (err : LedgerError)
  deriving DecidableEq

def HandlerError.message (quote : String → String) : HandlerError → String
  | .nodeNameRequired => "node_name required"
  | .registry err => err.message quote
  | .ledger err => err.message quote
  | .missingAfterWrite => "registered node missing after registry write"
  | .seed name err =>
    "seed ownership for registered node " ++ quote name ++ ": " ++ err.message quote
  | .observer err => "registration observer: " ++ err
  | .notRegistered name => "node " ++ quote name ++ " not registered"
  | .notInRegistry => "node not in registry"
  | .noSurvivingMaster => "no surviving master available for reassignment"
  | .drainNoChooser overlayIP =>
    "ledger: drain aborted at overlay_ip " ++ overlayIP ++ " — chooseMaster is nil"
  | .drainEmptyChoice overlayIP =>
    "ledger: drain aborted at overlay_ip " ++ overlayIP ++ " — chooseMaster returned empty"
  | .drain overlayIP err =>
    "ledger: drain failed at overlay_ip " ++ overlayIP ++ ": " ++ err.message quote

inductive AuditDetail where
  | error (err : HandlerError)
  | registered (roles : List String) (overlayIP region : String)
  | partialDrain (drained : Nat) (err : HandlerError)
  | reassigned (count : Nat)

structure Plane (δ : Type) where
  registry : Registry := {}
  ledger : Ledger := {}
  audit : AuditLog AuditDetail := AuditLog.new 0
  world : δ

abbrev Observer (δ : Type) := RegisteredNode → δ → δ × Except String Unit

variable {δ : Type}

/-! ## Atomic calls -/

def registryCall (f : Registry → Except RegistryError Registry) :
    Handler (Plane δ) (Except RegistryError Unit) :=
  atomic fun s =>
    match f s.registry with
    | .error err => (s, .error err)
    | .ok r => ({ s with registry := r }, .ok ())

def registryLookup (name : String) : Handler (Plane δ) (Option RegisteredNode) :=
  read fun s => s.registry.lookup name

def ledgerReassign (now : Time) (overlayIP expectedOwner newOwner reason : String)
    (checkOwner : Bool) : Handler (Plane δ) (Except LedgerError Nat) :=
  atomic fun s =>
    match s.ledger.reassign now overlayIP expectedOwner newOwner reason checkOwner with
    | .error err => (s, .error err)
    | .ok (l, v) => ({ s with ledger := l }, .ok v)

def ledgerLookup (overlayIP : String) : Handler (Plane δ) (Option OwnershipEntry) :=
  read fun s => s.ledger.lookup overlayIP

def auditAppend (now : Time) (e : AuditEvent AuditDetail) : Handler (Plane δ) Unit :=
  atomic fun s => ({ s with audit := s.audit.append now e }, ())

def notifyRegistrationObserver (onRegister : Option (Observer δ)) (node : RegisteredNode) :
    Handler (Plane δ) (Except HandlerError Unit) :=
  match onRegister with
  | none => pure (.ok ())
  | some observer =>
    atomic fun s =>
      match observer node s.world with
      | (world, .error err) => ({ s with world := world }, .error (.observer err))
      | (world, .ok ()) => ({ s with world := world }, .ok ())

/-! ## Seeding ownership -/

def singleSelfRegisteredMasterLoop : List OwnershipEntry → (owner : String) →
    Handler (Plane δ) (Option String)
  | [], owner => pure (if owner = "" then none else some owner)
  | entry :: rest, owner =>
    if entry.owningMaster = "" then singleSelfRegisteredMasterLoop rest owner
    else do
      match ← registryLookup entry.owningMaster with
      | none => singleSelfRegisteredMasterLoop rest owner
      | some node =>
        if !node.isMaster || node.overlayIP ≠ entry.overlayIP then
          singleSelfRegisteredMasterLoop rest owner
        else if owner ≠ "" && owner ≠ entry.owningMaster then pure none
        else singleSelfRegisteredMasterLoop rest entry.owningMaster

def singleSelfRegisteredMaster : Handler (Plane δ) (Option String) := do
  let snapshot ← read fun s => s.ledger.snapshot
  singleSelfRegisteredMasterLoop snapshot ""

def seedRegisteredNodeOwnership (now : Time) (node : RegisteredNode) :
    Handler (Plane δ) (Except HandlerError Unit) :=
  if node.isMaster then pure (.ok ())
  else do
    match ← singleSelfRegisteredMaster with
    | none => pure (.ok ())
    | some owner =>
      match ← ledgerLookup node.overlayIP with
      | some _ => pure (.ok ())
      | none =>
        match ← ledgerReassign now node.overlayIP "" owner "register" false with
        | .error err => pure (.error (.seed node.name err))
        | .ok _ => pure (.ok ())

def seedAll (now : Time) : List RegisteredNode → Handler (Plane δ) (Except HandlerError Unit)
  | [] => pure (.ok ())
  | node :: rest => do
      match ← seedRegisteredNodeOwnership now node with
      | .error err => pure (.error err)
      | .ok () => seedAll now rest

def seedExistingRegisteredNodeOwnership (now : Time) :
    Handler (Plane δ) (Except HandlerError Unit) := do
  let nodes ← read fun s => s.registry.list
  seedAll now nodes

def seedRegistrationOwnership (now : Time) (node : RegisteredNode) :
    Handler (Plane δ) (Except HandlerError Unit) :=
  if node.isMaster then seedExistingRegisteredNodeOwnership now
  else seedRegisteredNodeOwnership now node

/-! ## `RegisterNode` -/

structure RegisterNodeRequest where
  nodeName : String := ""
  roles : List String := []
  nodeCertPem : Bytes := []
  nodeVersion : String := ""
  overlayIp : String := ""
  region : String := ""
  pubkey : Bytes := []
  endpointHost : String := ""
  protocol : String := ""
  deriving DecidableEq

structure RegisterNodeResponse where
  accepted : Bool
  rejectReason : Option HandlerError := none
  registeredAtUnix : Int := 0
  deriving DecidableEq

def RegisterNodeRequest.node (req : RegisterNodeRequest) : RegisteredNode :=
  { name := req.nodeName
    roles := req.roles.map Role.ofString
    overlayIP := req.overlayIp
    region := req.region
    nodeCertPEM := req.nodeCertPem
    nodeVersion := req.nodeVersion
    pubkey := req.pubkey
    endpointHost := req.endpointHost
    protocol := req.protocol }

def RegisterNodeResponse.reject (err : HandlerError) : RegisterNodeResponse :=
  { accepted := false, rejectReason := some err }

def rejectAndRemove (now : Time) (name : String) (err : HandlerError) :
    Handler (Plane δ) RegisterNodeResponse := do
  auditAppend now
    { eventType := "register-rejected", nodeName := name, detail := some (.error err) }
  match ← registryCall fun r => r.remove name with
  | .error removeErr =>
    auditAppend now
      { eventType := "register-rollback-failed"
        nodeName := name
        detail := some (.error (.registry removeErr)) }
    pure (.reject err)
  | .ok () => pure (.reject err)

def finishRegisterNode (now : Time) (onRegister : Option (Observer δ))
    (req : RegisterNodeRequest) : Handler (Plane δ) RegisterNodeResponse := do
  match ← registryLookup req.nodeName with
  | none =>
    auditAppend now
      { eventType := "register-rejected"
        nodeName := req.nodeName
        detail := some (.error .missingAfterWrite) }
    pure (.reject .missingAfterWrite)
  | some saved =>
    match ← seedRegistrationOwnership now saved with
    | .error err => rejectAndRemove now req.nodeName err
    | .ok () =>
      match ← notifyRegistrationObserver onRegister saved with
      | .error err => rejectAndRemove now req.nodeName err
      | .ok () =>
        auditAppend now
          { eventType := "register"
            nodeName := req.nodeName
            detail := some (.registered req.roles req.overlayIp req.region) }
        pure { accepted := true, registeredAtUnix := saved.registeredAt.unix }

def registerNode (now : Time) (onRegister : Option (Observer δ)) (req : RegisterNodeRequest) :
    Handler (Plane δ) RegisterNodeResponse :=
  if req.nodeName = "" then pure (.reject .nodeNameRequired)
  else do
    match ← registryCall fun r => r.register now req.node with
    | .error err =>
      auditAppend now
        { eventType := "register-rejected"
          nodeName := req.nodeName
          detail := some (.error (.registry err)) }
      pure (.reject (.registry err))
    | .ok () =>
      if req.node.isMaster then
        match ← ledgerReassign now req.overlayIp "" req.nodeName "register" false with
        | .error err => rejectAndRemove now req.nodeName (.ledger err)
        | .ok _ => finishRegisterNode now onRegister req
      else finishRegisterNode now onRegister req

/-! ## `Heartbeat` -/

structure HeartbeatRequest where
  nodeName : String := ""
  health : Option (OMap String String) := none
  pubkey : Bytes := []
  endpointHost : String := ""
  protocol : String := ""

structure HeartbeatResponse where
  serverAtUnix : Int
  stale : Bool := false

def HeartbeatRequest.hasPeerIdentity (req : HeartbeatRequest) : Bool :=
  req.pubkey ≠ [] || req.endpointHost ≠ "" || req.protocol ≠ ""

def finishHeartbeat (now : Time) (name : String) :
    Handler (Plane δ) (Except HandlerError HeartbeatResponse) := do
  auditAppend now { eventType := "heartbeat", nodeName := name }
  pure (.ok { serverAtUnix := now.unix })

def rejectHeartbeat (now : Time) (name : String) (err : HandlerError) :
    Handler (Plane δ) (Except HandlerError HeartbeatResponse) := do
  auditAppend now
    { eventType := "heartbeat-rejected", nodeName := name, detail := some (.error err) }
  pure (.error err)

/-- One round of the loop of `Server.Heartbeat`. -/
def heartbeat (now : Time) (onRegister : Option (Observer δ)) (req : HeartbeatRequest) :
    Handler (Plane δ) (Except HandlerError HeartbeatResponse) := do
  match ← registryCall fun r =>
      r.heartbeat now req.nodeName req.health req.pubkey req.endpointHost req.protocol with
  | .error _ => pure (.error (.notRegistered req.nodeName))
  | .ok () =>
    if req.hasPeerIdentity then
      match ← registryLookup req.nodeName with
      | none => pure (.error (.notRegistered req.nodeName))
      | some saved =>
        match ← seedRegistrationOwnership now saved with
        | .error err => rejectHeartbeat now req.nodeName err
        | .ok () =>
          match ← notifyRegistrationObserver onRegister saved with
          | .error err => rejectHeartbeat now req.nodeName err
          | .ok () => finishHeartbeat now req.nodeName
    else finishHeartbeat now req.nodeName

/-! ## `DecommissionNode` -/

def int32 (n : Int) : Int := n.bmod (2 ^ 32)

structure DecommissionResponse where
  success : Bool
  error : Option HandlerError := none
  reassignedOverlayCount : Int := 0

def filterOut (names : List String) (exclude : String) : List String :=
  names.filter (· ≠ exclude)

def roundRobinChooser (masters : List String) (i : Nat) : String :=
  if masters = [] then "" else masters.getD (i % masters.length) ""

/-- The loop of `Ledger.Drain`. -/
def drainLoop (now : Time) (sourceMaster reason : String) (chooseMaster : Option (Nat → String)) :
    List OwnershipEntry → (calls reassigned : Nat) → Handler (Plane δ) (Nat × Option HandlerError)
  | [], _, reassigned => pure (reassigned, none)
  | entry :: rest, calls, reassigned =>
    match chooseMaster with
    | none => pure (reassigned, some (.drainNoChooser entry.overlayIP))
    | some choose =>
      let newOwner := choose calls
      if newOwner = "" then pure (reassigned, some (.drainEmptyChoice entry.overlayIP))
      else if newOwner = sourceMaster then
        drainLoop now sourceMaster reason chooseMaster rest (calls + 1) reassigned
      else do
        match ← ledgerReassign now entry.overlayIP sourceMaster newOwner reason true with
        | .error (.ownerChanged ..) =>
          drainLoop now sourceMaster reason chooseMaster rest (calls + 1) reassigned
        | .error .notFound =>
          drainLoop now sourceMaster reason chooseMaster rest (calls + 1) reassigned
        | .error err => pure (reassigned, some (.drain entry.overlayIP err))
        | .ok _ =>
          drainLoop now sourceMaster reason chooseMaster rest (calls + 1) (reassigned + 1)

def drain (now : Time) (sourceMaster reason : String) (chooseMaster : Option (Nat → String)) :
    Handler (Plane δ) (Nat × Option HandlerError) := do
  let owned ← read fun s => s.ledger.ownedBy sourceMaster
  drainLoop now sourceMaster reason chooseMaster owned 0 0

def drainAndRemove (now : Time) (name : String) (chooser : Option (Nat → String)) :
    Handler (Plane δ) DecommissionResponse := do
  match ← drain now name "decommission" chooser with
  | (count, some err) =>
    auditAppend now
      { eventType := "decommission-failed", nodeName := name, detail := some (.error err) }
    pure { success := false, error := some err, reassignedOverlayCount := int32 count }
  | (count, none) =>
    match ← registryCall fun r => r.remove name with
    | .error err =>
      auditAppend now
        { eventType := "decommission-partial"
          nodeName := name
          detail := some (.partialDrain count (.registry err)) }
      pure
        { success := false
          error := some (.registry err)
          reassignedOverlayCount := int32 count }
    | .ok () =>
      auditAppend now
        { eventType := "decommission", nodeName := name, detail := some (.reassigned count) }
      pure { success := true, reassignedOverlayCount := int32 count }

/-- `Server.DecommissionNode`. -/
def decommissionNode (now : Time) (name : String) : Handler (Plane δ) DecommissionResponse :=
  if name = "" then pure { success := false, error := some .nodeNameRequired }
  else do
    match ← registryLookup name with
    | none => pure { success := false, error := some .notInRegistry }
    | some target =>
      let owned ← read fun s => s.ledger.ownedBy name
      if owned.length > 0 then do
        let inRegion ← read fun s => s.registry.mastersInRegion target.region
        let candidates := filterOut inRegion name
        if candidates ≠ [] then drainAndRemove now name (some (roundRobinChooser candidates))
        else do
          let anywhere ← read fun s => s.registry.mastersInRegion ""
          let candidates := filterOut anywhere name
          if candidates ≠ [] then drainAndRemove now name (some (roundRobinChooser candidates))
          else pure { success := false, error := some .noSurvivingMaster }
      else drainAndRemove now name none

/-! ## `SelfRegister` -/

/-- The last two are wrapped as `ledger reassign for self-register` and as `seed registered node
ownership after self-register`. -/
inductive SelfRegisterError where
  | registry (err : RegistryError)
  | reassign (err : LedgerError)
  | seed (err : HandlerError)
  deriving DecidableEq

/-- `Daemon.SelfRegister`. -/
def selfRegister (now : Time) (node : RegisteredNode) :
    Handler (Plane δ) (Except SelfRegisterError Unit) := do
  match ← registryCall fun r => r.register now node with
  | .error err => pure (.error (.registry err))
  | .ok () =>
    if node.isMaster then
      match ← ledgerReassign now node.overlayIP "" node.name "self-register" false with
      | .error err => pure (.error (.reassign err))
      | .ok _ => Except.mapError .seed <$> seedExistingRegisteredNodeOwnership now
    else pure (.ok ())

end AwgMesh.ControlPlane
