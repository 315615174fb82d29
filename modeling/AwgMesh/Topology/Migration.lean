import AwgMesh.Topology.V1
import AwgMesh.Topology.V2

/-!
# Migrating a topology from v1 to v2

`MigrateV1ToV2WithReport` of `pkg/topology/migrate_v1_to_v2.go`, from the decoded v1 document on.
-/

namespace AwgMesh.Migration

open Lib.Checks List

/-! ## The v1 document -/

structure MasterNode extends TopologyV1.MasterNode where
  host : String := ""
  peerHost : String := ""
  listenPort : Int := 0
  grpcPort : Int := 0
  exit : Bool := false

structure EndpointNode extends TopologyV1.EndpointNode where
  host : String := ""
  peerHost : String := ""
  listenPort : Int := 0
  grpcPort : Int := 0
  region : String := ""

structure VethConfig where
  name : String := ""
  gateway : String := ""

structure DNSConfig where
  zone : String := ""
  listen : String := ""
  upstream : String := ""

structure ClientNode extends TopologyV1.ClientNode where
  type : String := ""
  host : String := ""
  grpcPort : Int := 0
  veth : Option VethConfig := none
  dns : Option DNSConfig := none

structure OverlayConfig extends TopologyV1.OverlayConfig where
  physicalMTU : Int := 0
  awgOverhead : Int := 0

structure CaptureConfig where
  domainsFile : String := ""
  schedule : String := ""
  retentionDays : Int := 0

structure RotationConfig where
  tier1Interval : String := ""
  tier2Interval : String := ""
  tier3Interval : String := ""
  preset : String := ""

structure Legacy where
  imageNode : String := ""
  imageClient : String := ""
  overlay : OverlayConfig
  masters : List MasterNode := []
  endpoints : List EndpointNode := []
  clients : List ClientNode := []
  capture : CaptureConfig := {}
  rotation : RotationConfig := {}

inductive LegacyNode where
  | master (m : MasterNode)
  | endpoint (e : EndpointNode)
  | client (c : ClientNode)

def Legacy.nodes (legacy : Legacy) : List LegacyNode :=
  legacy.masters.map .master ++ legacy.endpoints.map .endpoint ++ legacy.clients.map .client

/-! ## The v2 topology -/

structure NodeV2 extends SchemaV2.NodeV2 where
  region : String := ""
  preferredMaster : String := ""
  meshProtocol : String := ""

structure TopologyV2 where
  mesh : SchemaV2.MeshConfig
  nodes : List NodeV2
  capture : CaptureConfig
  rotation : RotationConfig

def TopologyV2.toSchema (t : TopologyV2) : SchemaV2.TopologyV2 :=
  { mesh := t.mesh, nodes := t.nodes.map (·.toNodeV2) }

inductive Warning where
  | topologyDropped (fields : List String)
  | nodeDropped (kind name : String) (fields : List String)
  | exitMapped (name : String)
  | mapped (kind name roles : String)

def Warning.text (quote : String → String) : Warning → String
  | .topologyDropped fields =>
    "topology-wide v1-only fields were dropped: " ++ ", ".intercalate fields
  | .nodeDropped kind name fields =>
    kind ++ " " ++ quote name ++ " dropped v1-only fields: " ++ ", ".intercalate fields
  | .exitMapped name =>
    "master " ++ quote name ++ " has exit=true and was mapped to roles [master balancer egress]"
  | .mapped kind name roles => kind ++ " " ++ quote name ++ " was mapped to " ++ roles

inductive MigrationError where
  | missingName
  | duplicateName (name : String)
  | invalid (err : SchemaV2.V2Error)

/-! ## Dropped fields -/

def present (s : String) : Bool := trimSpace s ≠ ""

def setFields (fields : List (String × Bool)) : List String := (fields.filter (·.2)).map (·.1)

def legacyTopologyDroppedFields (legacy : Legacy) : List String := setFields [
  ("defaults.image.node", present legacy.imageNode),
  ("defaults.image.client", present legacy.imageClient),
  ("overlay.physical_mtu", legacy.overlay.physicalMTU ≠ 0),
  ("overlay.awg_overhead", legacy.overlay.awgOverhead ≠ 0),
  ("overlay.ranges", legacy.overlay.ranges.length > 0)]

def legacyMasterDroppedFields (m : MasterNode) : List String := setFields [
  ("host", present m.host), ("peer_host", present m.peerHost), ("listen_port", m.listenPort ≠ 0),
  ("grpc_port", m.grpcPort ≠ 0), ("endpoints", m.endpoints.length > 0)]

def legacyEndpointDroppedFields (e : EndpointNode) : List String := setFields [
  ("host", present e.host), ("peer_host", present e.peerHost), ("listen_port", e.listenPort ≠ 0),
  ("grpc_port", e.grpcPort ≠ 0)]

def legacyClientDroppedFields (c : ClientNode) : List String := setFields [
  ("host", present c.host), ("grpc_port", c.grpcPort ≠ 0), ("veth", c.veth.isSome),
  ("mikrotik", c.storageRoot.isSome), ("masters[1:]", c.masters.length > 1),
  ("routing_policies", c.routingPolicies.length > 0), ("dns", c.dns.isSome)]

/-! ## The migration -/

def migratedOverlaySupernet (overlay : OverlayConfig) : String :=
  if trimSpace overlay.space ≠ "" then trimSpace overlay.space
  else match overlay.ranges with
    | first :: _ => trimSpace first.cidr
    | [] => ""

namespace LegacyNode

def kind : LegacyNode → String
  | master _ => "master"
  | endpoint _ => "endpoint"
  | client _ => "client"

def name : LegacyNode → String
  | master m => m.name
  | endpoint e => e.name
  | client c => c.name

def overlayIP : LegacyNode → String
  | master m => m.overlayIP
  | endpoint e => e.overlayIP
  | client c => c.overlayIP

def roles : LegacyNode → List Role
  | master m => if m.exit then [.master, .balancer, .egress] else [.master, .balancer]
  | endpoint _ => [.egress]
  | client _ => [.client]

def dropped : LegacyNode → List String
  | master m => legacyMasterDroppedFields m
  | endpoint e => legacyEndpointDroppedFields e
  | client c => legacyClientDroppedFields c

def mapped : LegacyNode → Warning
  | master m =>
    if m.exit then .exitMapped m.name else .mapped "master" m.name "roles [master balancer]"
  | endpoint e => .mapped "endpoint" e.name "role [egress]"
  | client c => .mapped "client" c.name "role [client]"

def warnings (n : LegacyNode) : List Warning :=
  (if n.dropped.length > 0 then [.nodeDropped n.kind n.name n.dropped] else []) ++ [n.mapped]

def migrated (n : LegacyNode) : NodeV2 :=
  let base : SchemaV2.NodeV2 :=
    { name := trimSpace n.name, roles := n.roles, overlayIP := trimSpace n.overlayIP }
  match n with
  | master _ => { base with clientProtocol := "vanilla-wg", meshProtocol := "amneziawg" }
  | endpoint e => { base with region := trimSpace e.region, meshProtocol := "amneziawg" }
  | client c =>
    { base with
      platform := trimSpace c.type, clientProtocol := "vanilla-wg"
      preferredMaster := (c.masters.head?.map trimSpace).getD "" }

end LegacyNode

def appendMigratedNode (nodes : List NodeV2) (node : NodeV2) :
    Except MigrationError (List NodeV2) := do
  refuseIf (node.name = "") .missingName
  refuseIf (node.name ∈ nodes.map (·.name)) (.duplicateName node.name)
  return nodes ++ [node]

def migrateNodes : List LegacyNode → (nodes : List NodeV2) → (warnings : List Warning) →
    Except MigrationError (List NodeV2 × List Warning)
  | [], nodes, warnings => .ok (nodes, warnings)
  | n :: rest, nodes, warnings => do
    let nodes ← appendMigratedNode nodes n.migrated
    migrateNodes rest nodes (warnings ++ n.warnings)

structure MigrationResult where
  topology : TopologyV2
  warnings : List Warning

def migrateV1ToV2WithReport (legacy : Legacy) : Except MigrationError MigrationResult := do
  let fields := legacyTopologyDroppedFields legacy
  let warnings := if fields.length > 0 then [.topologyDropped fields] else []
  let (nodes, warnings) ← migrateNodes legacy.nodes [] warnings
  let topology : TopologyV2 := {
    mesh := { name := "migrated-mesh", overlaySupernet := migratedOverlaySupernet legacy.overlay }
    nodes := nodes, capture := legacy.capture, rotation := legacy.rotation }
  (SchemaV2.validateV2 topology.toSchema).mapError .invalid
  return { topology, warnings }

/-! ## What becomes of a field -/

structure Field (T : Type) where
  key : String
  set : Bool
  carried : T → Prop := fun _ => False

def LegacyNode.fields : LegacyNode → List (Field NodeV2)
  | master m => [
    { key := "name", set := present m.name, carried := fun n => n.name = trimSpace m.name },
    { key := "host", set := present m.host }, { key := "peer_host", set := present m.peerHost },
    { key := "overlay_ip", set := present m.overlayIP
      carried := fun n => n.overlayIP = trimSpace m.overlayIP },
    { key := "listen_port", set := m.listenPort ≠ 0 },
    { key := "grpc_port", set := m.grpcPort ≠ 0 },
    { key := "endpoints", set := m.endpoints.length > 0 },
    { key := "exit", set := m.exit, carried := fun n => .egress ∈ n.roles }]
  | endpoint e => [
    { key := "name", set := present e.name, carried := fun n => n.name = trimSpace e.name },
    { key := "host", set := present e.host }, { key := "peer_host", set := present e.peerHost },
    { key := "overlay_ip", set := present e.overlayIP
      carried := fun n => n.overlayIP = trimSpace e.overlayIP },
    { key := "listen_port", set := e.listenPort ≠ 0 },
    { key := "grpc_port", set := e.grpcPort ≠ 0 },
    { key := "region", set := present e.region
      carried := fun n => n.region = trimSpace e.region }]
  | client c => [
    { key := "name", set := present c.name, carried := fun n => n.name = trimSpace c.name },
    { key := "type", set := present c.type, carried := fun n => n.platform = trimSpace c.type },
    { key := "host", set := present c.host },
    { key := "overlay_ip", set := present c.overlayIP
      carried := fun n => n.overlayIP = trimSpace c.overlayIP },
    { key := "grpc_port", set := c.grpcPort ≠ 0 }, { key := "veth", set := c.veth.isSome },
    { key := "mikrotik", set := c.storageRoot.isSome },
    { key := "masters[0]", set := c.masters.length > 0
      carried := fun n => c.masters.head?.map trimSpace = some n.preferredMaster },
    { key := "masters[1:]", set := c.masters.length > 1 },
    { key := "routing_policies", set := c.routingPolicies.length > 0 },
    { key := "dns", set := c.dns.isSome }]

def Legacy.fields (legacy : Legacy) : List (Field TopologyV2) := [
  { key := "defaults.image.node", set := present legacy.imageNode },
  { key := "defaults.image.client", set := present legacy.imageClient },
  { key := "overlay.space", set := present legacy.overlay.space
    carried := fun t => t.mesh.overlaySupernet = trimSpace legacy.overlay.space },
  { key := "overlay.physical_mtu", set := legacy.overlay.physicalMTU ≠ 0 },
  { key := "overlay.awg_overhead", set := legacy.overlay.awgOverhead ≠ 0 },
  { key := "overlay.ranges", set := legacy.overlay.ranges.length > 0 },
  { key := "capture", set := true, carried := fun t => t.capture = legacy.capture },
  { key := "rotation", set := true, carried := fun t => t.rotation = legacy.rotation }]

theorem mem_setFields {fields : List (String × Bool)} {key : String} :
    key ∈ setFields fields ↔ (key, true) ∈ fields := by
  simp [setFields]

theorem LegacyNode.carried_or_dropped (n : LegacyNode) :
    ∀ f ∈ n.fields, f.set → f.carried n.migrated ∨ f.key ∈ n.dropped := by
  cases n with
  | master m =>
    simp +contextual [fields, dropped, legacyMasterDroppedFields, mem_setFields, migrated, name,
      overlayIP, roles]
  | endpoint e =>
    simp +contextual [fields, dropped, legacyEndpointDroppedFields, mem_setFields, migrated, name,
      overlayIP]
  | client c =>
    simp +contextual [fields, dropped, legacyClientDroppedFields, mem_setFields, migrated, name,
      overlayIP]
    intro hpos
    obtain ⟨first, rest, hmasters⟩ := exists_cons_of_length_pos hpos
    simp [hmasters]

theorem Legacy.carried_or_dropped {legacy : Legacy} {t : TopologyV2}
    (hmesh : t.mesh.overlaySupernet = migratedOverlaySupernet legacy.overlay)
    (hcapture : t.capture = legacy.capture) (hrotation : t.rotation = legacy.rotation) :
    ∀ f ∈ legacy.fields, f.set → f.carried t ∨ f.key ∈ legacyTopologyDroppedFields legacy := by
  simp +contextual [fields, legacyTopologyDroppedFields, mem_setFields, hmesh, hcapture, hrotation,
    migratedOverlaySupernet, present]

theorem LegacyNode.nodeDropped_mem {n : LegacyNode} {key : String} (h : key ∈ n.dropped) :
    .nodeDropped n.kind n.name n.dropped ∈ n.warnings := by
  rw [warnings, if_pos (length_pos_of_mem h)]
  exact mem_append_left _ mem_cons_self

/-! ## The result -/

theorem migrateNodes_ok {l : List LegacyNode} {nodes nodes' : List NodeV2}
    {warnings warnings' : List Warning}
    (h : migrateNodes l nodes warnings = .ok (nodes', warnings'))
    (hnames : (nodes.map (·.name)).Nodup) :
    nodes' = nodes ++ l.map (·.migrated) ∧ warnings' = warnings ++ l.flatMap (·.warnings) ∧
      (nodes'.map (·.name)).Nodup := by
  induction l generalizing nodes warnings with
  | nil =>
    cases h
    simp [hnames]
  | cons n rest ih =>
    simp only [migrateNodes, appendMigratedNode, bind_eq_ok, refuseIf_eq_ok, pure_eq_ok] at h
    obtain ⟨_, ⟨_, _, _, hfresh, rfl⟩, hrest⟩ := h
    have hgrown : ((nodes ++ [n.migrated]).map (·.name)).Nodup := by
      rw [map_append, nodup_append]
      refine ⟨hnames, by simp, ?_⟩
      rintro name hname _ hmem rfl
      rw [map_singleton, mem_singleton] at hmem
      exact hfresh (hmem ▸ hname)
    obtain ⟨rfl, rfl, hnodup⟩ := ih hrest hgrown
    exact ⟨by simp, by simp, hnodup⟩

/-- The roles that the notes of the migration give to each kind of node. -/
inductive DocumentedRoles : LegacyNode → List Role → Prop
  | master {m : MasterNode} (h : m.exit = false) : DocumentedRoles (.master m) [.master, .balancer]
  | exit {m : MasterNode} (h : m.exit = true) :
      DocumentedRoles (.master m) [.master, .balancer, .egress]
  | endpoint {e : EndpointNode} : DocumentedRoles (.endpoint e) [.egress]
  | client {c : ClientNode} : DocumentedRoles (.client c) [.client]

/-- What became of a node, and what the lines of the report say about it. -/
structure Kept (quote : String → String) (report : List String) (old : LegacyNode) (new : NodeV2) :
    Prop where
  name : new.name = trimSpace old.name
  overlayIP : new.overlayIP = trimSpace old.overlayIP
  roles : DocumentedRoles old new.roles
  fields : ∀ f ∈ old.fields, f.set → f.carried new ∨ ∃ dropped, f.key ∈ dropped ∧
    old.kind ++ " " ++ quote old.name ++ " dropped v1-only fields: " ++ ", ".intercalate dropped ∈
      report

def MigrationResult.report (quote : String → String) (result : MigrationResult) : List String :=
  result.warnings.map (·.text quote)

theorem LegacyNode.kept {n : LegacyNode} {quote : String → String} {warnings : List Warning}
    (h : ∀ w ∈ n.warnings, w ∈ warnings) :
    Kept quote (warnings.map (·.text quote)) n n.migrated where
  name := by cases n <;> rfl
  overlayIP := by cases n <;> rfl
  roles := by
    cases n with
    | master m =>
      cases hexit : m.exit with
      | false => simpa [migrated, LegacyNode.roles, hexit] using DocumentedRoles.master hexit
      | true => simpa [migrated, LegacyNode.roles, hexit] using DocumentedRoles.exit hexit
    | endpoint e => exact .endpoint
    | client c => exact .client
  fields f hf hset := by
    refine (n.carried_or_dropped f hf hset).imp_right fun hdropped => ⟨n.dropped, hdropped, ?_⟩
    exact mem_map_of_mem (h _ (n.nodeDropped_mem hdropped))

/-- **The migration loses nothing silently**. -/
theorem migration_loses_nothing (quote : String → String) {legacy : Legacy}
    {result : MigrationResult} (h : migrateV1ToV2WithReport legacy = .ok result) :
    Forall₂ (Kept quote (result.report quote)) legacy.nodes result.topology.nodes ∧
      (result.topology.nodes.map (·.name)).Nodup ∧
      SchemaV2.validateV2 result.topology.toSchema = .ok () ∧
      ∀ f ∈ legacy.fields, f.set → f.carried result.topology ∨ ∃ dropped, f.key ∈ dropped ∧
        "topology-wide v1-only fields were dropped: " ++ ", ".intercalate dropped ∈
          result.report quote := by
  simp only [migrateV1ToV2WithReport, bind_eq_ok, mapError_eq_ok, pure_eq_ok] at h
  obtain ⟨⟨nodes, warnings⟩, hnodes, ⟨⟩, hvalid, hresult⟩ := h
  obtain ⟨hmigrated, hwarnings, hnodup⟩ := migrateNodes_ok hnodes nodup_nil
  have hfields := @Legacy.carried_or_dropped legacy result.topology (by rw [← hresult])
    (by rw [← hresult]) (by rw [← hresult])
  obtain ⟨hnodes', hwarnings'⟩ : result.topology.nodes = nodes ∧ result.warnings = warnings := by
    rw [← hresult]
    exact ⟨rfl, rfl⟩
  rw [MigrationResult.report, hnodes', hwarnings']
  refine ⟨?_, hnodup, by rw [← hresult]; exact hvalid, fun f hf hset => ?_⟩
  · rw [hmigrated, nil_append, forall₂_map_right_iff, forall₂_same]
    refine fun n hn => LegacyNode.kept fun w hw => ?_
    rw [hwarnings]
    exact mem_append_right _ (mem_flatMap.mpr ⟨n, hn, hw⟩)
  · refine (hfields f hf hset).imp_right fun hdropped => ⟨_, hdropped, ?_⟩
    rw [hwarnings, if_pos (length_pos_of_mem hdropped)]
    exact mem_cons_self

def smallDocument : Legacy :=
  { overlay := { space := "10.0.0.0/8", physicalMTU := 1500 }
    masters := [{ name := " m ", overlayIP := "10.0.0.1", host := "h", exit := true }]
    clients := [{ name := "c", overlayIP := "10.0.0.2", masters := ["m", "n"] }] }

/-- `%q` of a name without special characters. -/
def quoteName (name : String) : String := "\"" ++ name ++ "\""

theorem migration_of_smallDocument :
    ∃ result, migrateV1ToV2WithReport smallDocument = .ok result ∧
      Forall₂ DocumentedRoles smallDocument.nodes (result.topology.nodes.map (·.roles)) ∧
      ∃ dropped, "overlay.physical_mtu" ∈ dropped ∧
        "topology-wide v1-only fields were dropped: " ++ ", ".intercalate dropped ∈
          result.report quoteName := by
  obtain ⟨result, hresult⟩ : ∃ result, migrateV1ToV2WithReport smallDocument = .ok result :=
    ⟨_, rfl⟩
  obtain ⟨hkept, -, -, hfields⟩ := migration_loses_nothing quoteName hresult
  simp only [Legacy.fields, forall_mem_cons] at hfields
  obtain ⟨-, -, -, hmtu, -⟩ := hfields
  refine ⟨result, hresult, ?_, (hmtu rfl).resolve_left id⟩
  exact forall₂_map_right_iff.mpr (hkept.imp fun _ _ hnode => hnode.roles)

end AwgMesh.Migration
