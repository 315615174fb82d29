import AwgMesh.AdminState.Store
import AwgMesh.Awggen.Generator
import AwgMesh.Balancer.Cursor
import AwgMesh.Balancer.Stickiness
import AwgMesh.Clientd.Agent
import AwgMesh.Clientd.CertUpdateFaults
import AwgMesh.Clientd.Partition
import AwgMesh.ControlPlane.Addresses
import AwgMesh.ControlPlane.Cert.Issue
import AwgMesh.ControlPlane.Fanout.Delivery
import AwgMesh.ControlPlane.Fanout.Freshness
import AwgMesh.ControlPlane.Fanout.SelfPeer
import AwgMesh.ControlPlane.Server.AuditTrail
import AwgMesh.ControlPlane.Server.Blocking
import AwgMesh.ControlPlane.Server.Concurrent
import AwgMesh.ControlPlane.Server.Coverage
import AwgMesh.ControlPlane.Versions
import AwgMesh.Grpc.HotRotation
import AwgMesh.Ingress.CutMessage
import AwgMesh.Ingress.Flows
import AwgMesh.MeshCtl.KeyPair
import AwgMesh.MeshCtl.MeshCA
import AwgMesh.MeshCtl.RangeCover
import AwgMesh.MeshCtl.RoundTrip
import AwgMesh.MeshCtl.Tier3
import AwgMesh.MeshCtl.TokenRotate
import AwgMesh.MeshCtl.UpgradePlan
import AwgMesh.Mikrotik.Partition
import AwgMesh.Mikrotik.Veth
import AwgMesh.Node.DeviceAgreement
import AwgMesh.Node.MasterCoordination
import AwgMesh.Rotation.Orchestrator
import AwgMesh.Routing.StickyEcmp
import AwgMesh.Topology.AllowedIPs
import AwgMesh.Topology.Migration
import AwgMesh.Topology.Ranges
import AwgMesh.Upgrade.RemoteCommand
import AwgMesh.Upgrade.Rollback
import AwgMesh.Wg.ConfigFile
import AwgMesh.Wg.DualListener
