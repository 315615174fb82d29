import AwgMesh.Lib.Checks
import AwgMesh.Net.Cidr
import AwgMesh.Role

/-!
# The v2 topology and its validator

The part of `pkg/topology/topology_v2.go` that `ValidateV2` and the generators of client
configurations read.
-/

namespace AwgMesh.SchemaV2

open Lib.Checks Net

structure MeshConfig where
  name : String := ""
  overlaySupernet : String

structure NodeV2 where
  name : String
  roles : List Role
  overlayIP : String
  bridgeIP : String := ""
  publicIP : String := ""
  meshListenPort : Int := 0
  meshEndpoint : String := ""
  platform : String := ""
  clientProtocol : String := ""
  deriving DecidableEq

structure TopologyV2 where
  schemaVersion : Int := 2
  mesh : MeshConfig
  nodes : List NodeV2

/-! ## Errors -/

inductive EndpointError where
  | notHostPort (endpoint : String) (err : HostPortError)
  | emptyHost
  | invalidPort (port : String)
  deriving DecidableEq

inductive V2Error where
  | schemaMissing
  | overlayMissing
  | overlayInvalid (supernet : String)
  | noNodes
  | nodeMissingName (index : Nat)
  | nodeMissingRoles (node : String)
  | composability (node : String) (err : RoleError)
  | listenPort (node : String)
  | meshEndpoint (node : String) (err : EndpointError)
  | publicIPPort (node : String)
  | nodeMissingOverlay (node : String)
  | invalidOverlayIP (node ip : String)
  | overlayOutOfRange (node ip supernet : String)
  | overlayDuplicate (first second ip : String)
  deriving DecidableEq

/-! ## The validator -/

def validateV2MeshEndpoint (endpoint : String) : Except EndpointError Unit := do
  let (host, portText) ← (splitHostPort endpoint.toList).mapError (.notHostPort endpoint)
  refuseIf (trimSpace (String.ofList host) = "") .emptyHost
  refuseIf (¬ ∃ port ∈ atoi portText, 1 ≤ port ∧ port ≤ 65535)
    (.invalidPort (String.ofList portText))

def validateMeshEndpointOf (n : NodeV2) : Except V2Error Unit :=
  let endpoint := trimSpace n.meshEndpoint
  if endpoint = "" then .ok ()
  else (validateV2MeshEndpoint endpoint).mapError (.meshEndpoint n.name)

def validateNode (supernet : IPNet) (supernetText : String) (i : Nat)
    (seenOverlay : List (String × String)) (n : NodeV2) : Except V2Error Unit := do
  refuseIf (n.name = "") (.nodeMissingName i)
  refuseIf (n.roles = []) (.nodeMissingRoles n.name)
  (validateComposability n.roles).mapError (.composability n.name)
  refuseIf (n.meshListenPort < 0 ∨ n.meshListenPort > 65535) (.listenPort n.name)
  validateMeshEndpointOf n
  refuseIf ((splitHostPort (trimSpace n.publicIP).toList).isOk = true) (.publicIPPort n.name)
  refuseIf (n.overlayIP = "") (.nodeMissingOverlay n.name)
  let ip ← require (parseIP n.overlayIP) (.invalidOverlayIP n.name n.overlayIP)
  refuseIf (supernet.contains (.sixteen ip) = false)
    (.overlayOutOfRange n.name n.overlayIP supernetText)
  refuse ((seenOverlay.lookup n.overlayIP).map fun prev =>
    .overlayDuplicate prev n.name n.overlayIP)

def validateNodes (supernet : IPNet) (supernetText : String) :
    (i : Nat) → (seenOverlay : List (String × String)) → List NodeV2 → Except V2Error Unit
  | _, _, [] => .ok ()
  | i, seenOverlay, n :: rest => do
      validateNode supernet supernetText i seenOverlay n
      validateNodes supernet supernetText (i + 1) ((n.overlayIP, n.name) :: seenOverlay) rest

def validateV2 (t : TopologyV2) : Except V2Error Unit := do
  refuseIf (t.schemaVersion ≠ 2) .schemaMissing
  refuseIf (t.mesh.overlaySupernet = "") .overlayMissing
  let supernet ← require (parseCIDR t.mesh.overlaySupernet) (.overlayInvalid t.mesh.overlaySupernet)
  refuseIf (t.nodes = []) .noNodes
  validateNodes supernet t.mesh.overlaySupernet 0 [] t.nodes

/-! ## What an accepted topology is like -/

structure Accepted (supernet : IPNet) (n : NodeV2) : Prop where
  name_ne : n.name ≠ ""
  composable : validateComposability n.roles = .ok ()
  inside : ∃ ip, parseIP n.overlayIP = some ip ∧ supernet.contains (.sixteen ip) = true

variable {supernet : IPNet} {supernetText : String} {i : Nat} {seenOverlay : List (String × String)}
  {n : NodeV2} {u : Unit}

theorem validateNode_ok
    (h : validateNode supernet supernetText i seenOverlay n = .ok u) :
    Accepted supernet n ∧ seenOverlay.lookup n.overlayIP = none := by
  unfold validateNode at h
  simp only [bind_eq_ok, refuseIf_eq_ok, mapError_eq_ok, require_eq_ok, refuse_eq_ok,
    exists_const, Option.map_eq_none_iff, Bool.not_eq_false] at h
  obtain ⟨hname, -, ⟨_, hroles, h⟩⟩ := h
  obtain ⟨-, -, -, -, -, ip, hip, hcontains, hseen⟩ := h
  exact ⟨⟨hname, hroles, ip, hip, hcontains⟩, hseen⟩

theorem validateNodes_ok {nodes : List NodeV2}
    (h : validateNodes supernet supernetText i seenOverlay nodes = .ok u) :
    (∀ n ∈ nodes, Accepted supernet n ∧ seenOverlay.lookup n.overlayIP = none) ∧
      nodes.Pairwise fun a b => a.overlayIP ≠ b.overlayIP := by
  induction nodes generalizing i seenOverlay with
  | nil => exact ⟨nofun, List.Pairwise.nil⟩
  | cons first rest ih =>
    obtain ⟨_, hfirst, hrest⟩ := bind_eq_ok.mp h
    obtain ⟨hall, hpairwise⟩ := ih hrest
    -- the nodes after the first one have met it in the map
    have hlater : ∀ n ∈ rest,
        n.overlayIP ≠ first.overlayIP ∧ seenOverlay.lookup n.overlayIP = none := by
      intro n hn
      have hseen := (hall n hn).2
      rw [List.lookup_cons] at hseen
      split at hseen
      · cases hseen
      · next hne => exact ⟨by simpa using hne, hseen⟩
    refine ⟨?_, List.pairwise_cons.mpr ⟨fun n hn => (hlater n hn).1.symm, hpairwise⟩⟩
    intro n hn
    rcases List.mem_cons.mp hn with rfl | hn
    · exact validateNode_ok hfirst
    · exact ⟨(hall n hn).1, (hlater n hn).2⟩

variable {t : TopologyV2}

theorem validateV2_accepts (h : validateV2 t = .ok u) :
    ∃ supernet, parseCIDR t.mesh.overlaySupernet = some supernet ∧
      (∀ n ∈ t.nodes, Accepted supernet n) ∧
      t.nodes.Pairwise fun a b => a.overlayIP ≠ b.overlayIP := by
  unfold validateV2 at h
  simp only [bind_eq_ok, refuseIf_eq_ok, require_eq_ok, exists_const] at h
  obtain ⟨-, -, supernet, hsupernet, -, hnodes⟩ := h
  obtain ⟨hall, hpairwise⟩ := validateNodes_ok hnodes
  exact ⟨supernet, hsupernet, fun n hn => (hall n hn).1, hpairwise⟩

theorem validateV2_ok (h : validateV2 t = .ok u) (hn : n ∈ t.nodes) :
    (∃ ip, parseIP n.overlayIP = some ip) ∧ validateComposability n.roles = .ok () := by
  obtain ⟨supernet, -, hall, -⟩ := validateV2_accepts h
  obtain ⟨ip, hip, -⟩ := (hall n hn).inside
  exact ⟨⟨ip, hip⟩, (hall n hn).composable⟩

end AwgMesh.SchemaV2

/-! ## The overlay addresses of an accepted topology -/

namespace AwgMesh.Net

def IP.equal : IP → IP → Bool
  | .four a, .four b => a == b
  | .sixteen a, .sixteen b => a == b
  | .four a, .sixteen b => b == (Addr.v4 a).as16
  | .sixteen a, .four b => a == (Addr.v4 b).as16

def IsCanonical (s : String) : Prop := (parseIP s).map ipString = some s

instance : DecidablePred IsCanonical := fun s =>
  inferInstanceAs (Decidable ((parseIP s).map ipString = some s))

theorem IsCanonical.eq_of_parseIP_eq {s t : String} (hs : IsCanonical s) (ht : IsCanonical t)
    (h : parseIP s = parseIP t) : s = t := by
  unfold IsCanonical at hs ht
  rw [h, ht] at hs
  exact (Option.some.inj hs).symm

end AwgMesh.Net

namespace AwgMesh.SchemaV2

open Net

/-- The overlays are in the supernet, and no two are equal. -/
structure OverlaysDistinct (t : TopologyV2) : Prop where
  inside : ∃ supernet, parseCIDR t.mesh.overlaySupernet = some supernet ∧
    ∀ n ∈ t.nodes, ∃ ip, parseIP n.overlayIP = some ip ∧ supernet.contains (.sixteen ip) = true
  distinct : t.nodes.Pairwise fun a b => ∀ x y, parseIP a.overlayIP = some x →
    parseIP b.overlayIP = some y → (IP.sixteen x).equal (.sixteen y) = false

/-- An overlay that is not spelled canonically is the only one of its address. -/
def NoSecondSpelling (t : TopologyV2) : Prop :=
  t.nodes.Pairwise fun a b => ¬ IsCanonical a.overlayIP ∨ ¬ IsCanonical b.overlayIP →
    parseIP a.overlayIP ≠ parseIP b.overlayIP

instance (t : TopologyV2) : Decidable (NoSecondSpelling t) :=
  inferInstanceAs (Decidable (List.Pairwise _ _))

/-- **Accepted overlay addresses are distinct, up to their spelling.** -/
theorem overlays_distinct_iff (t : TopologyV2) (h : validateV2 t = .ok ()) :
    OverlaysDistinct t ↔ NoSecondSpelling t := by
  obtain ⟨supernet, hsupernet, haccepted, htexts⟩ := validateV2_accepts h
  constructor
  · intro hdistinct
    refine hdistinct.distinct.imp_of_mem ?_
    intro a b ha hb hab _ heq
    obtain ⟨x, hx, -⟩ := (haccepted a ha).inside
    have hne := hab x x hx (heq ▸ hx)
    simp [IP.equal] at hne
  · intro hspelling
    refine ⟨⟨supernet, hsupernet, fun n hn => (haccepted n hn).inside⟩, ?_⟩
    refine (hspelling.and htexts).imp ?_
    rintro a b ⟨hab, htext⟩ x y hx hy
    rw [IP.equal, beq_eq_false_iff_ne]
    rintro rfl
    have heq : parseIP a.overlayIP = parseIP b.overlayIP := hx.trans hy.symm
    by_cases hcanonical : IsCanonical a.overlayIP ∧ IsCanonical b.overlayIP
    · exact htext (hcanonical.1.eq_of_parseIP_eq hcanonical.2 heq)
    · rw [not_and_or] at hcanonical
      exact hab hcanonical heq

def mixedMesh : TopologyV2 where
  mesh := { overlaySupernet := "10.0.0.0/24" }
  nodes :=
    [{ name := "master-01", roles := [.master], overlayIP := "10.0.0.1" },
      { name := "egress-01", roles := [.egress], overlayIP := "::ffff:10.0.0.2" }]

theorem overlays_distinct_mixedMesh :
    validateV2 mixedMesh = .ok () ∧ NoSecondSpelling mixedMesh ∧ OverlaysDistinct mixedMesh :=
  ⟨by decide, by decide, (overlays_distinct_iff mixedMesh (by decide)).mpr (by decide)⟩

def doubledMesh : TopologyV2 where
  mesh := { overlaySupernet := "10.0.0.0/24" }
  nodes :=
    [{ name := "master-01", roles := [.master], overlayIP := "10.0.0.1" },
      { name := "egress-01", roles := [.egress], overlayIP := "::ffff:10.0.0.1" }]

/-- **One address of two nodes**. -/
theorem doubledMesh_accepted :
    validateV2 doubledMesh = .ok () ∧ ¬ OverlaysDistinct doubledMesh := by
  refine ⟨by decide, ?_⟩
  intro h
  have hpair := (List.pairwise_cons.mp h.distinct).1 _ List.mem_cons_self
  have hne := hpair 0xffff0a000001 0xffff0a000001 (by decide) (by decide)
  exact absurd hne (by decide)

end AwgMesh.SchemaV2
