import AwgMesh.ControlPlane.Server.Runs

/-! # Can a node keep a master out? -/

namespace AwgMesh.ControlPlane

open Lib

variable {δ : Type} {now : Time} {s : Plane δ} {node : RegisteredNode}

/-- A master with valid fields whose name and overlay are new. -/
structure NewMaster (s : Plane δ) (node : RegisteredNode) : Prop where
  master : node.isMaster = true
  roles : validateComposability node.roles = .ok ()
  cert : node.nodeCertPEM ≠ []
  overlay : Net.isIPv4 node.overlayIP = true
  unknown : s.registry.byName[node.name]? = none
  free : ∀ (n : String) x, s.registry.byName[n]? = some x → x.overlayIP ≠ node.overlayIP

def SeedingOpen (s : Plane δ) : Prop :=
  (∃ m, s.SelfOwned m) ∨ ∀ (n : String) x, s.registry.byName[n]? = some x → x.isMaster = false →
      Net.isIPv4 x.overlayIP = true

theorem NewMaster.admits_iff (hs : s.WF) (h : NewMaster s node) :
    s.registry.Admits now node ↔ node.name ≠ "" := by
  constructor
  · exact Registry.Admits.name_ne
  · intro hname
    have hroles : node.roles ≠ [] := by
      intro hnil
      have := h.master
      rw [RegisteredNode.isMaster, hnil] at this
      cases this
    have hoverlay : node.overlayIP ≠ "" := by
      intro hempty
      have := h.overlay
      rw [hempty] at this
      revert this
      decide
    constructor
    · unfold Registry.validate
      rw [if_neg hname, if_neg hroles, h.roles]
      dsimp only
      rw [if_neg h.cert, if_neg hoverlay]
    · intro existing hexisting
      obtain ⟨x, hx, hov⟩ := hs.registry.backed hexisting
      exact absurd hov (h.free existing x hx)
    · intro prev hprev
      rw [h.unknown] at hprev
      cases hprev

theorem NewMaster.seedingStuck_iff (h : NewMaster s node) :
    SeedingStuck s node.name ↔ ¬ SeedingOpen s := by
  have hne : ∀ {n : String} {x}, s.registry.byName[n]? = some x → n ≠ node.name := by
    intro n x hx heq
    rw [heq, h.unknown] at hx
    cases hx
  unfold SeedingStuck SeedingOpen
  rw [not_or]
  apply and_congr
  · constructor
    · rintro hall ⟨m, hm⟩
      have hm' := hm
      obtain ⟨x, e, hx, -⟩ := hm'
      exact hne hx (hall m hm)
    · intro hnone m hm
      exact absurd ⟨m, hm⟩ hnone
  · constructor
    · rintro ⟨n, x, -, hx, hm, hip⟩ hall
      rw [hall n x hx hm] at hip
      cases hip
    · intro hno
      by_contra hall
      apply hno
      intro n x hx hm
      by_contra hip
      exact hall ⟨n, x, hne hx, hx, hm, Bool.not_eq_true _ ▸ hip⟩

theorem NewMaster.seedBlocked_iff (hs : s.WF) (h : NewMaster s node)
    (had : s.registry.Admits now node) (reason : String) :
    SeedBlocked s now node reason ↔ ¬ SeedingOpen s := by
  rw [seedBlocked_iff_of_master hs had h.master h.overlay, h.seedingStuck_iff]

theorem registerNode_accepted_iff {onRegister : Option (Observer δ)} {req : RegisterNodeRequest}
    (now : Time) (hs : s.WF) (hnew : NewMaster s req.node)
    (hobserver : ∀ node w, (observe onRegister node w).2 = .ok ()) :
    ((registerNode now onRegister req).run s).2.accepted = true ↔
      req.nodeName ≠ "" ∧ SeedingOpen s := by
  obtain ⟨s', res, hrun, hout⟩ := registerNode_outcome now onRegister req hs
  have hadmits : s.registry.Admits now req.node ↔ req.nodeName ≠ "" := hnew.admits_iff hs
  rw [hrun, ← hadmits]
  cases hout with
  | refused err hno hs' => exact iff_of_false (by simp [RegisterNodeResponse.reject]) (hno ·.1)
  | badOverlay err had hm hip hs' => exact absurd (hip ▸ hnew.overlay) Bool.false_ne_true
  | seedFailed t err had hip hblocked hseed hs' =>
    refine iff_of_false (by simp [RegisterNodeResponse.reject]) ?_
    exact fun h => (hnew.seedBlocked_iff hs had "register").mp hblocked h.2
  | observerFailed t world err had hip hclear hseed hobs hs' =>
    have := hobserver (s.registry.recorded now req.node) s.world
    rw [hobs] at this
    cases this
  | accepted t world had hip hclear hseed hobs hs' =>
    refine iff_of_true rfl ⟨had, ?_⟩
    by_contra hopen
    exact hclear ((hnew.seedBlocked_iff hs had "register").mpr hopen)

theorem selfRegister_ok_iff (now : Time) (hs : s.WF) (hnew : NewMaster s node) :
    ((selfRegister now node).run s).2 = .ok () ↔ node.name ≠ "" ∧ SeedingOpen s := by
  obtain ⟨s', res, hrun, hout⟩ := selfRegister_outcome now node hs
  have hadmits : s.registry.Admits now node ↔ node.name ≠ "" := hnew.admits_iff hs
  rw [hrun, ← hadmits]
  cases hout with
  | refused err hno hs' => exact iff_of_false (by simp) (hno ·.1)
  | plain had hm hs' => exact absurd (hm ▸ hnew.master) Bool.false_ne_true
  | badOverlay err had hm hip hs' => exact absurd (hip ▸ hnew.overlay) Bool.false_ne_true
  | seeded t res had hm hip hseed hs' =>
    have hblocked := hnew.seedBlocked_iff hs had "self-register"
    unfold SeedBlocked at hblocked
    rw [writtenTargets_of_master hm] at hblocked
    have hok := hseed.ok_iff
    have hmap : res.mapError SelfRegisterError.seed = .ok () ↔ res = .ok () := by
      cases res <;> simp [Except.mapError]
    dsimp only at hok ⊢
    rw [hmap, hok, and_iff_right had, ← not_iff_not, ← hblocked]
    simp

/-- **Who lets a new master in**. -/
theorem master_accepted_iff {world : δ} (hreach : (server world).Reachable s) :
    (∀ now onRegister (req : RegisterNodeRequest), NewMaster s req.node →
        (∀ node w, (observe onRegister node w).2 = .ok ()) →
        (((registerNode now onRegister req).run s).2.accepted = true ↔
          req.nodeName ≠ "" ∧ SeedingOpen s)) ∧ ∀ now node, NewMaster s node →
        (((selfRegister now node).run s).2 = .ok () ↔ node.name ≠ "" ∧ SeedingOpen s) := by
  have hs : s.WF := Plane.WF.of_reachable hreach
  constructor
  · intro now onRegister req hnew hobserver
    exact registerNode_accepted_iff now hs hnew hobserver
  · intro now node hnew
    exact selfRegister_ok_iff now hs hnew

/-! ## A node that keeps masters out -/

def earlyEgress (overlayIP : String) : RegisterNodeRequest :=
  { nodeName := "e", roles := ["egress"], nodeCertPem := [1], overlayIp := overlayIP }

def afterEgress (overlayIP : String) : Plane Unit :=
  Call.after (server ()).init (.registerNode 1 none (earlyEgress overlayIP))

def lateMaster : RegisterNodeRequest :=
  { nodeName := "m", roles := ["master"], nodeCertPem := [2], overlayIp := "10.0.0.1" }

theorem forall_byName_of_list {r : Registry} {P : RegisteredNode → Prop} (h : ∀ x ∈ r.list, P x)
    (n : String) (x : RegisteredNode) (hx : r.byName[n]? = some x) : P x :=
  h x (OMap.mem_vals.mpr ⟨n, hx⟩)

theorem afterEgress_reachable (overlayIP : String) :
    (server ()).Reachable (afterEgress overlayIP) :=
  ⟨[.registerNode 1 none (earlyEgress overlayIP)], rfl⟩

/-- An egress node on an IPv4 overlay is in nobody's way. -/
theorem master_accepted_after_egress :
    ((registerNode 2 none lateMaster).run (afterEgress "10.0.0.9")).2.accepted = true ∧
      ((selfRegister 2 lateMaster.node).run (afterEgress "10.0.0.9")).2 = .ok () := by
  have hnew : NewMaster (afterEgress "10.0.0.9") lateMaster.node :=
    ⟨by decide, by decide, by decide, by decide, by decide, forall_byName_of_list (by decide)⟩
  have hopen : SeedingOpen (afterEgress "10.0.0.9") :=
    Or.inr fun n x hx _ =>
      forall_byName_of_list (P := fun x => Net.isIPv4 x.overlayIP = true) (by decide) n x hx
  obtain ⟨hregister, hself⟩ := master_accepted_iff (afterEgress_reachable "10.0.0.9")
  exact ⟨(hregister 2 none lateMaster hnew fun _ _ => rfl).mpr ⟨by decide, hopen⟩,
    (hself 2 lateMaster.node hnew).mpr ⟨by decide, hopen⟩⟩

theorem egress_keeps_master_out :
    ((registerNode 1 none (earlyEgress "fd00::9")).run (server ()).init).2.accepted = true ∧
      NewMaster (afterEgress "fd00::9") lateMaster.node ∧ lateMaster.nodeName ≠ "" ∧
      ((registerNode 2 none lateMaster).run (afterEgress "fd00::9")).2 =
        .reject (.seed "e" (.overlayInvalid "fd00::9")) ∧
      ((selfRegister 2 lateMaster.node).run (afterEgress "fd00::9")).2 =
        .error (.seed (.seed "e" (.overlayInvalid "fd00::9"))) := by
  refine ⟨by decide, ?_, by decide, by decide, by decide⟩
  exact ⟨by decide, by decide, by decide, by decide, by decide, forall_byName_of_list (by decide)⟩

end AwgMesh.ControlPlane
