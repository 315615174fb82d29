import AwgMesh.ControlPlane.Server.Register
import AwgMesh.ControlPlane.Server.Heartbeat
import AwgMesh.ControlPlane.Server.Decommission

/-! # Runs of the control plane -/

namespace AwgMesh.ControlPlane

open Lib Registry Handler

variable {δ : Type}

inductive Call (δ : Type) where
  | registerNode (now : Time) (onRegister : Option (Observer δ)) (req : RegisterNodeRequest)
  | heartbeat (now : Time) (onRegister : Option (Observer δ)) (req : HeartbeatRequest)
  | selfRegister (now : Time) (node : RegisteredNode)
  | decommissionNode (now : Time) (name : String)
  | allowCertRollover (now : Time) (name : String) (certPEM : Bytes) (overlapUntil : Time)
  | clearCertRollover (name : String) (certPEM : Bytes)

def Call.program : Call δ → Handler (Plane δ) Unit
  | .registerNode now onRegister req =>
    (fun _ => ()) <$> ControlPlane.registerNode now onRegister req
  | .heartbeat now onRegister req => (fun _ => ()) <$> ControlPlane.heartbeat now onRegister req
  | .selfRegister now node => (fun _ => ()) <$> ControlPlane.selfRegister now node
  | .decommissionNode now name => (fun _ => ()) <$> ControlPlane.decommissionNode now name
  | .allowCertRollover now name certPEM overlapUntil =>
    (fun _ => ()) <$> registryCall fun r => r.allowCertRollover now name certPEM overlapUntil
  | .clearCertRollover name certPEM =>
    (fun _ => ()) <$> registryCall fun r => r.clearCertRollover name certPEM

def Call.after (s : Plane δ) (call : Call δ) : Plane δ := (call.program.run s).1

def server (world : δ) : Machine (Plane δ) (Call δ) where
  init := { world := world }
  step s call := some (call.after s)

theorem exec_server_isSome (world : δ) (s : Plane δ) (calls : List (Call δ)) :
    ((server world).exec s calls).isSome := by
  induction calls generalizing s with
  | nil => rfl
  | cons call calls ih => exact ih (call.after s)

/-! ## Well-formedness -/

theorem Plane.WF.init (world : δ) : (server world).init.WF := ⟨WF.empty, Ledger.WF.empty⟩

theorem Plane.Agrees.wf {s t : Plane δ} (h : s.Agrees t) (ht : t.WF) : s.WF :=
  ⟨h.registry ▸ ht.registry, h.ledger ▸ ht.ledger⟩

variable {s : Plane δ} {name : String} {node : RegisteredNode}

theorem Plane.WF.without (hs : s.WF)
    (hnode : s.registry.byName[name]? = some node) : (s.registry.without node).WF :=
  hs.registry.remove (remove_eq_without hs.registry hnode)

variable {now : Time}

theorem Plane.WF.rolledBack (hs : s.WF)
    (had : s.registry.Admits now node) : (s.registry.without node).WF := by
  have hstore : (s.registry.store (s.registry.recorded now node)).WF :=
    hs.registry.store had recorded_name recorded_overlayIP
  exact hstore.remove (remove_store recorded_name recorded_overlayIP)

variable {onRegister : Option (Observer δ)} {s' : Plane δ}

theorem RegisterOutcome.wf
    {req : RegisterNodeRequest} {res : RegisterNodeResponse}
    (hout : RegisterOutcome now onRegister req s s' res) (hs : s.WF) : s'.WF := by
  cases hout with
  | refused err hno hs' => exact hs'.wf hs
  | badOverlay err had hm hip hs' => exact hs'.wf ⟨hs.rolledBack had, hs.ledger⟩
  | seedFailed t err had hip hblocked hseed hs' =>
    exact hs'.wf ⟨hs.rolledBack had, hseed.seeded.wf⟩
  | observerFailed t world err had hip hclear hseed hobs hs' =>
    exact hs'.wf ⟨hs.rolledBack had, hseed.seeded.wf⟩
  | accepted t world had hip hclear hseed hobs hs' =>
    have ht : t.WF := hseed.seeded.planeWF (hs.written _ had hip)
    exact hs'.wf ⟨ht.registry, ht.ledger⟩

theorem HeartbeatOutcome.wf
    {req : HeartbeatRequest} {res : Except HandlerError HeartbeatResponse}
    (hout : HeartbeatOutcome now onRegister req s s' res) (hs : s.WF) : s'.WF := by
  cases hout with
  | unknown hno hs' => exact hs'.wf hs
  | plain node hnode hid hs' => exact hs'.wf (hs.beaten hnode)
  | seedFailed node t err hnode hid hseed hs' =>
    exact hs'.wf (hseed.seeded.planeWF (hs.beaten hnode))
  | observerFailed node t world err hnode hid hseed hobs hs' =>
    have ht : t.WF := hseed.seeded.planeWF (hs.beaten hnode)
    exact hs'.wf ⟨ht.registry, ht.ledger⟩
  | accepted node t world hnode hid hseed hobs hs' =>
    have ht : t.WF := hseed.seeded.planeWF (hs.beaten hnode)
    exact hs'.wf ⟨ht.registry, ht.ledger⟩

theorem SelfRegisterOutcome.wf {res : Except SelfRegisterError Unit}
    (hout : SelfRegisterOutcome now node s s' res) (hs : s.WF) : s'.WF := by
  cases hout with
  | refused err hno hs' => exact hs'.wf hs
  | plain had hm hs' => exact hs'.wf (hs.written _ had (by rw [hm]; intro h; cases h))
  | badOverlay err had hm hip hs' =>
    exact hs'.wf
      ⟨hs.registry.store had recorded_name recorded_overlayIP, hs.ledger⟩
  | seeded t res had hm hip hseed hs' =>
    exact hs'.wf (hseed.seeded.planeWF (hs.written _ had (fun _ => hip)))

theorem DecommissionOutcome.wf {res : DecommissionResponse}
    (hout : DecommissionOutcome name s s' res) (hs : s.WF) : s'.WF := by
  cases hout with
  | refused err hno hs' => exact hs'.wf hs
  | done node l hnode hok hdrain hs' => exact hs'.wf ⟨hs.without hnode, hdrain.wf⟩

/-! ## What a call can do -/

inductive RolloverOutcome (s s' : Plane δ) : Prop where
  | unchanged (hs' : s' = s)
  | pending (name : String) (old : RegisteredNode) (certPEM : Bytes) (overlapUntil : Time)
      (hold : s.registry.byName[name]? = some old)
      (hs' : s' = { s with
        registry := s.registry.modify name
          { old with pendingCertPEM := certPEM, certOverlapUntil := overlapUntil } })

theorem RolloverOutcome.wf (hout : RolloverOutcome s s') (hs : s.WF) : s'.WF := by
  cases hout with
  | unchanged hs' => rwa [hs']
  | pending name old certPEM overlapUntil hold hs' =>
    rw [hs']
    exact ⟨hs.registry.modify hold rfl rfl, hs.ledger⟩

inductive CallOutcome (s s' : Plane δ) : Call δ → Prop where
  | registerNode {now onRegister req res} (hout : RegisterOutcome now onRegister req s s' res) :
      CallOutcome s s' (.registerNode now onRegister req)
  | heartbeat {now onRegister req res} (hout : HeartbeatOutcome now onRegister req s s' res) :
      CallOutcome s s' (.heartbeat now onRegister req)
  | selfRegister {now node res} (hout : SelfRegisterOutcome now node s s' res) :
      CallOutcome s s' (.selfRegister now node)
  | decommissionNode {now name res} (hout : DecommissionOutcome name s s' res) :
      CallOutcome s s' (.decommissionNode now name)
  | allowCertRollover {now name certPEM overlapUntil} (hout : RolloverOutcome s s') :
      CallOutcome s s' (.allowCertRollover now name certPEM overlapUntil)
  | clearCertRollover {name certPEM} (hout : RolloverOutcome s s') :
      CallOutcome s s' (.clearCertRollover name certPEM)

theorem rolloverOutcome_registryCall {f : Registry → Except RegistryError Registry}
    (hf : ∀ {r}, f s.registry = .ok r → RolloverOutcome s { s with registry := r }) :
    RolloverOutcome s ((registryCall f).run s).1 := by
  cases h : f s.registry with
  | error err => rw [run_registryCall_error h]; exact .unchanged rfl
  | ok r => rw [run_registryCall_ok h]; exact hf h

theorem Call.after_outcome (hs : s.WF) (call : Call δ) : CallOutcome s (call.after s) call := by
  cases call with
  | registerNode now onRegister req =>
    obtain ⟨s', res, hrun, hout⟩ := registerNode_outcome now onRegister req hs
    rw [Call.after, Call.program, run_map, hrun]
    exact .registerNode hout
  | heartbeat now onRegister req =>
    obtain ⟨s', res, hrun, hout⟩ := heartbeat_outcome now onRegister req hs
    rw [Call.after, Call.program, run_map, hrun]
    exact .heartbeat hout
  | selfRegister now node =>
    obtain ⟨s', res, hrun, hout⟩ := selfRegister_outcome now node hs
    rw [Call.after, Call.program, run_map, hrun]
    exact .selfRegister hout
  | decommissionNode now name =>
    obtain ⟨s', res, hrun, hout⟩ := decommissionNode_outcome now name hs
    rw [Call.after, Call.program, run_map, hrun]
    exact .decommissionNode hout
  | allowCertRollover now name certPEM overlapUntil =>
    rw [Call.after, Call.program, run_map]
    dsimp only
    apply CallOutcome.allowCertRollover
    apply rolloverOutcome_registryCall
    intro r hr
    obtain ⟨-, -, -, node, hnode, -, rfl⟩ := allowCertRollover_ok hr
    exact .pending name node certPEM overlapUntil hnode rfl
  | clearCertRollover name certPEM =>
    rw [Call.after, Call.program, run_map]
    dsimp only
    apply CallOutcome.clearCertRollover
    apply rolloverOutcome_registryCall
    intro r hr
    obtain ⟨node, hnode, ⟨-, -, rfl⟩ | ⟨-, rfl⟩⟩ := clearCertRollover_ok hr
    · exact .unchanged rfl
    · exact .pending name node [] 0 hnode rfl

theorem Plane.WF.after (hs : s.WF) (call : Call δ) : (call.after s).WF := by
  cases Call.after_outcome hs call with
  | registerNode hout => exact hout.wf hs
  | heartbeat hout => exact hout.wf hs
  | selfRegister hout => exact hout.wf hs
  | decommissionNode hout => exact hout.wf hs
  | allowCertRollover hout => exact hout.wf hs
  | clearCertRollover hout => exact hout.wf hs

theorem Plane.WF.of_reachable {world : δ} (h : (server world).Reachable s) : s.WF := by
  refine h.invariant (I := Plane.WF) (Plane.WF.init world) ?_
  intro s call t hs hstep
  cases hstep
  exact hs.after call

/-! ## What every call keeps -/

/-- The call writes a record of `node`, if it writes one. -/
def Call.Stores (now : Time) (node : RegisteredNode) : Call δ → Prop
  | .registerNode t _ req => t = now ∧ req.node = node
  | .selfRegister t n => t = now ∧ n = node
  | _ => False

/-- Properties of the registry and of the ledger that all but the writing of a record keep. -/
structure Keeps (δ : Type) (A : Registry → Prop) (B : Ledger → Prop) : Prop where
  seeded : ∀ {s t : Plane δ}, Seeded s t → A s.registry → B s.ledger → B t.ledger
  without : ∀ {r node}, A r → A (r.without node)
  modify : ∀ {r name old new}, r.byName[name]? = some old → new.roles = old.roles → A r →
    A (r.modify name new)
  drained : ∀ {r name l l'}, Drained r name l l' → A r → B l → B l'

variable {A : Registry → Prop} {B : Ledger → Prop} {call : Call δ}

theorem Plane.Agrees.keeps {t : Plane δ} (h : s'.Agrees t) (ht : A t.registry ∧ B t.ledger) :
    A s'.registry ∧ B s'.ledger :=
  ⟨h.registry ▸ ht.1, h.ledger ▸ ht.2⟩

/-- The rule for runs: to be kept by every call, check the records calls write. -/
theorem CallOutcome.keeps (hk : Keeps δ A B) (hA : A s.registry) (hB : B s.ledger)
    (hwritten : ∀ {now node} reason, call.Stores now node →
      A (s.written now node reason).registry ∧ B (s.written now node reason).ledger)
    (hout : CallOutcome s s' call) : A s'.registry ∧ B s'.ledger := by
  have seed : ∀ {t u : Plane δ}, A t.registry ∧ B t.ledger → Seeded t u →
      A u.registry ∧ B u.ledger := fun ht h => ⟨h.registry ▸ ht.1, hk.seeded h ht.1 ht.2⟩
  cases hout with
  | registerNode hout =>
    have hnew := hwritten "register" ⟨rfl, rfl⟩
    cases hout with
    | refused _ _ hs' => exact hs'.keeps ⟨hA, hB⟩
    | badOverlay _ _ _ _ hs' => exact hs'.keeps ⟨hk.without hA, hB⟩
    | seedFailed _ _ _ _ _ hseed hs' =>
      exact hs'.keeps ⟨hk.without hA, (seed hnew hseed.seeded).2⟩
    | observerFailed _ _ _ _ _ _ hseed _ hs' =>
      exact hs'.keeps ⟨hk.without hA, (seed hnew hseed.seeded).2⟩
    | accepted _ _ _ _ _ hseed _ hs' =>
      have ht := seed hnew hseed.seeded
      exact hs'.keeps ht
  | heartbeat hout =>
    have beat : ∀ {now req node}, s.registry.byName[req.nodeName]? = some node →
        A (s.beaten now req node).registry ∧ B (s.beaten now req node).ledger :=
      fun hnode => ⟨hk.modify hnode rfl hA, hB⟩
    cases hout with
    | unknown _ hs' => exact hs'.keeps ⟨hA, hB⟩
    | plain _ hnode _ hs' => exact hs'.keeps (beat hnode)
    | seedFailed _ _ _ hnode _ hseed hs' => exact hs'.keeps (seed (beat hnode) hseed.seeded)
    | observerFailed _ _ _ _ hnode _ hseed _ hs' | accepted _ _ _ hnode _ hseed _ hs' =>
      have ht := seed (beat hnode) hseed.seeded
      exact hs'.keeps ht
  | selfRegister hout =>
    have hnew := hwritten "self-register" ⟨rfl, rfl⟩
    cases hout with
    | refused _ _ hs' => exact hs'.keeps ⟨hA, hB⟩
    | plain _ _ hs' => exact hs'.keeps hnew
    -- the record of the master stays, without the entry
    | badOverlay _ _ _ _ hs' => exact hs'.keeps ⟨hnew.1, hB⟩
    | seeded _ _ _ _ _ hseed hs' => exact hs'.keeps (seed hnew hseed.seeded)
  | decommissionNode hout =>
    cases hout with
    | refused _ _ hs' => exact hs'.keeps ⟨hA, hB⟩
    | done _ _ _ _ hdrain hs' => exact hs'.keeps ⟨hk.without hA, hk.drained hdrain hA hB⟩
  | allowCertRollover hout | clearCertRollover hout =>
    cases hout with
    | unchanged hs' => rw [hs']; exact ⟨hA, hB⟩
    | pending _ _ _ _ hold hs' => rw [hs']; exact ⟨hk.modify hold rfl hA, hB⟩

/-! ## Who takes over from a decommissioned node -/

/-- **Decommissioning a registered node.** A call that reports success leaves the node no entry and
no record, gives each of its entries to a successor, leaves all other entries alone, and reports how
many the node owned, as a 32-bit number. -/
theorem decommission_specification (hs : s.WF) (now : Time) (name : String)
    {node : RegisteredNode} (hnode : s.registry.byName[name]? = some node)
    {res : DecommissionResponse} (hrun : (decommissionNode now name).run s = (s', res)) :
    (res.success = true → (∀ (k : String) (e : OwnershipEntry), s'.ledger.entries[k]? = some e →
        e.owningMaster ≠ name) ∧ s'.registry.byName[name]? = none ∧
        (∀ (k : String) (e : OwnershipEntry), s.ledger.entries[k]? = some e →
          e.owningMaster = name → ∃ e' : OwnershipEntry, s'.ledger.entries[k]? = some e' ∧
            s.registry.Successor name node e'.owningMaster) ∧ (∀ k : String,
          (∀ e : OwnershipEntry, s.ledger.entries[k]? = some e → e.owningMaster ≠ name) →
          s'.ledger.entries[k]? = s.ledger.entries[k]?) ∧
        res.reassignedOverlayCount = int32 (s.ledger.ownedBy name).length) ∧
      (res.error = some .noSurvivingMaster →
        s'.registry = s.registry ∧ s'.ledger = s.ledger) := by
  obtain ⟨t, res', hrun', hdone, -⟩ := decommissionNode_records now name hs
  rw [hrun] at hrun'
  cases hrun'
  have hmoved := hdone.moved
  cases hdone.outcome with
  | refused err hno hs' =>
    exact ⟨fun h => absurd h Bool.false_ne_true, fun _ => ⟨hs'.registry, hs'.ledger⟩⟩
  | done node' l hnode' hok hdrain hs' =>
    refine ⟨fun _ => ⟨?_, ?_, ?_, ?_, ?_⟩, fun h => by cases h⟩
    · intro k e he
      rw [hs'.ledger] at he
      exact hdrain.owner_ne he
    · rw [hs'.registry]
      rw [without_byName_getElem?, if_pos (hs.registry.named hnode').1]
    · intro k e he hown
      exact hmoved rfl hnode he hown
    · intro k hk
      rw [hs'.ledger]
      exact hdrain.others hk
    · dsimp only

/-! ## Nodes without a region -/

def threeMasters (regionA regionB regionC : String) : List (Call Unit) :=
  [ .selfRegister 1
      { name := "c", roles := [.master], nodeCertPEM := [9], overlayIP := "10.0.0.3",
        region := regionC }, .registerNode 2 none
      { nodeName := "k", roles := ["client"], nodeCertPem := [1], overlayIp := "10.0.0.9" },
    .registerNode 3 none
      { nodeName := "a", roles := ["master"], nodeCertPem := [2], overlayIp := "10.0.0.1",
        region := regionA }, .registerNode 4 none
      { nodeName := "b", roles := ["master"], nodeCertPem := [3], overlayIp := "10.0.0.2",
        region := regionB } ]

def withThreeMasters (regionA regionB regionC : String) : Plane Unit :=
  (threeMasters regionA regionB regionC).foldl Call.after (server ()).init

theorem withThreeMasters_reachable (regionA regionB regionC : String) :
    (server ()).Reachable (withThreeMasters regionA regionB regionC) :=
  ⟨threeMasters regionA regionB regionC, rfl⟩

theorem decommission_specification_shared :
    ∃ t, (decommissionNode 5 "c").run (withThreeMasters "eu" "eu" "eu") =
        (t, { success := true, reassignedOverlayCount := 2 }) ∧ t.registry.byName["c"]? = none ∧
      (∀ (k : String) (e : OwnershipEntry), t.ledger.entries[k]? = some e →
        e.owningMaster ≠ "c") := by
  have hwf := Plane.WF.of_reachable (withThreeMasters_reachable "eu" "eu" "eu")
  refine ⟨_, by rfl, ?_⟩
  obtain ⟨hsuccess, -⟩ := decommission_specification hwf 5 "c" (by rfl) (by rfl)
  exact ⟨(hsuccess rfl).2.1, (hsuccess rfl).1⟩

theorem decommission_leaves_region :
    (server ()).Reachable (withThreeMasters "eu" "" "") ∧
      ∃ t, (decommissionNode 5 "c").run (withThreeMasters "eu" "" "") =
          (t, { success := true, reassignedOverlayCount := 2 }) ∧
        ((withThreeMasters "eu" "" "").registry.byName["c"]?.map (·.region)) = some "" ∧
        (withThreeMasters "eu" "" "").registry.SurvivorIn "" "c" "b" ∧
        ((withThreeMasters "eu" "" "").ledger.entries["10.0.0.3"]?.map (·.owningMaster)) =
          some "c" ∧ (t.ledger.entries["10.0.0.3"]?.map (·.owningMaster)) = some "a" ∧
        ¬ (withThreeMasters "eu" "" "").registry.SurvivorIn "" "c" "a" := by
  refine ⟨withThreeMasters_reachable "eu" "" "", _, by rfl, by decide, ?_, by decide, by decide, ?_⟩
  · exact ⟨by decide, _, by rfl, by decide, by decide⟩
  · rintro ⟨-, node, hnode, -, hregion⟩
    cases hnode
    revert hregion
    decide

end AwgMesh.ControlPlane
