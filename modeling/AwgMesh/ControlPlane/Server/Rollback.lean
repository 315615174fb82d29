import AwgMesh.ControlPlane.Server.Runs

/-! # Does a rejected registration leave the stores as they were? -/

namespace AwgMesh.ControlPlane

open Lib

variable {δ : Type} {now : Time} {onRegister : Option (Observer δ)} {req : RegisterNodeRequest}
  {s s' t : Plane δ}

/-- A rejected registration changes neither the registry nor the entries of the ledger. -/
def RollsBack (s : Plane δ) (now : Time) (onRegister : Option (Observer δ))
    (req : RegisterNodeRequest) : Prop :=
  let out := (registerNode now onRegister req).run s
  out.2.accepted = false → out.1.registry = s.registry ∧ out.1.ledger.entries = s.ledger.entries

/-! ## The condition, before the call -/

/-- The registration fails after the registry has taken it. -/
def FailsLate (s : Plane δ) (now : Time) (onRegister : Option (Observer δ))
    (req : RegisterNodeRequest) : Prop :=
  (observe onRegister (s.registry.recorded now req.node) s.world).2 ≠ .ok () ∨
    if req.node.isMaster then Net.isIPv4 req.overlayIp = false ∨ SeedingStuck s req.nodeName
    else Net.isIPv4 req.overlayIp = false ∧ SoleMasterBeside s req.nodeName

/-- The registration enters an overlay into the ledger. -/
def WritesLedger (s : Plane δ) (req : RegisterNodeRequest) : Prop :=
  Net.isIPv4 req.overlayIp = true ∧ (req.node.isMaster = true ∨
      SoleMasterBeside s req.nodeName ∧ s.ledger.entries[req.overlayIp]? = none)

/-! ## What removing the record undoes -/

theorem without_eq_self_iff (hs : s.WF) (had : s.registry.Admits now req.node) :
    s.registry.without req.node = s.registry ↔ s.registry.byName[req.nodeName]? = none := by
  constructor
  · intro h
    have hget : (s.registry.without req.node).byName[req.nodeName]? = none := by
      rw [Registry.without_byName_getElem?]
      exact if_pos rfl
    rw [h] at hget
    exact hget
  · intro hnew
    exact hs.registry.without_eq_self had hnew

theorem entries_ne_of_master (hm : req.node.isMaster = true)
    (hseed : Seeded (s.written now req.node "register") t) :
    t.ledger.entries ≠ s.ledger.entries := by
  intro h
  have hkept := hseed.kept (written_ledger_self hm)
  rw [h] at hkept
  exact Ledger.getElem?_ne_assigned hkept

theorem entries_eq_iff {res : Except HandlerError Unit} (hs : s.WF)
    (had : s.registry.Admits now req.node) (hip : req.OverlayValid)
    (hseed : SeedSpec (s.written now req.node "register") (s.writtenTargets now req.node "register")
      (t, res)) : t.ledger.entries = s.ledger.entries ↔ ¬ WritesLedger s req := by
  cases hm : req.node.isMaster with
  | true =>
    apply iff_of_false (entries_ne_of_master hm hseed.seeded)
    intro hno
    exact hno ⟨hip hm, .inl hm⟩
  | false =>
    have hled : (s.written now req.node "register").ledger = s.ledger :=
      written_ledger_of_not_master hm
    have hsole : (∃ m, (s.written now req.node "register").IsSingle m) ↔
        SoleMasterBeside s req.nodeName :=
      exists_congr fun m => isSingle_written_of_not_master hs had hm
    have hov : (s.registry.recorded now req.node).overlayIP = req.overlayIp :=
      Registry.recorded_overlayIP
    rw [writtenTargets_of_not_master hm] at hseed
    constructor
    · -- a write would have gone through, and shows
      rintro heq ⟨hip4, hmaster | ⟨hbeside, hnone⟩⟩
      · rw [hm] at hmaster; cases hmaster
      · have hok : res = .ok () := by
          apply hseed.ok_iff.mpr
          rintro x hx ⟨-, hxip, -⟩
          rw [List.mem_singleton.mp hx, hov, hip4] at hxip
          cases hxip
        obtain ⟨e, he⟩ := hseed.covered hok _ (List.mem_singleton.mpr rfl)
          (by rw [Registry.recorded_isMaster]; exact hm) (hsole.mpr hbeside)
        rw [hov] at he
        change t.ledger.entries[req.overlayIp]? = some e at he
        rw [heq, hnone] at he
        cases he
    · intro hno
      apply Std.ExtTreeMap.ext_getElem?
      intro k
      cases hk : t.ledger.entries[k]? with
      | none =>
        cases hk' : s.ledger.entries[k]? with
        | none => rfl
        | some e =>
          have hkept := hseed.seeded.kept (hled ▸ hk')
          rw [show t.ledger.entries[k]? = none from hk] at hkept
          cases hkept
      | some e =>
        rcases hseed.only hk with hold | ⟨x, hx, hxk⟩
        · rw [hled] at hold
          exact hold.symm
        rcases hseed.seeded.fresh hk with hold | ⟨hsingle, -⟩
        · rw [hled] at hold
          exact hold.symm
        -- the overlay of the node itself: it must have had an entry, and keeps it
        rw [List.mem_singleton.mp hx, hov] at hxk
        subst hxk
        cases hk' : s.ledger.entries[req.overlayIp]? with
        | none =>
          exact absurd ⟨hseed.seeded.wf.ipv4 hk, .inr ⟨hsole.mp ⟨_, hsingle⟩, hk'⟩⟩ hno
        | some e' =>
          have hkept := hseed.seeded.kept (hled ▸ hk')
          rw [show t.ledger.entries[req.overlayIp]? = some e from hk] at hkept
          exact hkept

/-! ## The calls that roll back -/

theorem seedBlocked_iff_fails (hs : s.WF) (had : s.registry.Admits now req.node)
    (hip : req.OverlayValid) : SeedBlocked s now req.node "register" ↔
      if req.node.isMaster then Net.isIPv4 req.overlayIp = false ∨ SeedingStuck s req.nodeName
      else Net.isIPv4 req.overlayIp = false ∧ SoleMasterBeside s req.nodeName := by
  cases hm : req.node.isMaster with
  | true =>
    rw [if_pos rfl, hip hm, or_iff_right (by simp)]
    exact seedBlocked_iff_of_master hs had hm (hip hm)
  | false =>
    rw [if_neg Bool.false_ne_true]
    exact seedBlocked_iff_of_not_master hs had hm

section Outcome

variable {res : RegisterNodeResponse} (hs : s.WF) (had : s.registry.Admits now req.node)
  (hout : RegisterOutcome now onRegister req s s' res)

include hs had hout

theorem RegisterOutcome.failsLate_iff : FailsLate s now onRegister req ↔ res.accepted = false := by
  cases hout with
  | refused err hno hs' => exact absurd had hno
  | badOverlay err _ hm hip hs' =>
    refine iff_of_true (.inr ?_) rfl
    rw [if_pos hm]
    exact .inl hip
  | seedFailed t err _ hip hblocked hseed hs' =>
    exact iff_of_true (.inr ((seedBlocked_iff_fails hs had hip).mp hblocked)) rfl
  | observerFailed t world err _ hip hclear hseed hobs hs' =>
    refine iff_of_true (.inl ?_) rfl
    rw [hobs]
    intro h
    cases h
  | accepted t world _ hip hclear hseed hobs hs' =>
    refine iff_of_false ?_ Bool.noConfusion
    rintro (hobs' | hfails)
    · rw [hobs] at hobs'
      exact absurd rfl hobs'
    · exact absurd ((seedBlocked_iff_fails hs had hip).mpr hfails) hclear

omit hs in
theorem RegisterOutcome.ledger_cases :
    (Net.isIPv4 req.overlayIp = false ∧ s'.ledger = s.ledger) ∨
      ∃ t seedRes, req.OverlayValid ∧ SeedSpec (s.written now req.node "register")
          (s.writtenTargets now req.node "register") (t, seedRes) ∧ s'.ledger = t.ledger := by
  cases hout with
  | refused err hno hs' => exact absurd had hno
  | badOverlay err _ hm hip hs' => exact .inl ⟨hip, hs'.ledger⟩
  | seedFailed t err _ hip hblocked hseed hs' => exact .inr ⟨t, _, hip, hseed, hs'.ledger⟩
  | observerFailed t world err _ hip hclear hseed hobs hs' =>
    exact .inr ⟨t, _, hip, hseed, hs'.ledger⟩
  | accepted t world _ hip hclear hseed hobs hs' => exact .inr ⟨t, _, hip, hseed, hs'.ledger⟩

theorem RegisterOutcome.entries_eq_iff :
    s'.ledger.entries = s.ledger.entries ↔ ¬ WritesLedger s req := by
  rcases hout.ledger_cases had with ⟨hip, hl⟩ | ⟨t, seedRes, hip, hseed, hl⟩
  · apply iff_of_true (by rw [hl])
    rintro ⟨hip', -⟩
    rw [hip] at hip'
    cases hip'
  · rw [hl]
    exact ControlPlane.entries_eq_iff hs had hip hseed

omit hs in
theorem RegisterOutcome.registry_of_rejected (hno : res.accepted = false) :
    s'.registry = s.registry.without req.node := by
  cases hout with
  | refused err hrefused hs' => exact absurd had hrefused
  | badOverlay err _ hm hip hs' => exact hs'.registry
  | seedFailed t err _ hip hblocked hseed hs' => exact hs'.registry
  | observerFailed t world err _ hip hclear hseed hobs hs' => exact hs'.registry
  | accepted t world _ hip hclear hseed hobs hs' => cases hno

end Outcome

theorem rollsBack_iff (hs : s.WF) :
    RollsBack s now onRegister req ↔
      (s.registry.Admits now req.node → FailsLate s now onRegister req →
        s.registry.byName[req.nodeName]? = none ∧ ¬ WritesLedger s req) := by
  obtain ⟨s', res, hrun, hout⟩ := registerNode_outcome now onRegister req hs
  unfold RollsBack
  simp only [hrun]
  by_cases had : s.registry.Admits now req.node
  · rw [forall_prop_of_true had, hout.failsLate_iff hs had]
    refine forall_congr' fun hno => ?_
    rw [hout.registry_of_rejected had hno, without_eq_self_iff hs had, hout.entries_eq_iff hs had]
  · refine iff_of_true ?_ fun had' => absurd had' had
    intro _
    cases hout with
    | refused err hno hs' => exact ⟨hs'.registry, by rw [hs'.ledger]⟩
    | badOverlay err had' hm hip hs' => exact absurd had' had
    | seedFailed t err had' hip hblocked hseed hs' => exact absurd had' had
    | observerFailed t world err had' hip hclear hseed hobs hs' => exact absurd had' had
    | accepted t world had' hip hclear hseed hobs hs' => exact absurd had' had

/-- **What a rejected registration leaves**, in every reachable state. -/
theorem registerNode_rollsBack_iff {world : δ} (hs : (server world).Reachable s) (now : Time)
    (onRegister : Option (Observer δ)) (req : RegisterNodeRequest) :
    RollsBack s now onRegister req ↔
      (s.registry.Admits now req.node → FailsLate s now onRegister req →
        s.registry.byName[req.nodeName]? = none ∧ ¬ WritesLedger s req) :=
  rollsBack_iff (Plane.WF.of_reachable hs)

def failingObserver : Observer Unit := fun _ w => (w, .error "route add failed")

def clientRequest : RegisterNodeRequest :=
  { nodeName := "c", roles := ["client"], nodeCertPem := [1], overlayIp := "10.0.0.2" }

/-- The theorem at a client's first registration. -/
theorem registerNode_rollsBack_new_client :
    RollsBack (server ()).init 1 (some failingObserver) clientRequest := by
  refine (registerNode_rollsBack_iff Machine.Reachable.init 1 _ clientRequest).mpr fun _ _ =>
    ⟨by decide, ?_⟩
  rintro ⟨-, hm | ⟨⟨m, -, ⟨node, e, hnode, -⟩, -⟩, -⟩⟩
  · exact absurd hm (by decide)
  · simp [server] at hnode

/-- A client that is registered loses its record when it registers again and the observer fails. -/
theorem registerNode_forgets_known_client :
    ∃ s, (server ()).Reachable s ∧ ¬ RollsBack s 2 (some failingObserver) clientRequest := by
  let first : Call Unit := .registerNode 1 none clientRequest
  refine ⟨first.after (server ()).init, ⟨[first], rfl⟩, ?_⟩
  intro h
  have hreg := (h (by decide)).1
  have hgone : ((registerNode 2 (some failingObserver) clientRequest).run
      (first.after (server ()).init)).1.registry.byName["c"]? = none := by decide
  rw [hreg] at hgone
  exact absurd hgone (by decide)

end AwgMesh.ControlPlane
