import AwgMesh.ControlPlane.Server.Seeding

/-! # What the registrations do -/

namespace AwgMesh.ControlPlane

open Lib Registry Handler Net

variable {δ : Type} {now : Time} {s s' t : Plane δ}

/-! ## The two writes -/

def Plane.written (s : Plane δ) (now : Time) (node : RegisteredNode) (reason : String) : Plane δ :=
  { s with
    registry := s.registry.store (s.registry.recorded now node)
    ledger :=
      if node.isMaster then s.ledger.assign now node.overlayIP node.name reason else s.ledger }

abbrev Plane.writtenTargets (s : Plane δ) (now : Time) (node : RegisteredNode) (reason : String) :
    List RegisteredNode :=
  seedTargets (s.written now node reason) (s.registry.recorded now node)

def SeedBlocked (s : Plane δ) (now : Time) (node : RegisteredNode) (reason : String) : Prop :=
  ∃ x ∈ s.writtenTargets now node reason, Blocked (s.written now node reason) x

theorem Plane.WF.written {node : RegisteredNode} (reason : String) (hs : s.WF)
    (had : s.registry.Admits now node)
    (hip : node.isMaster = true → isIPv4 node.overlayIP = true) :
    (s.written now node reason).WF := by
  refine ⟨hs.registry.store had recorded_name recorded_overlayIP, ?_⟩
  show (if node.isMaster then _ else _ : Ledger).WF
  split
  · next hm => exact hs.ledger.assign had.name_ne (hip hm)
  · exact hs.ledger

theorem written_byName_self {node : RegisteredNode} {reason : String} :
    (s.written now node reason).registry.byName[node.name]? =
      some (s.registry.recorded now node) := by
  exact store_recorded_byName_self

/-! ## Who is self-owned after the write -/

section Written

variable {node : RegisteredNode} {reason m : String}

theorem written_ledger_of_not_master (hm : node.isMaster = false) :
    (s.written now node reason).ledger = s.ledger := by
  show (if node.isMaster then _ else _ : Ledger) = _
  rw [hm, if_neg Bool.false_ne_true]

theorem written_ledger_getElem? (k : String) :
    (s.written now node reason).ledger.entries[k]? =
      if node.isMaster = true ∧ node.overlayIP = k then
        some (s.ledger.assigned now node.overlayIP node.name reason)
      else s.ledger.entries[k]? := by
  unfold Plane.written
  cases hm : node.isMaster with
  | true => simp [Ledger.assign_getElem?]
  | false => simp

theorem written_ledger_self (hm : node.isMaster = true) :
    (s.written now node reason).ledger.entries[node.overlayIP]? =
      some (s.ledger.assigned now node.overlayIP node.name reason) := by
  rw [written_ledger_getElem?, if_pos ⟨hm, rfl⟩]

theorem selfOwned_written_self :
    (s.written now node reason).SelfOwned node.name ↔ node.isMaster = true := by
  unfold Plane.SelfOwned
  rw [written_byName_self]
  constructor
  · rintro ⟨x, e, hx, hm, -⟩
    cases hx
    rw [← hm, recorded_isMaster]
  · intro hm
    refine ⟨_, s.ledger.assigned now node.overlayIP node.name reason, rfl, ?_, ?_, ?_⟩
    · rw [recorded_isMaster]; exact hm
    · rw [recorded_overlayIP, written_ledger_self hm]
    · exact Ledger.assigned_owningMaster

/-- No other master is self-owned, and the ledger refuses the overlay of another node. -/
def SeedingStuck (s : Plane δ) (name : String) : Prop :=
  (∀ m, s.SelfOwned m → m = name) ∧
    ∃ n x, n ≠ name ∧ s.registry.byName[n]? = some x ∧ x.isMaster = false ∧
      isIPv4 x.overlayIP = false

def SoleMasterBeside (s : Plane δ) (name : String) : Prop :=
  ∃ m, m ≠ name ∧ s.SelfOwned m ∧ ∀ m', m' ≠ name → s.SelfOwned m' → m' = m

theorem writtenTargets_of_master (hm : node.isMaster = true) :
    s.writtenTargets now node reason = (s.written now node reason).registry.list := by
  unfold Plane.writtenTargets seedTargets
  rw [recorded_isMaster, if_pos hm]

theorem writtenTargets_of_not_master (hm : node.isMaster = false) :
    s.writtenTargets now node reason = [s.registry.recorded now node] := by
  unfold Plane.writtenTargets seedTargets
  rw [recorded_isMaster, hm, if_neg Bool.false_ne_true]

variable (hs : s.WF) (had : s.registry.Admits now node)

include hs had

theorem selfOwned_written_of_ne (hne : m ≠ node.name)
    : (s.written now node reason).SelfOwned m ↔ s.SelfOwned m := by
  have hreg : (s.written now node reason).registry.byName[m]? = s.registry.byName[m]? := by
    show (s.registry.store _).byName[m]? = _
    rw [store_byName_getElem?, recorded_name, if_neg (Ne.symm hne)]
  have hled : ∀ {x}, s.registry.byName[m]? = some x →
      (s.written now node reason).ledger.entries[x.overlayIP]? =
        s.ledger.entries[x.overlayIP]? := by
    intro x hx
    rw [written_ledger_getElem?, if_neg]
    rintro ⟨-, hov⟩
    have := hs.registry.indexed hx
    rw [← hov] at this
    exact hne (had.free m this)
  unfold Plane.SelfOwned
  rw [hreg]
  constructor
  · rintro ⟨x, e, hx, hm, he, howner⟩
    rw [hled hx] at he
    exact ⟨x, e, hx, hm, he, howner⟩
  · rintro ⟨x, e, hx, hm, he, howner⟩
    rw [← hled hx] at he
    exact ⟨x, e, hx, hm, he, howner⟩

theorem isSingle_written_of_master (hm : node.isMaster = true) :
    (s.written now node reason).IsSingle m ↔
      m = node.name ∧ ∀ m', s.SelfOwned m' → m' = node.name := by
  constructor
  · rintro ⟨-, huniq⟩
    have hself : m = node.name := (huniq node.name (selfOwned_written_self.mpr hm)).symm
    refine ⟨hself, ?_⟩
    intro m' hm'
    by_contra hne
    exact hne ((huniq m' ((selfOwned_written_of_ne hs had hne).mpr hm')).trans hself)
  · rintro ⟨rfl, huniq⟩
    refine ⟨selfOwned_written_self.mpr hm, ?_⟩
    intro m' hm'
    by_contra hne
    exact hne (huniq m' ((selfOwned_written_of_ne hs had hne).mp hm'))

theorem isSingle_written_of_not_master (hm : node.isMaster = false) :
    (s.written now node reason).IsSingle m ↔
      m ≠ node.name ∧ s.SelfOwned m ∧ ∀ m', m' ≠ node.name → s.SelfOwned m' → m' = m := by
  have hself : ¬ (s.written now node reason).SelfOwned node.name := by
    rw [selfOwned_written_self, hm]
    exact Bool.false_ne_true
  constructor
  · rintro ⟨hown, huniq⟩
    have hne : m ≠ node.name := by rintro rfl; exact hself hown
    refine ⟨hne, (selfOwned_written_of_ne hs had hne).mp hown, ?_⟩
    intro m' hne' hm'
    exact huniq m' ((selfOwned_written_of_ne hs had hne').mpr hm')
  · rintro ⟨hne, hown, huniq⟩
    refine ⟨(selfOwned_written_of_ne hs had hne).mpr hown, ?_⟩
    intro m' hm'
    have hne' : m' ≠ node.name := by rintro rfl; exact hself hm'
    exact huniq m' hne' ((selfOwned_written_of_ne hs had hne').mp hm')

theorem seedBlocked_iff_of_master (hm : node.isMaster = true) (hip : isIPv4 node.overlayIP = true) :
    SeedBlocked s now node reason ↔ SeedingStuck s node.name := by
  have hw : (s.written now node reason).WF := hs.written reason had fun _ => hip
  unfold SeedBlocked SeedingStuck
  rw [writtenTargets_of_master hm]
  constructor
  · rintro ⟨x, hx, hxm, hxip, m, hsingle⟩
    have hx := hw.registry.mem_list.mp hx
    refine ⟨((isSingle_written_of_master hs had hm).mp hsingle).2, x.name, x, ?_, ?_, hxm, hxip⟩
    · intro hname
      rw [hname, written_byName_self] at hx
      cases hx
      rw [recorded_isMaster, hm] at hxm
      cases hxm
    · change (s.registry.store _).byName[_]? = _ at hx
      rw [store_byName_getElem?] at hx
      split at hx
      · cases hx
        rw [recorded_isMaster, hm] at hxm
        cases hxm
      · exact hx
  · rintro ⟨huniq, n, x, hne, hx, hxm, hxip⟩
    have hname : x.name = n := (hs.registry.named hx).1
    refine ⟨x, hw.registry.mem_list.mpr ?_, hxm, hxip, node.name,
      (isSingle_written_of_master hs had hm).mpr ⟨rfl, huniq⟩⟩
    show (s.registry.store _).byName[_]? = _
    rw [store_byName_getElem?, recorded_name, hname, if_neg (Ne.symm hne)]
    exact hx

theorem seedBlocked_iff_of_not_master (hm : node.isMaster = false) :
    SeedBlocked s now node reason ↔
      isIPv4 node.overlayIP = false ∧ SoleMasterBeside s node.name := by
  unfold SeedBlocked Blocked SoleMasterBeside
  rw [writtenTargets_of_not_master hm]
  simp only [List.mem_singleton, exists_eq_left, recorded_isMaster, hm,
    recorded_overlayIP, true_and, isSingle_written_of_not_master hs had hm]

end Written

/-! ## `RegisterNode` -/

abbrev RegisterNodeRequest.OverlayValid (req : RegisterNodeRequest) : Prop :=
  req.node.isMaster = true → isIPv4 req.overlayIp = true

section Outcome

variable (now : Time) (onRegister : Option (Observer δ)) (req : RegisterNodeRequest)
  (s s' : Plane δ)

/-- How a `RegisterNode` call ends. -/
inductive RegisterOutcome : RegisterNodeResponse → Prop where
  | refused (err : HandlerError) (hno : ¬ s.registry.Admits now req.node)
      (hs' : s'.Agrees s) : RegisterOutcome (.reject err)
  | badOverlay (err : HandlerError) (had : s.registry.Admits now req.node)
      (hm : req.node.isMaster = true) (hip : isIPv4 req.overlayIp = false)
      (hs' : s'.Agrees { s with registry := s.registry.without req.node }) :
      RegisterOutcome (.reject err)
  | seedFailed (t : Plane δ) (err : HandlerError) (had : s.registry.Admits now req.node)
      (hip : req.OverlayValid) (hblocked : SeedBlocked s now req.node "register")
      (hseed : SeedSpec (s.written now req.node "register")
        (s.writtenTargets now req.node "register") (t, .error err))
      (hs' : s'.Agrees { t with registry := s.registry.without req.node }) :
      RegisterOutcome (.reject err)
  | observerFailed (t : Plane δ) (world : δ) (err : String)
      (had : s.registry.Admits now req.node) (hip : req.OverlayValid)
      (hclear : ¬ SeedBlocked s now req.node "register")
      (hseed : SeedSpec (s.written now req.node "register")
        (s.writtenTargets now req.node "register") (t, .ok ()))
      (hobs : observe onRegister (s.registry.recorded now req.node) s.world = (world, .error err))
      (hs' : s'.Agrees { t with registry := s.registry.without req.node, world := world }) :
      RegisterOutcome (.reject (.observer err))
  | accepted (t : Plane δ) (world : δ) (had : s.registry.Admits now req.node)
      (hip : req.OverlayValid) (hclear : ¬ SeedBlocked s now req.node "register")
      (hseed : SeedSpec (s.written now req.node "register")
        (s.writtenTargets now req.node "register") (t, .ok ()))
      (hobs : observe onRegister (s.registry.recorded now req.node) s.world = (world, .ok ()))
      (hs' : s'.Agrees { t with world := world }) :
      RegisterOutcome
        { accepted := true
          registeredAtUnix := (s.registry.recorded now req.node).registeredAt.unix }

def registerRejected (name : String) (err : HandlerError) : AuditEvent AuditDetail :=
  { eventType := "register-rejected", nodeName := name, detail := some (.error err) }

inductive RegisterRecord : Option (AuditEvent AuditDetail) → Prop where
  | nameless (hname : req.nodeName = "") : RegisterRecord none
  | refused (err : RegistryError) (hname : req.nodeName ≠ "")
      (hno : ¬ s.registry.Admits now req.node) :
      RegisterRecord
        (some (registerRejected req.nodeName (.registry err)))
  | badOverlay (had : s.registry.Admits now req.node) (hm : req.node.isMaster = true)
      (hip : isIPv4 req.overlayIp = false) :
      RegisterRecord
        (some (registerRejected req.nodeName (.ledger (.overlayInvalid req.overlayIp))))
  | seedFailed (err : HandlerError) (had : s.registry.Admits now req.node)
      (hblocked : SeedBlocked s now req.node "register")
      (hrun : ((seedRegistrationOwnership now (s.registry.recorded now req.node)).run
        (s.written now req.node "register")).2 = .error err) :
      RegisterRecord (some (registerRejected req.nodeName err))
  | observerFailed (err : String) (had : s.registry.Admits now req.node)
      (hip : req.OverlayValid) (hclear : ¬ SeedBlocked s now req.node "register")
      (hobs : (observe onRegister (s.registry.recorded now req.node) s.world).2 = .error err) :
      RegisterRecord
        (some (registerRejected req.nodeName (.observer err)))
  | accepted (had : s.registry.Admits now req.node)
      (hip : req.OverlayValid) (hclear : ¬ SeedBlocked s now req.node "register")
      (hobs : (observe onRegister (s.registry.recorded now req.node) s.world).2 = .ok ()) :
      RegisterRecord
        (some
          { eventType := "register"
            nodeName := req.nodeName
            detail := some (.registered req.roles req.overlayIp req.region) })

structure Registers (res : RegisterNodeResponse) : Prop where
  outcome : RegisterOutcome now onRegister req s s' res
  record : ∃ e, RegisterRecord now onRegister req s e ∧ s'.audit = s.audit.note now e

end Outcome

section Register

variable {onRegister : Option (Observer δ)} {req : RegisterNodeRequest}

theorem run_rejectAndRemove (now : Time) {name : String} (err : HandlerError) {r : Registry}
    (h : s.registry.remove name = .ok r) :
    ∃ s', (rejectAndRemove now name err).run s = (s', .reject err) ∧
      s'.Agrees { s with registry := r } ∧
        s'.audit = s.audit.append now (registerRejected name err) := by
  unfold rejectAndRemove
  rw [run_bind, run_auditAppend, run_bind, run_registryCall_ok h]
  exact ⟨_, rfl, ⟨rfl, rfl, rfl⟩, rfl⟩

theorem finishRegisterNode_registers (onRegister : Option (Observer δ)) (hs : s.WF)
    (had : s.registry.Admits now req.node) (hip : req.OverlayValid) :
    ∃ s' res,
      (finishRegisterNode now onRegister req).run (s.written now req.node "register") = (s', res) ∧
      Registers now onRegister req s s' res := by
  have hw : (s.written now req.node "register").WF := hs.written "register" had hip
  have hsaved : (s.written now req.node "register").registry.byName[req.nodeName]? =
      some (s.registry.recorded now req.node) := written_byName_self
  have hseed : SeedSpec (s.written now req.node "register")
      (s.writtenTargets now req.node "register")
      ((seedRegistrationOwnership now (s.registry.recorded now req.node)).run
        (s.written now req.node "register")) :=
    seedRegistrationOwnership_spec now hw (by rw [recorded_name]; exact hsaved)
  have hremove : (s.written now req.node "register").registry.remove req.nodeName =
      .ok (s.registry.without req.node) :=
    remove_store recorded_name recorded_overlayIP
  -- the look-up finds what was just written, so its error branch is dead
  unfold finishRegisterNode
  rw [run_bind, run_registryLookup, hsaved]
  dsimp only
  rw [run_bind]
  rcases hout : (seedRegistrationOwnership now (s.registry.recorded now req.node)).run
    (s.written now req.node "register") with ⟨t, res⟩
  rw [hout] at hseed
  have hreg : t.registry = (s.written now req.node "register").registry := hseed.seeded.registry
  have haudit : t.audit = s.audit := hseed.seeded.audit
  cases res with
  | error err =>
    obtain ⟨s', hrun, hs', hevent⟩ := run_rejectAndRemove now err (hreg ▸ hremove)
    have hblocked : SeedBlocked s now req.node "register" := hseed.failed ⟨err, rfl⟩
    refine ⟨s', .reject err, hrun, .seedFailed t err had hip hblocked hseed hs', ?_⟩
    exact ⟨_, .seedFailed err had hblocked (by rw [hout]), haudit ▸ hevent⟩
  | ok u =>
    have hclear : ¬ SeedBlocked s now req.node "register" := by
      rintro ⟨node, hmem, hblocked⟩
      exact hseed.ok_iff.mp rfl node hmem hblocked
    have hworld : t.world = s.world := hseed.seeded.world
    dsimp only
    rw [run_bind]
    rcases hobs : observe onRegister (s.registry.recorded now req.node) t.world with
      ⟨world, err | u⟩
    · rw [run_notifyRegistrationObserver hobs]
      rw [hworld] at hobs
      obtain ⟨s', hrun, hs', hevent⟩ := run_rejectAndRemove now (.observer err)
        (s := { t with world := world }) (hreg ▸ hremove)
      refine ⟨s', _, hrun, .observerFailed t world err had hip hclear hseed hobs hs', ?_⟩
      exact ⟨_, .observerFailed err had hip hclear (by rw [hobs]), haudit ▸ hevent⟩
    · rw [run_notifyRegistrationObserver hobs]
      rw [hworld] at hobs
      refine ⟨_, _, rfl, .accepted t world had hip hclear hseed hobs ⟨rfl, rfl, rfl⟩, ?_⟩
      refine ⟨_, .accepted had hip hclear (by rw [hobs]), ?_⟩
      rw [← haudit]
      rfl

theorem registerNode_registers (now : Time) (onRegister : Option (Observer δ))
    (req : RegisterNodeRequest) (hs : s.WF) :
    ∃ s' res, (registerNode now onRegister req).run s = (s', res) ∧
      Registers now onRegister req s s' res := by
  unfold registerNode
  by_cases hname : req.nodeName = ""
  · rw [if_pos hname]
    refine ⟨s, _, rfl, .refused _ ?_ ⟨rfl, rfl, rfl⟩, none, .nameless hname, rfl⟩
    intro had
    exact had.name_ne hname
  rw [if_neg hname, run_bind]
  cases hreg : s.registry.register now req.node with
  | error err =>
    have hno : ¬ s.registry.Admits now req.node := by
      intro had
      rw [register_eq_ok_iff.mpr ⟨had, rfl⟩] at hreg
      cases hreg
    rw [run_registryCall_error hreg]
    exact ⟨_, _, rfl, .refused _ hno ⟨rfl, rfl, rfl⟩, _, .refused err hname hno, rfl⟩
  | ok r =>
    obtain ⟨had, rfl⟩ := register_eq_ok_iff.mp hreg
    rw [run_registryCall_ok hreg]
    dsimp only
    -- a master is written to the ledger too, which takes IPv4 overlays only
    by_cases hm : req.node.isMaster = true
    · rw [if_pos hm, run_bind]
      cases hip : isIPv4 req.overlayIp with
      | false =>
        rw [run_ledgerReassign_error hname hip]
        obtain ⟨s', hrun, hs', hevent⟩ := run_rejectAndRemove now
          (.ledger (.overlayInvalid req.overlayIp))
          (s := { s with registry := s.registry.store (s.registry.recorded now req.node) })
          (remove_store recorded_name recorded_overlayIP)
        exact ⟨s', _, hrun, .badOverlay _ had hm hip hs', _, .badOverlay had hm hip, hevent⟩
      | true =>
        obtain ⟨v, hv⟩ := run_ledgerReassign_ok now "register"
          (s := { s with registry := s.registry.store (s.registry.recorded now req.node) })
          hname hip
        rw [hv]
        have hfin := finishRegisterNode_registers onRegister hs had
          (fun _ => hip)
        rw [Plane.written, if_pos hm] at hfin
        exact hfin
    · rw [if_neg hm]
      have hfin := finishRegisterNode_registers onRegister hs had
        (fun h => absurd h hm)
      rw [Plane.written, if_neg hm] at hfin
      exact hfin

theorem registerNode_outcome (now : Time) (onRegister : Option (Observer δ))
    (req : RegisterNodeRequest) (hs : s.WF) :
    ∃ s' res, (registerNode now onRegister req).run s = (s', res) ∧
      RegisterOutcome now onRegister req s s' res := by
  obtain ⟨s', res, hrun, hregisters⟩ := registerNode_registers now onRegister req hs
  exact ⟨s', res, hrun, hregisters.outcome⟩

end Register

/-! ## `SelfRegister` -/

inductive SelfRegisterOutcome (now : Time) (node : RegisteredNode) (s s' : Plane δ) :
    Except SelfRegisterError Unit → Prop where
  | refused (err : SelfRegisterError) (hno : ¬ s.registry.Admits now node) (hs' : s'.Agrees s) :
      SelfRegisterOutcome now node s s' (.error err)
  | plain (had : s.registry.Admits now node) (hm : node.isMaster = false)
      (hs' : s'.Agrees (s.written now node "self-register")) :
      SelfRegisterOutcome now node s s' (.ok ())
  | badOverlay (err : SelfRegisterError) (had : s.registry.Admits now node)
      (hm : node.isMaster = true) (hip : isIPv4 node.overlayIP = false)
      (hs' : s'.Agrees { s with registry := s.registry.store (s.registry.recorded now node) }) :
      SelfRegisterOutcome now node s s' (.error err)
  | seeded (t : Plane δ) (res : Except HandlerError Unit) (had : s.registry.Admits now node)
      (hm : node.isMaster = true) (hip : isIPv4 node.overlayIP = true)
      (hseed : SeedSpec (s.written now node "self-register")
        (s.written now node "self-register").registry.list (t, res))
      (hs' : s'.Agrees t) : SelfRegisterOutcome now node s s' (res.mapError .seed)

theorem selfRegister_records (now : Time) (node : RegisteredNode) (hs : s.WF) :
    ∃ s' res, (selfRegister now node).run s = (s', res) ∧
      SelfRegisterOutcome now node s s' res ∧ s'.audit = s.audit := by
  unfold selfRegister
  rw [run_bind]
  cases hreg : s.registry.register now node with
  | error err =>
    rw [run_registryCall_error hreg]
    refine ⟨s, _, rfl, .refused _ ?_ ⟨rfl, rfl, rfl⟩, rfl⟩
    intro had
    rw [register_eq_ok_iff.mpr ⟨had, rfl⟩] at hreg
    cases hreg
  | ok r =>
    obtain ⟨had, rfl⟩ := register_eq_ok_iff.mp hreg
    rw [run_registryCall_ok hreg]
    dsimp only
    cases hm : node.isMaster with
    | false =>
      rw [if_neg Bool.false_ne_true]
      refine ⟨_, _, rfl, .plain had hm ⟨rfl, ?_, rfl⟩, rfl⟩
      show s.ledger = if node.isMaster then _ else s.ledger
      rw [hm, if_neg Bool.false_ne_true]
    | true =>
      rw [if_pos rfl, run_bind]
      cases hip : isIPv4 node.overlayIP with
      | false =>
        rw [run_ledgerReassign_error had.name_ne hip]
        exact ⟨_, _, rfl, .badOverlay _ had hm hip ⟨rfl, rfl, rfl⟩, rfl⟩
      | true =>
        obtain ⟨v, hv⟩ := run_ledgerReassign_ok now "self-register"
          (s := { s with registry := s.registry.store (s.registry.recorded now node) })
          had.name_ne hip
        rw [hv]
        dsimp only
        have hw : (s.written now node "self-register").WF :=
          hs.written _ had (fun _ => hip)
        have hseed := seedAll_spec now hw _
          (fun x hx => hw.registry.mem_list.mp hx)
        rw [Plane.written, if_pos hm] at hseed
        unfold seedExistingRegisteredNodeOwnership
        rw [run_map, run_bind, run_read]
        refine ⟨_, _, rfl, .seeded _ _ had hm hip ?_ ⟨rfl, rfl, rfl⟩, hseed.seeded.audit⟩
        rw [Plane.written, if_pos hm]
        exact hseed

theorem selfRegister_outcome (now : Time) (node : RegisteredNode) (hs : s.WF) :
    ∃ s' res, (selfRegister now node).run s = (s', res) ∧
      SelfRegisterOutcome now node s s' res := by
  obtain ⟨s', res, hrun, hout, -⟩ := selfRegister_records now node hs
  exact ⟨s', res, hrun, hout⟩

end AwgMesh.ControlPlane
