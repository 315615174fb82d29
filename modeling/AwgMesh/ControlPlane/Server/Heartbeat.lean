import AwgMesh.ControlPlane.Server.Seeding

/-! # What a heartbeat does -/

namespace AwgMesh.ControlPlane

open Lib

variable {δ : Type} {now : Time} {s s' t : Plane δ}

abbrev HeartbeatRequest.beat (req : HeartbeatRequest) (now : Time) (node : RegisteredNode) :
    RegisteredNode :=
  Registry.beat node now req.health req.pubkey req.endpointHost req.protocol

def Plane.beaten (s : Plane δ) (now : Time) (req : HeartbeatRequest) (node : RegisteredNode) :
    Plane δ :=
  { s with registry := s.registry.modify req.nodeName (req.beat now node) }

abbrev Plane.beatTargets (s : Plane δ) (now : Time) (req : HeartbeatRequest)
    (node : RegisteredNode) : List RegisteredNode :=
  seedTargets (s.beaten now req node) (req.beat now node)

section Outcome

variable (now : Time) (onRegister : Option (Observer δ)) (req : HeartbeatRequest) (s s' : Plane δ)

inductive HeartbeatOutcome : Except HandlerError HeartbeatResponse → Prop where
  | unknown (hno : s.registry.byName[req.nodeName]? = none) (hs' : s'.Agrees s) :
      HeartbeatOutcome (.error (.notRegistered req.nodeName))
  | plain (node : RegisteredNode) (hnode : s.registry.byName[req.nodeName]? = some node)
      (hid : req.hasPeerIdentity = false) (hs' : s'.Agrees (s.beaten now req node)) :
      HeartbeatOutcome (.ok { serverAtUnix := now.unix })
  | seedFailed (node : RegisteredNode) (t : Plane δ) (err : HandlerError)
      (hnode : s.registry.byName[req.nodeName]? = some node)
      (hid : req.hasPeerIdentity = true)
      (hseed : SeedSpec (s.beaten now req node) (s.beatTargets now req node) (t, .error err))
      (hs' : s'.Agrees t) : HeartbeatOutcome (.error err)
  | observerFailed (node : RegisteredNode) (t : Plane δ) (world : δ) (err : String)
      (hnode : s.registry.byName[req.nodeName]? = some node)
      (hid : req.hasPeerIdentity = true)
      (hseed : SeedSpec (s.beaten now req node) (s.beatTargets now req node) (t, .ok ()))
      (hobs : observe onRegister (req.beat now node) s.world = (world, .error err))
      (hs' : s'.Agrees { t with world := world }) :
      HeartbeatOutcome (.error (.observer err))
  | accepted (node : RegisteredNode) (t : Plane δ) (world : δ)
      (hnode : s.registry.byName[req.nodeName]? = some node)
      (hid : req.hasPeerIdentity = true)
      (hseed : SeedSpec (s.beaten now req node) (s.beatTargets now req node) (t, .ok ()))
      (hobs : observe onRegister (req.beat now node) s.world = (world, .ok ()))
      (hs' : s'.Agrees { t with world := world }) :
      HeartbeatOutcome (.ok { serverAtUnix := now.unix })

def heartbeatRejected (name : String) (err : HandlerError) : AuditEvent AuditDetail :=
  { eventType := "heartbeat-rejected", nodeName := name, detail := some (.error err) }

inductive HeartbeatRecord : Option (AuditEvent AuditDetail) → Prop where
  | unknown (hno : s.registry.byName[req.nodeName]? = none) :
      HeartbeatRecord none
  | seedFailed (node : RegisteredNode) (err : HandlerError)
      (hnode : s.registry.byName[req.nodeName]? = some node)
      (hid : req.hasPeerIdentity = true)
      (hblocked : ∃ x ∈ s.beatTargets now req node, Blocked (s.beaten now req node) x)
      (hrun : ((seedRegistrationOwnership now (req.beat now node)).run
          (s.beaten now req node)).2 = .error err) :
      HeartbeatRecord (some (heartbeatRejected req.nodeName err))
  | observerFailed (node : RegisteredNode) (err : String)
      (hnode : s.registry.byName[req.nodeName]? = some node)
      (hid : req.hasPeerIdentity = true)
      (hclear : ¬ ∃ x ∈ s.beatTargets now req node, Blocked (s.beaten now req node) x)
      (hobs : (observe onRegister (req.beat now node) s.world).2 = .error err) :
      HeartbeatRecord (some (heartbeatRejected req.nodeName (.observer err)))
  | taken (node : RegisteredNode) (hnode : s.registry.byName[req.nodeName]? = some node)
      (hobs : req.hasPeerIdentity = true → (observe onRegister (req.beat now node) s.world).2 =
          .ok ()) :
      HeartbeatRecord (some { eventType := "heartbeat", nodeName := req.nodeName })

structure Beats (res : Except HandlerError HeartbeatResponse) : Prop where
  outcome : HeartbeatOutcome now onRegister req s s' res
  record : ∃ e, HeartbeatRecord now onRegister req s e ∧ s'.audit = s.audit.note now e

end Outcome

section Heartbeat

variable {req : HeartbeatRequest} {node : RegisteredNode}

theorem beaten_byName_getElem? {n : String} :
    (s.beaten now req node).registry.byName[n]? = if req.nodeName = n then some (req.beat now node)
      else s.registry.byName[n]? := Registry.modify_byName_getElem?

theorem Plane.WF.beaten (hs : s.WF) (hnode : s.registry.byName[req.nodeName]? = some node) :
    (s.beaten now req node).WF :=
  ⟨hs.registry.modify hnode rfl rfl, hs.ledger⟩

theorem heartbeat_beats (now : Time) (onRegister : Option (Observer δ)) (req : HeartbeatRequest)
    (hs : s.WF) :
    ∃ s' res, (heartbeat now onRegister req).run s = (s', res) ∧
      Beats now onRegister req s s' res := by
  unfold heartbeat
  rw [Handler.run_bind]
  cases hnode : s.registry.byName[req.nodeName]? with
  | none =>
    have hcall : s.registry.heartbeat now req.nodeName req.health req.pubkey req.endpointHost
        req.protocol = .error .notFound := by
      unfold Registry.heartbeat; rw [hnode]
    rw [run_registryCall_error hcall]
    exact ⟨s, _, rfl, .unknown hnode ⟨rfl, rfl, rfl⟩, none, .unknown hnode, rfl⟩
  | some node =>
    have hcall : s.registry.heartbeat now req.nodeName req.health req.pubkey req.endpointHost
        req.protocol = .ok (s.beaten now req node).registry := by
      unfold Registry.heartbeat; rw [hnode]; rfl
    rw [run_registryCall_ok hcall]
    change ∃ s' res, (if req.hasPeerIdentity = true then _ else _ :
      Handler (Plane δ) (Except HandlerError HeartbeatResponse)).run (s.beaten now req node) =
        (s', res) ∧ _
    cases hid : req.hasPeerIdentity with
    | false =>
      rw [if_neg Bool.false_ne_true]
      refine ⟨_, _, rfl, .plain node hnode hid ⟨rfl, rfl, rfl⟩, _, .taken node hnode ?_, rfl⟩
      rw [hid]
      intro h
      cases h
    | true =>
      -- the record looked up again is the one the heartbeat has just written
      have hsaved : (s.beaten now req node).registry.byName[req.nodeName]? =
          some (req.beat now node) := by
        rw [beaten_byName_getElem?, if_pos rfl]
      have hname : (req.beat now node).name = req.nodeName := (hs.registry.named hnode).1
      have hseed := seedRegistrationOwnership_spec now (hs.beaten hnode)
        (by rw [hname]; exact hsaved)
      rw [if_pos rfl, Handler.run_bind, run_registryLookup, hsaved]
      dsimp only
      rw [Handler.run_bind]
      rcases hout : (seedRegistrationOwnership now (req.beat now node)).run
        (s.beaten now req node) with ⟨t, res⟩
      rw [hout] at hseed
      have haudit : t.audit = s.audit := hseed.seeded.audit
      cases res with
      | error err =>
        refine ⟨_, _, rfl, .seedFailed node t err hnode hid hseed ⟨rfl, rfl, rfl⟩, _,
          .seedFailed node err hnode hid (hseed.failed ⟨err, rfl⟩) (by rw [hout]), ?_⟩
        rw [← haudit]
        rfl
      | ok u =>
        have hworld : t.world = s.world := hseed.seeded.world
        dsimp only
        rw [Handler.run_bind]
        rcases hobs : observe onRegister (req.beat now node) t.world with ⟨world, err | u⟩
        · have hclear := hseed.ok_iff.mp rfl
          rw [run_notifyRegistrationObserver hobs]
          rw [hworld] at hobs
          refine ⟨_, _, rfl, .observerFailed node t world err hnode hid hseed hobs
            ⟨rfl, rfl, rfl⟩, _, .observerFailed node err hnode hid ?_ (by rw [hobs]), ?_⟩
          · rintro ⟨x, hx, hblocked⟩
            exact hclear x hx hblocked
          · rw [← haudit]
            rfl
        · rw [run_notifyRegistrationObserver hobs]
          rw [hworld] at hobs
          refine ⟨_, _, rfl, .accepted node t world hnode hid hseed hobs ⟨rfl, rfl, rfl⟩, _,
            .taken node hnode (fun _ => by rw [hobs]), ?_⟩
          rw [← haudit]
          rfl

theorem heartbeat_outcome (now : Time) (onRegister : Option (Observer δ)) (req : HeartbeatRequest)
    (hs : s.WF) :
    ∃ s' res, (heartbeat now onRegister req).run s = (s', res) ∧
      HeartbeatOutcome now onRegister req s s' res := by
  obtain ⟨s', res, hrun, hbeats⟩ := heartbeat_beats now onRegister req hs
  exact ⟨s', res, hrun, hbeats.outcome⟩

variable {onRegister : Option (Observer δ)} {res : Except HandlerError HeartbeatResponse}

variable (hs : s.WF) (hnode : s.registry.byName[req.nodeName]? = some node)

include hs hnode

omit hs in
theorem HeartbeatOutcome.seeded (hout : HeartbeatOutcome now onRegister req s s' res)
    (hid : req.hasPeerIdentity = true) :
    ∃ t r, SeedSpec (s.beaten now req node) (s.beatTargets now req node) (t, r) ∧
      s'.ledger = t.ledger := by
  cases hout with
  | unknown hno hs' => rw [hno] at hnode; cases hnode
  | plain x hx hno hs' => rw [hid] at hno; cases hno
  | seedFailed x t err hx hid' hseed hs' =>
    rw [hnode] at hx
    cases hx
    exact ⟨t, _, hseed, hs'.ledger⟩
  | observerFailed x t world err hx hid' hseed hobs hs' =>
    rw [hnode] at hx
    cases hx
    exact ⟨t, _, hseed, hs'.ledger⟩
  | accepted x t world hx hid' hseed hobs hs' =>
    rw [hnode] at hx
    cases hx
    exact ⟨t, _, hseed, hs'.ledger⟩

omit hs in
theorem selfOwned_beaten {m : String} : (s.beaten now req node).SelfOwned m ↔ s.SelfOwned m := by
  unfold Plane.SelfOwned
  rw [beaten_byName_getElem?]
  split
  · next hm =>
      subst hm
      rw [hnode]
      constructor
      · rintro ⟨x, e, hx, hmaster, he, hown⟩
        cases hx
        exact ⟨node, e, rfl, hmaster, he, hown⟩
      · rintro ⟨x, e, hx, hmaster, he, hown⟩
        cases hx
        exact ⟨_, e, rfl, hmaster, he, hown⟩
  · rfl

theorem exists_mem_seedTargets_beaten (p : Bool → String → Prop) :
    (∃ y ∈ s.beatTargets now req node,
      p y.isMaster y.overlayIP) ↔ ∃ x ∈ seedTargets s node, p x.isMaster x.overlayIP := by
  unfold seedTargets
  show (∃ y ∈ (if node.isMaster then _ else _), _) ↔ _
  split
  · have hbeaten : (s.beaten now req node).WF := hs.beaten hnode
    simp only [hbeaten.registry.mem_list, hs.registry.mem_list, beaten_byName_getElem?]
    constructor
    · rintro ⟨y, hy, hp⟩
      split at hy
      · cases hy
        exact ⟨node, by rw [(hs.registry.named hnode).1]; exact hnode, hp⟩
      · exact ⟨y, hy, hp⟩
    · rintro ⟨x, hx, hp⟩
      by_cases hname : req.nodeName = x.name
      · rw [← hname, hnode] at hx
        cases hx
        exact ⟨req.beat now node, if_pos hname, hp⟩
      · exact ⟨x, by rw [if_neg hname]; exact hx, hp⟩
  · simp only [List.mem_singleton, exists_eq_left]
    rfl

def HeartbeatFailsLate (s : Plane δ) (now : Time) (onRegister : Option (Observer δ))
    (req : HeartbeatRequest) (node : RegisteredNode) : Prop :=
  req.hasPeerIdentity = true ∧ ((∃ x ∈ seedTargets s node, Blocked s x) ∨
      (observe onRegister (req.beat now node) s.world).2 ≠ .ok ())

theorem exists_blocked_beaten :
    (∃ y ∈ s.beatTargets now req node,
      Blocked (s.beaten now req node) y) ↔ ∃ x ∈ seedTargets s node, Blocked s x := by
  have hsingle : (∃ m, (s.beaten now req node).IsSingle m) ↔ ∃ m, s.IsSingle m := by
    simp only [Plane.IsSingle, selfOwned_beaten hnode]
  unfold Blocked
  rw [hsingle]
  exact exists_mem_seedTargets_beaten hs hnode
    fun isMaster overlayIP => isMaster = false ∧ Net.isIPv4 overlayIP = false ∧ ∃ m, s.IsSingle m

theorem HeartbeatOutcome.failsLate_iff (hout : HeartbeatOutcome now onRegister req s s' res) :
    HeartbeatFailsLate s now onRegister req node ↔ res.isOk = false := by
  cases hout with
  | unknown hno hs' => rw [hno] at hnode; cases hnode
  | plain x hx hid hs' =>
    refine iff_of_false ?_ Bool.noConfusion
    rintro ⟨hid', -⟩
    rw [hid] at hid'
    cases hid'
  | seedFailed x t err hx hid hseed hs' =>
    rw [hnode] at hx
    cases hx
    exact iff_of_true
      ⟨hid, .inl ((exists_blocked_beaten hs hnode).mp (hseed.failed ⟨err, rfl⟩))⟩ rfl
  | observerFailed x t world err hx hid hseed hobs hs' =>
    rw [hnode] at hx
    cases hx
    refine iff_of_true ⟨hid, .inr ?_⟩ rfl
    rw [hobs]
    intro h
    cases h
  | accepted x t world hx hid hseed hobs hs' =>
    rw [hnode] at hx
    cases hx
    refine iff_of_false ?_ Bool.noConfusion
    rintro ⟨-, hblocked | hobs'⟩
    · obtain ⟨y, hy, hy'⟩ := (exists_blocked_beaten hs hnode).mpr hblocked
      exact hseed.ok_iff.mp rfl y hy hy'
    · rw [hobs] at hobs'
      exact hobs' rfl

end Heartbeat

end AwgMesh.ControlPlane
