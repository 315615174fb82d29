import AwgMesh.ControlPlane.Server.Register
import AwgMesh.ControlPlane.Server.Heartbeat
import AwgMesh.ControlPlane.Server.Decommission

/-! # What the handlers do on the way -/

namespace AwgMesh.ControlPlane

open Lib Handler Registry

variable {δ : Type} {α : Type} {now : Time} {s t : Plane δ}

structure Still (s t : Plane δ) : Prop where
  registry : t.registry = s.registry
  ledger : t.ledger = s.ledger ∨ t.ledger.version ≠ s.ledger.version

theorem Still.refl (s : Plane δ) : Still s s := ⟨rfl, .inl rfl⟩

theorem registry_run_of_still {x : Handler (Plane δ) α} (h : x.Steps Still s) :
    (x.run s).1.registry = s.registry := by
  have hreg : x.Steps (fun s t => t.registry = s.registry) s := h.imp fun hst => hst.registry
  exact Steps.run (Q := fun s t : Plane δ => t.registry = s.registry) (fun _ => rfl)
    (fun h₁ h₂ => h₂.trans h₁) hreg

/-! ## Still calls -/

section StillCalls

theorem still_auditAppend (e : AuditEvent AuditDetail) : (auditAppend now e).Steps Still s :=
  Steps.atomic ⟨rfl, .inl rfl⟩

variable {Q : Plane δ → Plane δ → Prop}

theorem steps_audit_pure (hQ : ∀ {s t}, Still s t → Q s t) (e : AuditEvent AuditDetail) (a : α) :
    ((auditAppend now e >>= fun _ => pure a : Handler (Plane δ) α)).Steps Q s :=
  Steps.bind ((still_auditAppend e).imp hQ) (Steps.pure a _)

theorem still_registryLookup (name : String) : (registryLookup name).Steps Still s :=
  Steps.read (Still.refl s)

theorem still_ledgerReassign {overlayIP expectedOwner newOwner reason : String}
    {checkOwner : Bool} :
    (ledgerReassign now overlayIP expectedOwner newOwner reason checkOwner).Steps Still s := by
  apply Steps.atomic
  split
  · exact Still.refl s
  · next l v h =>
      obtain ⟨-, -, rfl⟩ := Ledger.reassign_ok h
      refine ⟨rfl, .inr ?_⟩
      show s.ledger.version + 1 ≠ s.ledger.version
      omega

theorem still_notifyRegistrationObserver (onRegister : Option (Observer δ))
    (node : RegisteredNode) : (notifyRegistrationObserver onRegister node).Steps Still s := by
  cases onRegister with
  | none => exact Steps.pure _ s
  | some observer =>
    apply Steps.atomic
    split <;> exact ⟨rfl, .inl rfl⟩

variable {f : Registry → Except RegistryError Registry}
  {k : Except RegistryError Unit → Handler (Plane δ) α}

theorem steps_registryCall_ok {r : Registry} (h : f s.registry = .ok r)
    (hQ : Q s { s with registry := r }) (hk : (k (.ok ())).Steps Q { s with registry := r }) :
    (registryCall f >>= k).Steps Q s := by
  refine Steps.bind (Steps.atomic ?_) ?_
  · rw [h]
    exact hQ
  · rw [run_registryCall_ok h]
    exact hk

theorem steps_registryCall_error {err : RegistryError} (h : f s.registry = .error err)
    (hQ : ∀ {s t}, Still s t → Q s t) (hk : (k (.error err)).Steps Q s) :
    (registryCall f >>= k).Steps Q s := by
  refine Steps.bind (Steps.atomic ?_) ?_
  · rw [h]
    exact hQ (Still.refl s)
  · rw [run_registryCall_error h]
    exact hk

/-! ## Seeding and draining -/

theorem still_singleSelfRegisteredMasterLoop (es : List OwnershipEntry) (owner : String) :
    (singleSelfRegisteredMasterLoop es owner).Steps Still s := by
  induction es generalizing owner with
  | nil => exact Steps.pure _ s
  | cons e rest ih =>
    rw [singleSelfRegisteredMasterLoop]
    split
    · exact ih owner
    apply Steps.bind (still_registryLookup _)
    rw [run_registryLookup]
    split
    · exact ih owner
    split
    · exact ih owner
    split
    · exact Steps.pure _ s
    · exact ih _

theorem still_seedRegisteredNodeOwnership (node : RegisteredNode) (s : Plane δ) :
    (seedRegisteredNodeOwnership now node).Steps Still s := by
  unfold seedRegisteredNodeOwnership singleSelfRegisteredMaster
  split
  · exact Steps.pure _ s
  refine Steps.bind (Steps.bind (Steps.read (Still.refl s))
    (still_singleSelfRegisteredMasterLoop _ _)) ?_
  split
  · exact Steps.pure _ _
  apply Steps.bind (Steps.read (Still.refl _))
  split
  · exact Steps.pure _ _
  apply Steps.bind still_ledgerReassign
  split <;> exact Steps.pure _ _

theorem still_seedAll (nodes : List RegisteredNode) (s : Plane δ) :
    (seedAll now nodes).Steps Still s := by
  induction nodes generalizing s with
  | nil => exact Steps.pure _ s
  | cons node rest ih =>
    rw [seedAll]
    apply Steps.bind (still_seedRegisteredNodeOwnership node s)
    split
    · exact Steps.pure _ _
    · exact ih _

theorem still_seedRegistrationOwnership (now : Time) (node : RegisteredNode) (s : Plane δ) :
    (seedRegistrationOwnership now node).Steps Still s := by
  unfold seedRegistrationOwnership seedExistingRegisteredNodeOwnership
  split
  · exact Steps.bind (Steps.read (Still.refl s)) (still_seedAll _ s)
  · exact still_seedRegisteredNodeOwnership node s

theorem still_drainLoop (sourceMaster reason : String) (chooseMaster : Option (Nat → String))
    (es : List OwnershipEntry) (calls count : Nat) (s : Plane δ) :
    (drainLoop now sourceMaster reason chooseMaster es calls count).Steps Still s := by
  induction es generalizing calls count s with
  | nil => exact Steps.pure _ s
  | cons e rest ih =>
    cases chooseMaster with
    | none => exact Steps.pure _ s
    | some choose =>
    rw [drainLoop]
    split
    · exact Steps.pure _ s
    split
    · exact ih _ _ s
    apply Steps.bind still_ledgerReassign
    split
    · exact ih _ _ _
    · exact ih _ _ _
    · exact Steps.pure _ _
    · exact ih _ _ _

end StillCalls

/-! ## `RegisterNode` -/

inductive RegisterStep (now : Time) (req : RegisterNodeRequest) (s₀ : Plane δ) (accepted : Bool)
    (s t : Plane δ) : Prop where
  | still (h : Still s t)
  | write (had : s₀.registry.Admits now req.node) (hs : s = s₀)
      (ht : t = { s with registry := s₀.registry.store (s₀.registry.recorded now req.node) })
  | undo (had : s₀.registry.Admits now req.node) (hno : accepted = false)
      (hs : s.registry = s₀.registry.store (s₀.registry.recorded now req.node))
      (ht : t = { s with registry := s₀.registry.without req.node })

section Register

variable {onRegister : Option (Observer δ)} {req : RegisterNodeRequest} {s₀ : Plane δ}
  {accepted : Bool}

theorem rejectAndRemove_accepted (name : String) (err : HandlerError) :
    ((rejectAndRemove now name err).run s).2.accepted = false := by
  unfold rejectAndRemove
  rw [run_bind, run_bind]
  split <;> rfl

theorem rejectAndRemove_steps (err : HandlerError) (had : s₀.registry.Admits now req.node)
    (hno : accepted = false)
    (hs : s.registry = s₀.registry.store (s₀.registry.recorded now req.node)) :
    (rejectAndRemove now req.nodeName err).Steps (RegisterStep now req s₀ accepted) s := by
  have hremove : s.registry.remove req.nodeName = .ok (s₀.registry.without req.node) := by
    rw [hs]
    exact remove_store recorded_name recorded_overlayIP
  unfold rejectAndRemove
  apply Steps.bind ((still_auditAppend _).imp .still)
  rw [run_auditAppend]
  exact steps_registryCall_ok hremove (.undo had hno hs rfl) (Steps.pure _ _)

theorem finishRegisterNode_steps (had : s₀.registry.Admits now req.node)
    (hs : s.registry = s₀.registry.store (s₀.registry.recorded now req.node))
    (hres : ((finishRegisterNode now onRegister req).run s).2.accepted = accepted) :
    (finishRegisterNode now onRegister req).Steps (RegisterStep now req s₀ accepted) s := by
  unfold finishRegisterNode at hres ⊢
  apply Steps.bind ((still_registryLookup _).imp .still)
  rw [run_bind] at hres
  rw [run_registryLookup] at hres ⊢
  dsimp only at hres ⊢
  split
  · exact steps_audit_pure .still _ _
  next saved hsaved =>
  rw [hsaved] at hres
  dsimp only at hres
  rw [run_bind] at hres
  have hseed := still_seedRegistrationOwnership now saved s
  have hreg := registry_run_of_still hseed
  apply Steps.bind (hseed.imp .still)
  generalize (seedRegistrationOwnership now saved).run s = out at hreg hres ⊢
  obtain ⟨t, res⟩ := out
  cases res with
  | error err =>
    rw [rejectAndRemove_accepted] at hres
    exact rejectAndRemove_steps err had hres.symm (hreg.trans hs)
  | ok u =>
    dsimp only at hres ⊢
    rw [run_bind] at hres
    have hobs := still_notifyRegistrationObserver (s := t) onRegister saved
    have hreg' := registry_run_of_still hobs
    apply Steps.bind (hobs.imp .still)
    generalize (notifyRegistrationObserver onRegister saved).run t = out at hreg' hres ⊢
    obtain ⟨u, res⟩ := out
    cases res with
    | error err =>
      rw [rejectAndRemove_accepted] at hres
      exact rejectAndRemove_steps err had hres.symm ((hreg'.trans hreg).trans hs)
    | ok v =>
      exact steps_audit_pure .still _ _

theorem registerNode_steps (now : Time) (onRegister : Option (Observer δ))
    (req : RegisterNodeRequest) (s : Plane δ) :
    (registerNode now onRegister req).Steps
      (RegisterStep now req s ((registerNode now onRegister req).run s).2.accepted) s := by
  generalize hres : ((registerNode now onRegister req).run s).2.accepted = accepted
  unfold registerNode at hres ⊢
  split
  · exact Steps.pure _ s
  next hname =>
  rw [if_neg hname, run_bind] at hres
  cases hreg : s.registry.register now req.node with
  | error err => exact steps_registryCall_error hreg .still (steps_audit_pure .still _ _)
  | ok r =>
    obtain ⟨had, rfl⟩ := register_eq_ok_iff.mp hreg
    apply steps_registryCall_ok hreg (.write had rfl rfl)
    rw [run_registryCall_ok hreg] at hres
    dsimp only at hres ⊢
    split
    · next hm =>
        rw [if_pos hm, run_bind] at hres
        have hcall : (ledgerReassign now req.overlayIp "" req.nodeName "register" false).Steps
            Still { s with registry := s.registry.store (s.registry.recorded now req.node) } :=
          still_ledgerReassign
        have hkeep := registry_run_of_still hcall
        apply Steps.bind (hcall.imp .still)
        generalize (ledgerReassign now req.overlayIp "" req.nodeName "register" false).run
          { s with registry := s.registry.store (s.registry.recorded now req.node) } =
            out at hkeep hres ⊢
        obtain ⟨t, res⟩ := out
        cases res with
        | error err =>
          rw [rejectAndRemove_accepted] at hres
          exact rejectAndRemove_steps _ had hres.symm hkeep
        | ok v => exact finishRegisterNode_steps had hkeep hres
    · next hm =>
        rw [if_neg hm] at hres
        exact finishRegisterNode_steps had rfl hres

end Register

/-! ## `Heartbeat` -/

inductive HeartbeatStep (now : Time) (req : HeartbeatRequest) (s₀ s t : Plane δ) : Prop where
  | still (h : Still s t)
  | write (node : RegisteredNode) (hnode : s₀.registry.byName[req.nodeName]? = some node)
      (hs : s = s₀) (ht : t = s₀.beaten now req node)

theorem heartbeat_steps (now : Time) (onRegister : Option (Observer δ)) (req : HeartbeatRequest)
    (s : Plane δ) : (heartbeat now onRegister req).Steps (HeartbeatStep now req s) s := by
  unfold heartbeat
  refine Steps.bind (Steps.atomic ?_) ?_
  · split
    · exact .still (Still.refl s)
    · next r h =>
        obtain ⟨node, hnode, rfl⟩ := heartbeat_ok h
        exact .write node hnode rfl rfl
  split
  · exact Steps.pure _ _
  split
  · apply Steps.bind ((still_registryLookup _).imp .still)
    split
    · exact Steps.pure _ _
    apply Steps.bind ((still_seedRegistrationOwnership now _ _).imp .still)
    split
    · exact steps_audit_pure .still _ _
    apply Steps.bind ((still_notifyRegistrationObserver onRegister _).imp .still)
    split
    · exact steps_audit_pure .still _ _
    · exact steps_audit_pure .still _ _
  · exact steps_audit_pure .still _ _

/-! ## `DecommissionNode` -/

inductive DecommissionStep (name : String) (s₀ : Plane δ) (success : Bool) (s t : Plane δ) :
    Prop where
  | still (h : Still s t)
  | remove (node : RegisteredNode) (hnode : s₀.registry.byName[name]? = some node)
      (hok : success = true) (hs : s.registry = s₀.registry)
      (ht : t = { s with registry := s₀.registry.without node })

section Decommission

variable {name : String} {success : Bool} {s₀ : Plane δ}

theorem drainAndRemove_steps (hs₀ : s₀.registry.WF) (chooser : Option (Nat → String))
    (hs : s.registry = s₀.registry)
    (hres : ((drainAndRemove now name chooser).run s).2.success = success) :
    (drainAndRemove now name chooser).Steps (DecommissionStep name s₀ success) s := by
  unfold drainAndRemove at hres ⊢
  have hdrain : (drain now name "decommission" chooser).Steps Still s :=
    Steps.bind (Steps.read (Still.refl s)) (still_drainLoop _ _ _ _ _ _ s)
  have hkeep := registry_run_of_still hdrain
  apply Steps.bind (hdrain.imp .still)
  rw [run_bind] at hres
  generalize (drain now name "decommission" chooser).run s = out at hkeep hres ⊢
  obtain ⟨t, count, err⟩ := out
  cases err with
  | some err =>
    exact steps_audit_pure .still _ _
  | none =>
    dsimp only at hres ⊢
    rw [run_bind] at hres
    cases hrem : t.registry.remove name with
    | error err => exact steps_registryCall_error hrem .still (steps_audit_pure .still _ _)
    | ok r =>
      rw [run_registryCall_ok hrem] at hres
      have hreg : t.registry = s₀.registry := hkeep.trans hs
      obtain ⟨node, hnode, -⟩ := remove_ok hrem
      rw [hreg] at hnode
      have hrem₀ := hrem
      rw [hreg, remove_eq_without hs₀ hnode] at hrem₀
      cases hrem₀
      exact steps_registryCall_ok hrem (.remove node hnode hres.symm hreg rfl)
        (steps_audit_pure .still _ _)

theorem decommissionNode_steps (now : Time) (name : String) (hs : s.registry.WF) :
    (decommissionNode now name).Steps
      (DecommissionStep name s ((decommissionNode now name).run s).2.success) s := by
  generalize hres : ((decommissionNode now name).run s).2.success = success
  unfold decommissionNode at hres ⊢
  split
  · exact Steps.pure _ s
  next hname =>
  rw [if_neg hname, run_bind] at hres
  apply Steps.bind ((still_registryLookup _).imp .still)
  rw [run_registryLookup] at hres ⊢
  cases hnode : s.registry.byName[name]? with
  | none => exact Steps.pure _ s
  | some target =>
    rw [hnode] at hres
    dsimp only at hres ⊢
    rw [run_bind, run_read] at hres
    apply Steps.bind (Steps.read (.still (Still.refl s)))
    rw [run_read]
    dsimp only at hres ⊢
    split
    · next howned =>
        rw [if_pos howned, run_bind, run_read] at hres
        apply Steps.bind (Steps.read (.still (Still.refl s)))
        rw [run_read]
        dsimp only at hres ⊢
        split
        · next hregion =>
            rw [if_pos hregion] at hres
            exact drainAndRemove_steps hs _ rfl hres
        · next hregion =>
            rw [if_neg hregion, run_bind, run_read] at hres
            apply Steps.bind (Steps.read (.still (Still.refl s)))
            rw [run_read]
            dsimp only at hres ⊢
            split
            · next hany =>
                rw [if_pos hany] at hres
                exact drainAndRemove_steps hs _ rfl hres
            · exact Steps.pure _ s
    · next howned =>
        rw [if_neg howned] at hres
        exact drainAndRemove_steps hs _ rfl hres

end Decommission

end AwgMesh.ControlPlane
