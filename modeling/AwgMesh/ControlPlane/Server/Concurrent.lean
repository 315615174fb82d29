import AwgMesh.ControlPlane.Server.Owners

/-! # Handlers among others -/

namespace AwgMesh.ControlPlane

open Lib List Registry

variable {δ : Type} {now : Time} {n : String} {s t : Plane δ}

structure Absent (n : String) (s : Plane δ) : Prop where
  wf : s.WF
  absent : s.registry.byName[n]? = none

structure GivesNothing (n : String) (s t : Plane δ) : Prop where
  wf : t.WF
  owns : t.ledger.Owns n → s.ledger.Owns n

abbrev Spares {α : Type} (n : String) (R : α → Prop) (x : Handler (Plane δ) α) : Prop :=
  x.Guarded (Absent n) (GivesNothing n) R

theorem Absent.empty_iff : Absent "" s ↔ s.WF := by
  constructor
  · exact Absent.wf
  · intro hs
    refine ⟨hs, ?_⟩
    cases h : s.registry.byName[""]? with
    | none => rfl
    | some node => exact absurd rfl (hs.registry.named h).2

/-! ## Single calls -/

section Calls

theorem Absent.givesNothing (h : Absent n s) : GivesNothing n s s := ⟨h.wf, id⟩

variable {α : Type} {R : α → Prop}

theorem spares_read {f : Plane δ → α} (h : ∀ s, Absent n s → R (f s)) :
    Spares n R (Handler.read f) :=
  Handler.Guarded.read (fun _ hs => hs.givesNothing) h

theorem spares_auditAppend (e : AuditEvent AuditDetail) :
    Spares (δ := δ) n (fun _ => True) (auditAppend now e) :=
  Handler.Guarded.atomic fun _ hs => ⟨⟨⟨hs.wf.registry, hs.wf.ledger⟩, id⟩, fun _ => trivial⟩

theorem spares_audit_pure {a : α} (e : AuditEvent AuditDetail) (h : R a) :
    Spares n R (auditAppend now e >>= fun _ => pure a : Handler (Plane δ) α) :=
  (spares_auditAppend e).bind fun _ _ => Handler.Guarded.pure h

theorem spares_registryCall {f : Registry → Except RegistryError Registry}
    {R : Except RegistryError Unit → Prop} (hwf : ∀ {r r'}, r.WF → f r = .ok r' → r'.WF)
    (hok : ∀ {r r' : Registry}, f r = .ok r' → r'.byName[n]? = none → R (.ok ()))
    (herr : ∀ err, R (.error err)) : Spares (δ := δ) n R (registryCall f) := by
  apply Handler.Guarded.atomic
  intro s hs
  cases hres : f s.registry with
  | error err => exact ⟨hs.givesNothing, fun _ => herr err⟩
  | ok r => exact ⟨⟨⟨hwf hs.wf.registry hres, hs.wf.ledger⟩, id⟩, fun ht => hok hres ht.absent⟩

theorem spares_registryLookup (name : String) :
    Spares (δ := δ) n (fun found => found.isSome → name ≠ n) (registryLookup name) := by
  apply spares_read
  intro s hs hfound hname
  rw [Registry.lookup, hname, hs.absent] at hfound
  cases hfound

theorem spares_ledgerReassign {overlayIP expectedOwner newOwner reason : String} {checkOwner : Bool}
    (hne : newOwner ≠ n) : Spares (δ := δ) n (fun _ => True)
      (ledgerReassign now overlayIP expectedOwner newOwner reason checkOwner) := by
  apply Handler.Guarded.atomic
  intro s hs
  refine ⟨?_, fun _ => trivial⟩
  split
  · exact hs.givesNothing
  · next l v hres =>
      obtain ⟨hown, hip, rfl⟩ := Ledger.reassign_ok hres
      refine ⟨⟨hs.wf.registry, hs.wf.ledger.assign hown hip⟩, ?_⟩
      intro hown
      exact Ledger.Owns.of_assign hown |>.resolve_left hne.symm

theorem spares_notifyRegistrationObserver (onRegister : Option (Observer δ))
    (node : RegisteredNode) :
    Spares n (fun _ => True) (notifyRegistrationObserver onRegister node) := by
  cases onRegister with
  | none => exact Handler.Guarded.pure trivial
  | some observer =>
    apply Handler.Guarded.atomic
    intro s hs
    refine ⟨?_, fun _ => trivial⟩
    split <;> exact ⟨⟨hs.wf.registry, hs.wf.ledger⟩, id⟩

end Calls

/-! ## Registration -/

section Register

theorem spares_singleSelfRegisteredMasterLoop (es : List OwnershipEntry) {owner : String}
    (howner : owner = "" ∨ owner ≠ n) : Spares (δ := δ) n (fun found => found ≠ some n)
      (singleSelfRegisteredMasterLoop es owner) := by
  induction es generalizing owner with
  | nil =>
    apply Handler.Guarded.pure
    split
    · simp
    · next hne => simpa using howner.resolve_left hne
  | cons entry rest ih =>
    unfold singleSelfRegisteredMasterLoop
    split
    · exact ih howner
    apply (spares_registryLookup entry.owningMaster).bind
    intro found hfound
    split
    · exact ih howner
    split
    · exact ih howner
    split
    · exact Handler.Guarded.pure (by simp)
    · exact ih (.inr (hfound rfl))

theorem spares_singleSelfRegisteredMaster :
    Spares (δ := δ) n (fun found => found ≠ some n) singleSelfRegisteredMaster := by
  refine Handler.Guarded.bind (R := fun _ => True) (spares_read fun _ _ => trivial) ?_
  exact fun es _ => spares_singleSelfRegisteredMasterLoop es (.inl rfl)

theorem spares_seedRegisteredNodeOwnership (node : RegisteredNode) :
    Spares (δ := δ) n (fun _ => True) (seedRegisteredNodeOwnership now node) := by
  unfold seedRegisteredNodeOwnership
  split
  · exact Handler.Guarded.pure trivial
  apply spares_singleSelfRegisteredMaster.bind
  intro found hfound
  split
  · exact Handler.Guarded.pure trivial
  next owner =>
  refine Handler.Guarded.bind (R := fun _ => True) (spares_read fun _ _ => trivial) ?_
  intro entry _
  split
  · exact Handler.Guarded.pure trivial
  have hne : owner ≠ n := fun h => hfound (congrArg some h)
  apply (spares_ledgerReassign hne).bind
  intro res _
  split <;> exact Handler.Guarded.pure trivial

theorem spares_seedAll (nodes : List RegisteredNode) :
    Spares (δ := δ) n (fun _ => True) (seedAll now nodes) := by
  induction nodes with
  | nil => exact Handler.Guarded.pure trivial
  | cons node rest ih =>
    apply (spares_seedRegisteredNodeOwnership node).bind
    intro res _
    split
    · exact Handler.Guarded.pure trivial
    · exact ih

theorem spares_seedRegistrationOwnership (node : RegisteredNode) :
    Spares (δ := δ) n (fun _ => True) (seedRegistrationOwnership now node) := by
  unfold seedRegistrationOwnership
  split
  · refine Handler.Guarded.bind (R := fun _ => True) (spares_read fun _ _ => trivial) ?_
    exact fun nodes _ => spares_seedAll nodes
  · exact spares_seedRegisteredNodeOwnership node

theorem spares_remove (name : String) :
    Spares (δ := δ) n (fun _ => True) (registryCall fun r => r.remove name) :=
  spares_registryCall (fun hr h => hr.remove h) (fun _ _ => trivial) (fun _ => trivial)

theorem spares_rejectAndRemove (name : String) (err : HandlerError) :
    Spares (δ := δ) n (fun _ => True) (rejectAndRemove now name err) := by
  apply (spares_auditAppend _).bind
  intro _ _
  apply (spares_remove name).bind
  intro res _
  split
  · exact spares_audit_pure _ trivial
  · exact Handler.Guarded.pure trivial

theorem spares_finishRegisterNode (onRegister : Option (Observer δ)) (req : RegisterNodeRequest) :
    Spares n (fun _ => True) (finishRegisterNode now onRegister req) := by
  apply (spares_registryLookup req.nodeName).bind
  intro found _
  cases found with
  | none => exact spares_audit_pure _ trivial
  | some saved =>
  apply (spares_seedRegistrationOwnership saved).bind
  intro res _
  split
  · exact spares_rejectAndRemove _ _
  apply (spares_notifyRegistrationObserver onRegister saved).bind
  intro res _
  split
  · exact spares_rejectAndRemove _ _
  · exact spares_audit_pure _ trivial

theorem spares_registerNode (now : Time) (onRegister : Option (Observer δ))
    (req : RegisterNodeRequest) : Spares n (fun _ => True) (registerNode now onRegister req) := by
  unfold registerNode
  split
  · exact Handler.Guarded.pure trivial
  have hregister : Spares (δ := δ) n (fun res => res = .ok () → req.nodeName ≠ n)
      (registryCall fun r => r.register now req.node) := by
    refine spares_registryCall WF.register ?_ (by simp)
    intro r r' hok habsent _ hname
    obtain ⟨-, rfl⟩ := register_eq_ok_iff.mp hok
    have hname : req.node.name = n := hname
    rw [store_byName_getElem?, recorded_name, if_pos hname] at habsent
    cases habsent
  apply hregister.bind
  intro res hres
  split
  · exact spares_audit_pure _ trivial
  split
  · apply (spares_ledgerReassign (hres rfl)).bind
    intro res _
    split
    · exact spares_rejectAndRemove _ _
    · exact spares_finishRegisterNode onRegister req
  · exact spares_finishRegisterNode onRegister req

end Register

/-! ## Decommissioning -/

section Decommission

variable {name : String}

variable {chooser : Option (Nat → String)}

theorem spares_drainLoop (reason : String)
    (hchooser : ∀ choose, chooser = some choose → ∀ i, choose i = "" ∨ choose i ≠ n)
    (es : List OwnershipEntry) (calls count : Nat) :
    Spares (δ := δ) n (fun _ => True) (drainLoop now name reason chooser es calls count) := by
  induction es generalizing calls count with
  | nil => exact Handler.Guarded.pure trivial
  | cons entry rest ih =>
    unfold drainLoop
    cases chooser with
    | none => exact Handler.Guarded.pure trivial
    | some choose =>
      dsimp only
      split
      · exact Handler.Guarded.pure trivial
      next hne =>
      split
      · exact ih _ _
      apply (spares_ledgerReassign ((hchooser choose rfl calls).resolve_left hne)).bind
      intro res _
      split
      · exact ih _ _
      · exact ih _ _
      · exact Handler.Guarded.pure trivial
      · exact ih _ _

theorem spares_drainAndRemove
    (hchooser : ∀ choose, chooser = some choose → ∀ i, choose i = "" ∨ choose i ≠ n) :
    Spares (δ := δ) n (fun _ => True) (drainAndRemove now name chooser) := by
  have hdrain : Spares (δ := δ) n (fun _ => True) (drain now name "decommission" chooser) := by
    refine Handler.Guarded.bind (R := fun _ => True) (spares_read fun _ _ => trivial) ?_
    exact fun owned _ => spares_drainLoop "decommission" hchooser owned 0 0
  apply hdrain.bind
  intro res _
  split
  · exact spares_audit_pure _ trivial
  apply (spares_remove name).bind
  intro res _
  split <;> exact spares_audit_pure _ trivial

theorem spares_mastersInRegion (region : String) : Spares (δ := δ) n (fun masters => n ∉ masters)
      (Handler.read fun s => s.registry.mastersInRegion region) := by
  apply spares_read
  intro s hs hmem
  obtain ⟨node, hnode, -⟩ := hs.wf.registry.mem_mastersInRegion.mp hmem
  rw [hs.absent] at hnode
  cases hnode

theorem spares_roundRobin {masters : List String} (hmasters : n ∉ masters)
    (hne : filterOut masters name ≠ []) : Spares (δ := δ) n (fun _ => True)
      (drainAndRemove now name (some (roundRobinChooser (filterOut masters name)))) := by
  apply spares_drainAndRemove
  intro choose hchoose i
  cases hchoose
  right
  intro heq
  have hmem := roundRobinChooser_mem hne i
  rw [heq] at hmem
  exact hmasters (mem_filterOut.mp hmem).1

theorem spares_decommissionNode (now : Time) (name : String) :
    Spares (δ := δ) n (fun _ => True) (decommissionNode now name) := by
  unfold decommissionNode
  split
  · exact Handler.Guarded.pure trivial
  apply (spares_registryLookup name).bind
  intro found _
  split
  · exact Handler.Guarded.pure trivial
  refine Handler.Guarded.bind (R := fun _ => True) (spares_read fun _ _ => trivial) ?_
  intro owned _
  split
  · apply (spares_mastersInRegion _).bind
    intro inRegion hregion
    dsimp only
    split
    · next hne => exact spares_roundRobin hregion hne
    apply (spares_mastersInRegion _).bind
    intro anywhere hany
    split
    · next hne => exact spares_roundRobin hany hne
    · exact Handler.Guarded.pure trivial
  · apply spares_drainAndRemove
    intro choose hchoose
    cases hchoose

end Decommission

/-! ## The system -/

inductive NodeCall (δ : Type) where
  | registerNode (now : Time) (onRegister : Option (Observer δ)) (req : RegisterNodeRequest)
  | decommissionNode (now : Time) (name : String)

namespace NodeCall

def program : NodeCall δ → Handler (Plane δ) Bool
  | .registerNode now onRegister req =>
    (·.accepted) <$> ControlPlane.registerNode now onRegister req
  | .decommissionNode now name => (·.success) <$> ControlPlane.decommissionNode now name

def isDecommission : NodeCall δ → Bool
  | .registerNode .. => false
  | .decommissionNode .. => true

end NodeCall

structure LiveServer (δ : Type) where
  pool : Pool (Plane δ) (NodeCall δ) Bool
  removed : List String := []

def LiveServer.plane (s : LiveServer δ) : Plane δ := s.pool.shared

inductive Move (δ : Type) where
  | start (call : NodeCall δ)
  | advance (i : Nat)

def reported (pool : Pool (Plane δ) (NodeCall δ) Bool) (i : Nat) : List String :=
  match pool.threads[i]? with
  | some ⟨.decommissionNode _ name, .done true⟩ => [name]
  | _ => []

def LiveServer.removedAfter (s : LiveServer δ) (pool : Pool (Plane δ) (NodeCall δ) Bool) (i : Nat) :
    List String :=
  (reported pool i ++ s.removed).filter fun name => (pool.shared.registry.lookup name).isNone

def liveServer (world : δ) : Machine (LiveServer δ) (Move δ) where
  init := { pool := { shared := { world := world } } }
  step s
    | .start call => some { s with pool := s.pool.spawn call call.program }
    | .advance i =>
      (s.pool.advance i).map fun pool => { pool := pool, removed := s.removedAfter pool i }

/-- With all handlers back and a master left, no removed node owns anything. -/
def RemovedOwnNothing (s : LiveServer δ) : Prop :=
  s.pool.inFlight = [] → (∃ m, s.plane.registry.HasMaster m) →
    ∀ name ∈ s.removed, ¬ s.plane.ledger.Owns name

def Move.overlaps (s : LiveServer δ) : Move δ → Bool
  | .start call =>
    if call.isDecommission then !s.pool.inFlight.isEmpty
    else s.pool.inFlight.any NodeCall.isDecommission
  | .advance _ => false

/-! ## Runs in which decommissions are alone -/

theorem NodeCall.spares (call : NodeCall δ) (n : String) :
    Spares n (fun _ => True) call.program := by
  cases call with
  | registerNode now onRegister req =>
    exact (spares_registerNode now onRegister req).map fun _ _ => trivial
  | decommissionNode now name =>
    exact (spares_decommissionNode now name).map fun _ _ => trivial

variable {name : String}

theorem Drained.not_owns {r : Registry} {l l' : Ledger} (h : Drained r name l l') :
    ¬ l'.Owns name := by
  rintro ⟨k, e', he', hown'⟩
  exact h.owner_ne he' hown'

theorem decommission_alone {s₀ t : Plane δ} {now : Time} (hs₀ : s₀.WF)
    (hrun : (NodeCall.decommissionNode now name).program.run s₀ = (t, true)) :
    ¬ t.ledger.Owns name := by
  obtain ⟨s', res, hrun', hout⟩ := decommissionNode_outcome now name hs₀
  rw [NodeCall.program, Handler.run_map, hrun'] at hrun
  obtain ⟨rfl, hsuccess⟩ := Prod.mk.inj hrun
  cases hout with
  | refused err hno hs' => cases hsuccess
  | done node l hnode hok hdrain hs' =>
    rw [hs'.ledger]
    exact hdrain.not_owns

structure Serial (s : LiveServer δ) : Prop where
  wf : s.plane.WF
  removed : ∀ name ∈ s.removed, Absent name s.plane ∧ ¬ s.plane.ledger.Owns name
  spared : ∀ name, name = "" ∨ name ∈ s.removed → s.pool.Guarded (Absent name) (GivesNothing name)
  alone : ∀ {i : Nat} {t}, s.pool.threads[i]? = some t → t.request.isDecommission = true →
    t.program.isDone = false →
      (∀ {j : Nat} {t'}, s.pool.threads[j]? = some t' → j ≠ i → t'.program.isDone = true) ∧
        ∃ s₀ : Plane δ, s₀.WF ∧ t.program.run s.plane = t.request.program.run s₀

theorem Serial.init (world : δ) : Serial (liveServer world).init where
  wf := ⟨WF.empty, Ledger.WF.empty⟩
  removed := fun _ h => by cases h
  spared := fun _ _ _ h => by cases h
  alone := fun h => by simp [liveServer] at h

section Step

variable {world : δ} {s t : LiveServer δ}

variable {call : NodeCall δ}

theorem isDone_of_not_overlaps (hno : (Move.start call).overlaps s = false)
    {th : Thread (Plane δ) (NodeCall δ) Bool} (hth : th ∈ s.pool.threads)
    (h : th.request.isDecommission = true ∨ call.isDecommission = true) :
    th.program.isDone = true := by
  by_contra hdone
  have hmem := Pool.mem_inFlight hth (Bool.not_eq_true _ ▸ hdone)
  dsimp only [Move.overlaps] at hno
  split at hno
  · have hnil : s.pool.inFlight = [] := by simpa using hno
    rw [hnil] at hmem
    cases hmem
  · next hcall =>
      have := any_eq_false.mp hno _ hmem
      exact this (h.resolve_right hcall)

theorem Serial.start (hs : Serial s) (hno : (Move.start call).overlaps s = false) :
    Serial { s with pool := s.pool.spawn call call.program } where
  wf := hs.wf
  removed := hs.removed
  spared := fun name hname => (hs.spared name hname).spawn (call.spares name) call
  alone := by
    intro i th hi hdecommission hdone
    rcases Pool.spawn_getElem? hi with hold | ⟨rfl, rfl⟩
    · -- a decommission from before would be overlapped by the new request
      have := isDone_of_not_overlaps hno (mem_of_getElem? hold) (.inl hdecommission)
      rw [hdone] at this
      cases this
    · refine ⟨?_, s.plane, hs.wf, rfl⟩
      intro j th' hj hne
      rcases Pool.spawn_getElem? hj with hold | ⟨rfl, -⟩
      · exact isDone_of_not_overlaps hno (mem_of_getElem? hold) (.inr hdecommission)
      · exact absurd rfl hne

variable {pool : Pool (Plane δ) (NodeCall δ) Bool} {i : Nat} {name : String}

theorem mem_removedAfter
    (h : name ∈ s.removedAfter pool i) :
    pool.shared.registry.byName[name]? = none ∧ (name ∈ s.removed ∨
      ∃ now, pool.threads[i]? = some ⟨.decommissionNode now name, .done true⟩) := by
  obtain ⟨hmem, habsent⟩ := mem_filter.mp h
  refine ⟨Option.isNone_iff_eq_none.mp habsent, ?_⟩
  rcases mem_append.mp hmem with hnew | hold
  · right
    unfold reported at hnew
    split at hnew
    · next now name' hi =>
        rw [mem_singleton] at hnew
        exact ⟨now, hnew ▸ hi⟩
    · cases hnew
  · exact .inl hold

theorem Serial.reported {now : Time} (hs : Serial s) (hadv : s.pool.advance i = some pool)
    (hreport : pool.threads[i]? = some ⟨.decommissionNode now name, .done true⟩) :
    ¬ pool.shared.ledger.Owns name ∧ ∀ t ∈ pool.threads, t.program.isDone = true := by
  obtain ⟨request, upd, next, hi, rfl⟩ := Pool.advance_eq_some hadv
  rcases getElem?_set_cases hreport with ⟨-, heq⟩ | ⟨hne, -⟩
  · obtain ⟨hrequest, hnext⟩ := Thread.mk.inj heq
    subst hrequest
    obtain ⟨hothers, s₀, hs₀, hrun⟩ := hs.alone hi rfl rfl
    have hlast : (Handler.call upd next).run s.plane = (upd s.plane, true) := by
      rw [Handler.run]
      unfold LiveServer.plane
      rw [← hnext]
      rfl
    constructor
    · exact decommission_alone hs₀ (hrun.symm.trans hlast)
    · intro t ht
      obtain ⟨j, hj⟩ := mem_iff_getElem?.mp ht
      rcases getElem?_set_cases hj with ⟨-, rfl⟩ | ⟨hne, hold⟩
      · rw [← heq]
        rfl
      · exact hothers hold hne
  · exact absurd rfl hne

theorem Serial.advance (hs : Serial s) (hadv : s.pool.advance i = some pool) :
    Serial { pool := pool, removed := s.removedAfter pool i } := by
  have hwf : pool.shared.WF :=
    ((hs.spared "" (.inl rfl)).advance (Absent.empty_iff.mpr hs.wf) hadv).1.wf
  -- for a name removed before, the step gives it nothing and leaves the others sparing it
  have hold : ∀ {name}, name ∈ s.removed → pool.shared.registry.byName[name]? = none →
      ¬ pool.shared.ledger.Owns name ∧ pool.Guarded (Absent name) (GivesNothing name) := by
    intro name hname habsent
    obtain ⟨hbefore, howns⟩ := hs.removed name hname
    obtain ⟨hstep, hspared⟩ := (hs.spared name (.inr hname)).advance hbefore hadv
    exact ⟨fun h => howns (hstep.owns h), hspared ⟨hwf, habsent⟩⟩
  have hboth : ∀ {name}, name ∈ s.removedAfter pool i →
      ¬ pool.shared.ledger.Owns name ∧ pool.Guarded (Absent name) (GivesNothing name) := by
    intro name hname
    obtain ⟨habsent, hbefore | ⟨now, hreport⟩⟩ := mem_removedAfter hname
    · exact hold hbefore habsent
    · obtain ⟨howns, hdone⟩ := hs.reported hadv hreport
      exact ⟨howns, Pool.Guarded.of_isDone hdone⟩
  constructor
  · exact hwf
  · intro name hname
    exact ⟨⟨hwf, (mem_removedAfter hname).1⟩, (hboth hname).1⟩
  · rintro name (rfl | hname)
    · exact ((hs.spared "" (.inl rfl)).advance (Absent.empty_iff.mpr hs.wf) hadv).2
        (Absent.empty_iff.mpr hwf)
    · exact (hboth hname).2
  · intro j th hj hdecommission hdone
    obtain ⟨request, upd, next, hi, rfl⟩ := Pool.advance_eq_some hadv
    rcases getElem?_set_cases hj with ⟨rfl, rfl⟩ | ⟨hne, hj⟩
    · obtain ⟨hothers, s₀, hs₀, hrun⟩ := hs.alone hi hdecommission rfl
      refine ⟨?_, s₀, hs₀, hrun⟩
      intro j' th' hj' hne
      rcases getElem?_set_cases hj' with ⟨rfl, -⟩ | ⟨-, hold⟩
      · exact absurd rfl hne
      · exact hothers hold hne
    · -- a decommission in progress elsewhere would have the plane to itself
      have := (hs.alone hj hdecommission hdone).1 hi hne.symm
      cases this

end Step

/-- **Nothing is left to a removed name**. -/
theorem removed_owns_nothing {world : δ} {moves : List (Move δ)}
    (h : (liveServer world).Along (fun s move => move.overlaps s = false) (liveServer world).init
      moves) : (liveServer world).Throughout RemovedOwnNothing (liveServer world).init moves := by
  have hserial : (liveServer world).Throughout Serial (liveServer world).init moves := by
    refine Machine.throughout_of_along (J := fun _ => True) (fun _ _ => trivial) ?_ trivial
      (Serial.init world) h
    intro s move t _ hs hno hstep
    cases move with
    | start call =>
      cases hstep
      exact hs.start hno
    | advance i =>
      obtain ⟨pool, hadv, rfl⟩ := Option.map_eq_some_iff.mp hstep
      exact hs.advance hadv
  exact hserial.imp fun s hs _ _ name hname => (hs.removed name hname).2

/-! ## Two schedules -/

def registerMaster (now : Time) (name overlayIP : String) : Move Unit :=
  .start (.registerNode now none
    { nodeName := name, roles := ["master"], nodeCertPem := [1], overlayIp := overlayIP })

def decommission (now : Time) (name : String) : Move Unit := .start (.decommissionNode now name)

def calls (i k : Nat) : List (Move Unit) := replicate k (.advance i)

def oneAfterTheOther : List (Move Unit) :=
  [registerMaster 1 "m1" "10.0.0.1", registerMaster 2 "m2" "10.0.0.2"] ++ calls 0 3 ++ calls 1 5 ++
    calls 0 2 ++ [decommission 3 "m1"] ++ calls 2 7

theorem removed_owns_nothing_alone :
    ∃ s, (liveServer ()).exec (liveServer ()).init oneAfterTheOther = some s ∧ s.removed = ["m1"] ∧
      ¬ s.plane.ledger.Owns "m1" := by
  have hrun : ((liveServer ()).exec (liveServer ()).init oneAfterTheOther).map (fun s =>
      (s.removed, s.pool.inFlight.isEmpty, (s.plane.registry.lookup "m2").map (·.isMaster))) =
      some (["m1"], true, some true) := by decide
  obtain ⟨s, hs, heq⟩ := Option.map_eq_some_iff.mp hrun
  obtain ⟨hremoved, hflight, hm2⟩ : _ ∧ _ ∧ _ := by simpa only [Prod.mk.injEq] using heq
  have hthroughout :
      (liveServer ()).Throughout RemovedOwnNothing (liveServer ()).init oneAfterTheOther :=
    removed_owns_nothing (by decide)
  refine ⟨s, hs, hremoved, ?_⟩
  exact hthroughout.last hs (isEmpty_iff.mp hflight)
    ⟨"m2", Option.map_eq_some_iff.mp hm2⟩ "m1" (by rw [hremoved]; exact mem_singleton_self _)

def eachToTheOther : List (Move Unit) :=
  [registerMaster 1 "m1" "10.0.0.1"] ++ calls 0 5 ++ [registerMaster 2 "m2" "10.0.0.2"] ++
    calls 1 5 ++ [registerMaster 3 "m3" "10.0.0.3"] ++ calls 2 5 ++
      [decommission 4 "m1", decommission 5 "m2"] ++ calls 3 4 ++ calls 4 7 ++ calls 3 3

/-- Both are removed, and each owns the overlay of the other. -/
theorem removed_masters_own_each_other :
    ∃ s, (liveServer ()).exec (liveServer ()).init eachToTheOther = some s ∧
      s.pool.inFlight = [] ∧ s.plane.registry.HasMaster "m3" ∧ s.removed = ["m1", "m2"] ∧
      s.plane.ledger.snapshot.map (fun e => (e.overlayIP, e.owningMaster)) =
        [("10.0.0.1", "m2"), ("10.0.0.2", "m1"), ("10.0.0.3", "m3")] ∧
      ¬ RemovedOwnNothing s := by
  have hrun : ((liveServer ()).exec (liveServer ()).init eachToTheOther).map (fun s =>
      (s.removed, s.pool.inFlight.isEmpty, (s.plane.registry.lookup "m3").map (·.isMaster),
        s.plane.ledger.snapshot.map (fun e => (e.overlayIP, e.owningMaster)))) =
      some (["m1", "m2"], true, some true,
        [("10.0.0.1", "m2"), ("10.0.0.2", "m1"), ("10.0.0.3", "m3")]) := by decide
  obtain ⟨s, hs, heq⟩ := Option.map_eq_some_iff.mp hrun
  obtain ⟨hremoved, hflight, hm3, hsnapshot⟩ : _ ∧ _ ∧ _ ∧ _ := by
    simpa only [Prod.mk.injEq] using heq
  have hnil : s.pool.inFlight = [] := isEmpty_iff.mp hflight
  have hmaster : s.plane.registry.HasMaster "m3" := Option.map_eq_some_iff.mp hm3
  refine ⟨s, hs, hnil, hmaster, hremoved, hsnapshot, ?_⟩
  intro h
  have hmem : ("10.0.0.1", "m2") ∈
      s.plane.ledger.snapshot.map fun e => (e.overlayIP, e.owningMaster) := by
    rw [hsnapshot]
    exact mem_cons_self
  obtain ⟨e, he, hpair⟩ := mem_map.mp hmem
  obtain ⟨k, hk⟩ := Ledger.mem_snapshot.mp he
  exact h hnil ⟨"m3", hmaster⟩ "m2" (by rw [hremoved]; simp) ⟨k, e, hk, (Prod.mk.inj hpair).2⟩

/-- `c` takes `m1` for the only master, and gives it an entry when it is gone. -/
def seededLate : List (Move Unit) :=
  [registerMaster 1 "m1" "10.0.0.1"] ++ calls 0 5 ++ [.start (.registerNode 2 none
      { nodeName := "c", roles := ["egress"], nodeCertPem := [1], overlayIp := "10.0.0.9" })] ++
    calls 1 5 ++ [registerMaster 3 "m2" "10.0.0.2"] ++ calls 2 8 ++ [decommission 4 "m1"] ++
      calls 3 7 ++ calls 1 2

example : ((liveServer ()).exec (liveServer ()).init seededLate).map (fun s =>
    (s.removed, s.pool.inFlight.isEmpty, (s.plane.ledger.lookup "10.0.0.9").map (·.owningMaster))) =
    some (["m1"], true, some "m1") := by decide

/-! ## Any interleaving -/

theorem step_spared {n : String} {world : δ} {s t : LiveServer δ} {move : Move δ}
    (hs : Absent n s.plane) (hpool : s.pool.Guarded (Absent n) (GivesNothing n))
    (hstep : (liveServer world).step s move = some t) :
    GivesNothing n s.plane t.plane ∧
      (Absent n t.plane → t.pool.Guarded (Absent n) (GivesNothing n)) := by
  cases move with
  | start call =>
    cases hstep
    exact ⟨⟨hs.wf, id⟩, fun _ => hpool.spawn (call.spares n) call⟩
  | advance i =>
    obtain ⟨pool, hadv, rfl⟩ := Option.map_eq_some_iff.mp hstep
    exact hpool.advance hs hadv

/-- **However handlers interleave**, the stores are well formed and a name that is registered in no
state of the run owns no overlay in any. -/
theorem interleaved_stores (world : δ) (moves : List (Move δ)) :
    (liveServer world).Throughout (·.plane.WF) (liveServer world).init moves ∧
      ∀ n : String,
        (liveServer world).Throughout (·.plane.registry.byName[n]? = none)
            (liveServer world).init moves →
          (liveServer world).Throughout (¬ ·.plane.ledger.Owns n)
            (liveServer world).init moves := by
  have hinit : (liveServer world).init.plane.WF := (Serial.init world).wf
  have hpool : ∀ n, (liveServer world).init.pool.Guarded (Absent n) (GivesNothing n) :=
    fun _ _ h => by cases h
  constructor
  · -- no well-formed store has the empty name, so its guarantee is that of well-formedness
    refine Machine.throughout_of_invariant (J := fun s : LiveServer δ => Absent "" s.plane ∧
      s.pool.Guarded (Absent "") (GivesNothing "")) ?_ (fun h => h.1.wf)
      ⟨Absent.empty_iff.mpr hinit, hpool ""⟩ moves
    rintro s move t ⟨hs, hguard⟩ hstep
    obtain ⟨hgives, hrest⟩ := step_spared hs hguard hstep
    have ht : Absent "" t.plane := Absent.empty_iff.mpr hgives.wf
    exact ⟨ht, hrest ht⟩
  · intro n habsent
    refine (habsent.strengthen (K := fun s : LiveServer δ => Absent n s.plane ∧
      s.pool.Guarded (Absent n) (GivesNothing n) ∧ ¬ s.plane.ledger.Owns n) ?_
      ⟨⟨hinit, habsent.head⟩, hpool n, ?_⟩).imp fun _ h => h.2.2
    · rintro s move t ⟨hs, hguard, hno⟩ hstep hgone
      obtain ⟨hgives, hrest⟩ := step_spared hs hguard hstep
      have ht : Absent n t.plane := ⟨hgives.wf, hgone⟩
      exact ⟨ht, hrest ht, fun hown => hno (hgives.owns hown)⟩
    · rintro ⟨k, e, he, -⟩
      cases he

end AwgMesh.ControlPlane
