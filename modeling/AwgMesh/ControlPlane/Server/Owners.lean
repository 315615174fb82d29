import AwgMesh.ControlPlane.Server.Runs

/-! # Are the owners in the ledger registered masters? -/

namespace AwgMesh.ControlPlane

open Lib Registry

variable {δ : Type} {now : Time} {s s' t : Plane δ} {m : String}

/-! ## Owners and masters -/

def Ledger.Owns (l : Ledger) (m : String) : Prop :=
  ∃ (k : String) (e : OwnershipEntry), l.entries[k]? = some e ∧ e.owningMaster = m

def Registry.HasMaster (r : Registry) (m : String) : Prop :=
  ∃ node, r.byName[m]? = some node ∧ node.isMaster = true

/-- Every owner in the ledger is a registered master. -/
def OwnersRegistered (s : Plane δ) : Prop :=
  ∀ m, s.ledger.Owns m → s.registry.HasMaster m

theorem ownersRegistered_congr (hr : s.registry = t.registry) (hl : s.ledger = t.ledger) :
    OwnersRegistered s ↔ OwnersRegistered t := by
  unfold OwnersRegistered
  rw [hr, hl]

theorem Plane.Agrees.ownersRegistered (h : s.Agrees t) :
    OwnersRegistered s ↔ OwnersRegistered t := ownersRegistered_congr h.registry h.ledger

section Masters

variable {r : Registry} {node rec : RegisteredNode}

theorem hasMaster_store :
    (r.store rec).HasMaster m ↔ if rec.name = m then rec.isMaster = true else r.HasMaster m := by
  unfold HasMaster
  rw [store_byName_getElem?]
  split <;> simp

theorem hasMaster_without : (r.without node).HasMaster m ↔ m ≠ node.name ∧ r.HasMaster m := by
  unfold HasMaster
  rw [without_byName_getElem?]
  split
  · next h => simp [h]
  · next h => simp [Ne.symm h]

theorem hasMaster_modify {name : String} {old new : RegisteredNode}
    (hold : r.byName[name]? = some old) (hroles : new.roles = old.roles) :
    (r.modify name new).HasMaster m ↔ r.HasMaster m := by
  unfold HasMaster
  rw [modify_byName_getElem?]
  split
  · next h =>
      subst h
      simp [hold, RegisteredNode.isMaster, hroles]
  · exact Iff.rfl

end Masters

section Owners

variable {l l' : Ledger} {overlayIP owner reason : String}

theorem Ledger.Owns.of_assign (h : (l.assign now overlayIP owner reason).Owns m) :
    m = owner ∨ l.Owns m := by
  obtain ⟨k, e, he, rfl⟩ := h
  rw [Ledger.assign_getElem?] at he
  split at he
  · cases he; exact .inl Ledger.assigned_owningMaster
  · exact .inr ⟨k, e, he, rfl⟩

theorem Ledger.Owns.of_written {node : RegisteredNode}
    (h : (s.written now node reason).ledger.Owns m) :
    node.isMaster = true ∧ m = node.name ∨ s.ledger.Owns m := by
  obtain ⟨k, e, he, rfl⟩ := h
  rw [written_ledger_getElem?] at he
  split at he
  · next hk =>
      cases he
      exact .inl ⟨hk.1, Ledger.assigned_owningMaster⟩
  · exact .inr ⟨k, e, he, rfl⟩

theorem Seeded.owns (h : Seeded s t) (hm : s.ledger.Owns m) : t.ledger.Owns m := by
  obtain ⟨k, e, he, rfl⟩ := hm
  exact ⟨k, e, h.kept he, rfl⟩

theorem Seeded.of_owns (h : Seeded s t) (hm : t.ledger.Owns m) :
    s.ledger.Owns m ∨ s.IsSingle m := by
  obtain ⟨k, e, he, rfl⟩ := hm
  rcases h.fresh he with hold | ⟨hsingle, -⟩
  · exact .inl ⟨k, e, hold, rfl⟩
  · exact .inr hsingle

theorem Plane.IsSingle.hasMaster (h : s.IsSingle m) : s.registry.HasMaster m := by
  obtain ⟨⟨node, -, hnode, hm, -⟩, -⟩ := h
  exact ⟨node, hnode, hm⟩

theorem Seeded.ownersRegistered (h : Seeded s t) : OwnersRegistered t ↔ OwnersRegistered s := by
  unfold OwnersRegistered
  rw [h.registry]
  constructor
  · intro ht m hown
    exact ht m (h.owns hown)
  · intro hs m hown
    rcases h.of_owns hown with hold | hsingle
    · exact hs m hold
    · exact hsingle.hasMaster

theorem Drained.of_owns {r : Registry} {name : String} (h : Drained r name l l')
    (hm : l'.Owns m) : m ≠ name ∧ (r.HasMaster m ∨ l.Owns m) := by
  obtain ⟨k, e, he, rfl⟩ := hm
  rcases h.of_entry he with ⟨hne, hmaster⟩ | ⟨hold, hne⟩
  · exact ⟨hne, .inl hmaster⟩
  · exact ⟨hne, .inr ⟨k, e, hold, rfl⟩⟩

end Owners

/-! ## Which steps keep the owners registered -/

/-- A registration that is taken either goes through as a master, or the node owns nothing. -/
def RegistersOwners (s : Plane δ) (now : Time) (onRegister : Option (Observer δ))
    (req : RegisterNodeRequest) : Prop :=
  s.registry.Admits now req.node → if req.node.isMaster ∧ Net.isIPv4 req.overlayIp then
      ¬ SeedingStuck s req.nodeName ∧
        (observe onRegister (s.registry.recorded now req.node) s.world).2 = .ok ()
    else ¬ s.ledger.Owns req.nodeName

/-- The calls that leave no owner without registration. -/
def Call.KeepsOwners (s : Plane δ) : Call δ → Prop
  | .registerNode now onRegister req => RegistersOwners s now onRegister req
  | .selfRegister now node =>
    s.registry.Admits now node → node.isMaster = false → ¬ s.ledger.Owns node.name
  | _ => True

section Register

variable {onRegister : Option (Observer δ)} {req : RegisterNodeRequest} {node : RegisteredNode}
  {reason : String}

theorem OwnersRegistered.written_of_master (hi : OwnersRegistered s) (hm : node.isMaster = true) :
    OwnersRegistered (s.written now node reason) := by
  intro m hown
  show (s.registry.store _).HasMaster m
  rw [hasMaster_store, recorded_name]
  split
  · rw [recorded_isMaster]; exact hm
  · next hne =>
      exact hi m (hown.of_written.resolve_left fun h => hne h.2.symm)

theorem ownersRegistered_written_of_not_master (hi : OwnersRegistered s)
    (hm : node.isMaster = false) :
    OwnersRegistered (s.written now node reason) ↔ ¬ s.ledger.Owns node.name := by
  have hstore : ∀ {m}, (s.written now node reason).registry.HasMaster m ↔
      m ≠ node.name ∧ s.registry.HasMaster m := by
    intro m
    show (s.registry.store _).HasMaster m ↔ _
    rw [hasMaster_store, recorded_name, recorded_isMaster, hm]
    split
    · next h => simp [h]
    · next h => simp [Ne.symm h]
  unfold OwnersRegistered
  rw [written_ledger_of_not_master hm]
  constructor
  · intro h hown
    exact (hstore.mp (h _ hown)).1 rfl
  · intro h m hown
    refine hstore.mpr ⟨?_, hi m hown⟩
    rintro rfl
    exact h hown

theorem ownersRegistered_rolledBack {l : Ledger} {w : δ} {a : AuditLog AuditDetail}
    (hl : ∀ m, l.Owns m → m = node.name ∨ s.registry.HasMaster m) :
    OwnersRegistered (⟨s.registry.without node, l, a, w⟩ : Plane δ) ↔ ¬ l.Owns node.name := by
  constructor
  · intro h hown
    exact (hasMaster_without.mp (h _ hown)).1 rfl
  · intro h m hown
    have hne : m ≠ node.name := by rintro rfl; exact h hown
    exact hasMaster_without.mpr ⟨hne, (hl m hown).resolve_left hne⟩

theorem owns_of_seeded_written (hs : s.WF) (hi : OwnersRegistered s)
    (had : s.registry.Admits now node) (h : Seeded (s.written now node reason) t)
    (hown : t.ledger.Owns m) : m = node.name ∨ s.registry.HasMaster m := by
  rcases h.of_owns hown with hold | ⟨hself, -⟩
  · exact hold.of_written.imp And.right (hi m)
  · by_cases hne : m = node.name
    · exact .inl hne
    · obtain ⟨x, -, hx, hm, -⟩ := (selfOwned_written_of_ne hs had hne).mp hself
      exact .inr ⟨x, hx, hm⟩

theorem owns_seeded_written_self (hs : s.WF) (had : s.registry.Admits now node)
    (h : Seeded (s.written now node reason) t) :
    t.ledger.Owns node.name ↔ node.isMaster = true ∨ s.ledger.Owns node.name := by
  cases hm : node.isMaster with
  | true =>
    refine iff_of_true (h.owns ?_) (.inl rfl)
    exact ⟨_, _, written_ledger_self hm, Ledger.assigned_owningMaster⟩
  | false =>
    have hled : (s.written now node reason).ledger = s.ledger := written_ledger_of_not_master hm
    constructor
    · intro hown
      rcases h.of_owns hown with hold | hsingle
      · exact .inr (hled ▸ hold)
      · exact absurd rfl ((isSingle_written_of_not_master hs had hm).mp hsingle).1
    · rintro (hno | hown)
      · cases hno
      · exact h.owns (hled ▸ hown)

theorem registersOwners_of_master (hs : s.WF) (had : s.registry.Admits now req.node)
    (hm : req.node.isMaster = true) (hip : Net.isIPv4 req.overlayIp = true) :
    RegistersOwners s now onRegister req ↔ ¬ SeedBlocked s now req.node "register" ∧
        (observe onRegister (s.registry.recorded now req.node) s.world).2 = .ok () := by
  rw [seedBlocked_iff_of_master hs had hm hip]
  unfold RegistersOwners
  rw [if_pos ⟨hm, hip⟩]
  exact ⟨fun h => h had, fun h _ => h⟩

theorem registersOwners_of_not (had : s.registry.Admits now req.node)
    (h : req.node.isMaster = false ∨ Net.isIPv4 req.overlayIp = false) :
    RegistersOwners s now onRegister req ↔ ¬ s.ledger.Owns req.nodeName := by
  have hcond : ¬ (req.node.isMaster = true ∧ Net.isIPv4 req.overlayIp = true) := by
    rintro ⟨hm, hip⟩
    rcases h with h | h
    · rw [hm] at h; cases h
    · rw [hip] at h; cases h
  unfold RegistersOwners
  rw [if_neg hcond]
  exact ⟨fun h => h had, fun h _ => h⟩

theorem ownersRegistered_lateReject (hs : s.WF) (hi : OwnersRegistered s)
    (had : s.registry.Admits now req.node) (hip : req.OverlayValid)
    (hseed : Seeded (s.written now req.node "register") t)
    (hwhy : SeedBlocked s now req.node "register" ∨
      (observe onRegister (s.registry.recorded now req.node) s.world).2 ≠ .ok ())
    {w : δ} (hs' : s'.Agrees { t with registry := s.registry.without req.node, world := w }) :
    OwnersRegistered s' ↔ RegistersOwners s now onRegister req := by
  rw [hs'.ownersRegistered, ownersRegistered_rolledBack (s := s)
    fun m hown => owns_of_seeded_written hs hi had hseed hown,
    owns_seeded_written_self hs had hseed]
  cases hm : req.node.isMaster with
  | true =>
    rw [registersOwners_of_master hs had hm (hip hm)]
    refine iff_of_false (fun h => h (.inl rfl)) ?_
    rintro ⟨hclear, hobs⟩
    exact hwhy.elim hclear fun h => h hobs
  | false =>
    rw [registersOwners_of_not had (.inl hm)]
    exact not_congr ⟨fun h => h.resolve_left Bool.false_ne_true, .inr⟩

theorem ownersRegistered_registerNode {res : RegisterNodeResponse} (hs : s.WF)
    (hi : OwnersRegistered s) (hout : RegisterOutcome now onRegister req s s' res) :
    OwnersRegistered s' ↔ RegistersOwners s now onRegister req := by
  cases hout with
  | refused err hno hs' =>
    rw [hs'.ownersRegistered]
    exact iff_of_true hi fun had => absurd had hno
  | badOverlay err had hm hip hs' =>
    rw [hs'.ownersRegistered, ownersRegistered_rolledBack (s := s) fun m hown => .inr (hi m hown),
      registersOwners_of_not had (.inr hip)]
    exact Iff.rfl
  | seedFailed t err had hip hblocked hseed hs' =>
    exact ownersRegistered_lateReject hs hi had hip hseed.seeded (.inl hblocked) hs'
  | observerFailed t world err had hip hclear hseed hobs hs' =>
    refine ownersRegistered_lateReject hs hi had hip hseed.seeded (.inr ?_) hs'
    rw [hobs]
    intro h
    cases h
  | accepted t world had hip hclear hseed hobs hs' =>
    have hs't : OwnersRegistered s' ↔ OwnersRegistered t :=
      ownersRegistered_congr hs'.registry hs'.ledger
    rw [hs't, hseed.seeded.ownersRegistered]
    cases hm : req.node.isMaster with
    | true =>
      rw [registersOwners_of_master hs had hm (hip hm), hobs]
      exact iff_of_true (hi.written_of_master hm) ⟨hclear, rfl⟩
    | false =>
      rw [registersOwners_of_not had (.inl hm)]
      exact ownersRegistered_written_of_not_master hi hm

theorem ownersRegistered_selfRegister {res : Except SelfRegisterError Unit}
    (hi : OwnersRegistered s) (hout : SelfRegisterOutcome now node s s' res) :
    OwnersRegistered s' ↔
      (s.registry.Admits now node → node.isMaster = false → ¬ s.ledger.Owns node.name) := by
  cases hout with
  | refused err hno hs' =>
    rw [hs'.ownersRegistered]
    exact iff_of_true hi fun had => absurd had hno
  | plain had hm hs' =>
    rw [hs'.ownersRegistered, ownersRegistered_written_of_not_master hi hm]
    exact ⟨fun h _ _ => h, fun h => h had hm⟩
  | badOverlay err had hm hip hs' =>
    -- the record is stored without its ledger entry: one master more, no owner more
    rw [hs'.ownersRegistered]
    refine iff_of_true ?_ fun _ hno => by rw [hm] at hno; cases hno
    intro m hown
    show (s.registry.store _).HasMaster m
    rw [hasMaster_store, recorded_isMaster]
    split
    · exact hm
    · exact hi m hown
  | seeded t res had hm hip hseed hs' =>
    rw [hs'.ownersRegistered, hseed.seeded.ownersRegistered]
    exact iff_of_true (hi.written_of_master hm) fun _ hno => by rw [hm] at hno; cases hno

end Register

/-! ## The other calls keep them registered -/

section

variable (hi : OwnersRegistered s)

include hi

theorem OwnersRegistered.modify {name : String} {old new : RegisteredNode}
    (hold : s.registry.byName[name]? = some old) (hroles : new.roles = old.roles) :
    OwnersRegistered { s with registry := s.registry.modify name new } := by
  intro m hown
  exact (hasMaster_modify hold hroles).mpr (hi m hown)

theorem OwnersRegistered.heartbeat {onRegister : Option (Observer δ)} {req : HeartbeatRequest}
    {res : Except HandlerError HeartbeatResponse}
    (hout : HeartbeatOutcome now onRegister req s s' res) : OwnersRegistered s' := by
  cases hout with
  | unknown hno hs' => exact hs'.ownersRegistered.mpr hi
  | plain node hnode hid hs' => exact hs'.ownersRegistered.mpr (hi.modify hnode rfl)
  | seedFailed node t err hnode hid hseed hs' =>
    exact hs'.ownersRegistered.mpr (hseed.seeded.ownersRegistered.mpr (hi.modify hnode rfl))
  | observerFailed node t world err hnode hid hseed hobs hs' =>
    exact hs'.ownersRegistered.mpr (hseed.seeded.ownersRegistered.mpr (hi.modify hnode rfl))
  | accepted node t world hnode hid hseed hobs hs' =>
    exact hs'.ownersRegistered.mpr (hseed.seeded.ownersRegistered.mpr (hi.modify hnode rfl))

theorem OwnersRegistered.decommissionNode {name : String} {res : DecommissionResponse} (hs : s.WF)
    (hout : DecommissionOutcome name s s' res) :
    OwnersRegistered s' := by
  cases hout with
  | refused err hno hs' => exact hs'.ownersRegistered.mpr hi
  | done node l hnode hok hdrain hs' =>
    rw [hs'.ownersRegistered]
    intro m hown
    obtain ⟨hne, hm⟩ := hdrain.of_owns hown
    refine hasMaster_without.mpr ⟨?_, hm.elim id (hi m)⟩
    rw [(hs.registry.named hnode).1]
    exact hne

theorem OwnersRegistered.rollover (hout : RolloverOutcome s s') : OwnersRegistered s' := by
  cases hout with
  | unchanged hs' => rwa [hs']
  | pending name old certPEM overlapUntil hold hs' =>
    rw [hs']
    exact hi.modify hold rfl

/-! ## Runs -/

theorem ownersRegistered_after (hs : s.WF) (call : Call δ) :
    OwnersRegistered (call.after s) ↔ call.KeepsOwners s := by
  cases Call.after_outcome hs call with
  | registerNode hout => exact ownersRegistered_registerNode hs hi hout
  | heartbeat hout => exact iff_of_true (hi.heartbeat hout) trivial
  | selfRegister hout => exact ownersRegistered_selfRegister hi hout
  | decommissionNode hout => exact iff_of_true (hi.decommissionNode hs hout) trivial
  | allowCertRollover hout => exact iff_of_true (hi.rollover hout) trivial
  | clearCertRollover hout => exact iff_of_true (hi.rollover hout) trivial

end

/-- **Owners are registered masters throughout a run exactly when no step of it is a registration
that strands an owner.** -/
theorem ownersRegistered_throughout_iff (world : δ) (calls : List (Call δ)) :
    (server world).Throughout OwnersRegistered (server world).init calls ↔
      (server world).Along (fun s call => call.KeepsOwners s) (server world).init calls := by
  refine Machine.throughout_iff_along (J := Plane.WF) ?_ ?_ (Plane.WF.init world) ?_
    (exec_server_isSome world _ calls)
  · intro s call t hs hstep
    cases hstep
    exact hs.after call
  · intro s call t hs hi hstep
    cases hstep
    exact ownersRegistered_after hi hs call
  · rintro m ⟨k, e, he, -⟩
    simp [server] at he

/-- A master whose observer fails on its first registration. -/
theorem owner_stranded_by_failed_observer :
    ∃ s, (server ()).Reachable s ∧ ¬ OwnersRegistered s := by
  let call : Call Unit := .registerNode 1 (some fun _ w => (w, .error "route add failed"))
    { nodeName := "m", roles := ["master"], nodeCertPem := [1], overlayIp := "10.0.0.1" }
  refine ⟨call.after (server ()).init, ⟨[call], rfl⟩, ?_⟩
  intro h
  obtain ⟨node, hnode, -⟩ := h "m" ⟨"10.0.0.1", _, rfl, rfl⟩
  have hgone : (call.after (server ()).init).registry.byName["m"]? = none := by decide
  rw [hgone] at hnode
  cases hnode

/-! ## Overlays stay owned -/

/-- No entry is lost, and the version does not go back. -/
structure Ledger.Retained (l l' : Ledger) : Prop where
  version : l.version ≤ l'.version
  entries : ∀ {k : String} {e}, l.entries[k]? = some e → ∃ e', l'.entries[k]? = some e'

theorem Ledger.Retained.trans {l l' l'' : Ledger} (h : l.Retained l') (h' : l'.Retained l'') :
    l.Retained l'' where
  version := h.version.trans h'.version
  entries he := by
    obtain ⟨e', he'⟩ := h.entries he
    exact h'.entries he'

theorem keeps_retained (l : Ledger) : Keeps δ (fun _ => True) l.Retained where
  seeded hseed _ h := h.trans ⟨hseed.version_le, fun he => ⟨_, hseed.kept he⟩⟩
  without := id
  modify _ _ := id
  drained := by
    intro r name l₁ l₂ hdrain _ h
    refine h.trans ⟨by rw [hdrain.version]; exact Nat.le_add_right _ _, ?_⟩
    intro k e he
    by_cases hown : e.owningMaster = name
    · -- an overlay of the drained master goes to a survivor
      obtain ⟨e', he', -⟩ := hdrain.moved he hown
      exact ⟨e', he'⟩
    · refine ⟨e, (hdrain.others ?_).trans he⟩
      intro e' he'
      rw [he] at he'
      cases he'
      exact hown

theorem Call.retained_after (hs : s.WF) (call : Call δ) :
    s.ledger.Retained (call.after s).ledger := by
  refine ((Call.after_outcome hs call).keeps (keeps_retained s.ledger) trivial
    ⟨Nat.le_refl _, fun he => ⟨_, he⟩⟩ ?_).2
  intro now node reason _
  refine ⟨trivial, ?_, ?_⟩
  · unfold Plane.written
    split
    · exact Nat.le_succ _
    · exact Nat.le_refl _
  · intro k e he
    rw [written_ledger_getElem?]
    split
    · exact ⟨_, rfl⟩
    · exact ⟨e, he⟩

/-- **An overlay that has an owner has one from then on**, whatever calls follow, and the version
of the ledger does not go back. -/
theorem overlays_stay_owned (world : δ) (calls later : List (Call δ)) :
    (server world).Throughout
      (fun s => (server world).Throughout (fun t => t.WF ∧ s.ledger.Retained t.ledger) s later)
      (server world).init calls := by
  refine Machine.throughout_of_invariant (J := Plane.WF) ?_ ?_ (Plane.WF.init world) calls
  · intro s call t hs hstep
    cases hstep
    exact hs.after call
  · intro s hs
    refine Machine.throughout_of_invariant ?_ id ⟨hs, Nat.le_refl _, fun he => ⟨_, he⟩⟩ later
    rintro t call u ⟨ht, hkept⟩ hstep
    cases hstep
    exact ⟨ht.after call, hkept.trans (call.retained_after ht)⟩

end AwgMesh.ControlPlane
