import AwgMesh.ControlPlane.Server.Basic

/-! # What seeding does to the ledger -/

namespace AwgMesh.ControlPlane

open Lib Handler Ledger

variable {δ : Type} {s s' s'' : Plane δ}

namespace Plane

structure WF (s : Plane δ) : Prop where
  registry : s.registry.WF
  ledger : s.ledger.WF

/-- `m` is a master that owns its own overlay. -/
def SelfOwned (s : Plane δ) (m : String) : Prop :=
  ∃ node e, s.registry.byName[m]? = some node ∧ node.isMaster = true ∧
    s.ledger.entries[node.overlayIP]? = some e ∧ e.owningMaster = m

def IsSingle (s : Plane δ) (m : String) : Prop :=
  s.SelfOwned m ∧ ∀ m', s.SelfOwned m' → m' = m

end Plane

/-! ## The search for the single master -/

def SelfEntry (r : Registry) (e : OwnershipEntry) : Prop :=
  e.owningMaster ≠ "" ∧ ∃ node, r.byName[e.owningMaster]? = some node ∧ node.isMaster = true ∧
      node.overlayIP = e.overlayIP

variable {e : OwnershipEntry} {rest : List OwnershipEntry} {owner : String}

theorem run_singleSelfRegisteredMasterLoop_skip (h : ¬ SelfEntry s.registry e) :
    (singleSelfRegisteredMasterLoop (e :: rest) owner).run s =
      (singleSelfRegisteredMasterLoop rest owner).run s := by
  rw [singleSelfRegisteredMasterLoop]
  by_cases hown : e.owningMaster = ""
  · rw [if_pos hown]
  · rw [if_neg hown, run_bind]
    simp only [registryLookup, run_read, Registry.lookup]
    cases hnode : s.registry.byName[e.owningMaster]? with
    | none => rfl
    | some node =>
      dsimp only
      rw [if_pos]
      by_contra hcount
      simp only [Bool.or_eq_true, Bool.not_eq_true', decide_eq_true_eq, not_or,
        Bool.not_eq_false, not_not] at hcount
      exact h ⟨hown, node, hnode, hcount.1, hcount.2⟩

theorem run_singleSelfRegisteredMasterLoop_count (h : SelfEntry s.registry e) :
    (singleSelfRegisteredMasterLoop (e :: rest) owner).run s =
      if owner ≠ "" ∧ owner ≠ e.owningMaster then (s, none)
      else (singleSelfRegisteredMasterLoop rest e.owningMaster).run s := by
  obtain ⟨hown, node, hnode, hm, hov⟩ := h
  rw [singleSelfRegisteredMasterLoop, if_neg hown, run_bind]
  simp only [registryLookup, run_read, Registry.lookup, hnode, hm, hov]
  by_cases hstop : owner ≠ "" ∧ owner ≠ e.owningMaster
  · rw [if_pos hstop]
    simp [hstop.1, hstop.2]
  · rw [if_neg hstop, if_neg (by simp), if_neg (by simpa using hstop)]

theorem run_singleSelfRegisteredMasterLoop (es : List OwnershipEntry) (owner : String) :
    ∃ res, (singleSelfRegisteredMasterLoop es owner).run s = (s, res) ∧ ∀ m, res = some m ↔
        (owner = m ∨ ∃ e ∈ es, SelfEntry s.registry e ∧ e.owningMaster = m) ∧ m ≠ "" ∧
          (owner ≠ "" → owner = m) ∧ ∀ e ∈ es, SelfEntry s.registry e → e.owningMaster = m := by
  induction es generalizing owner with
  | nil =>
    refine ⟨if owner = "" then none else some owner, rfl, ?_⟩
    intro m
    by_cases howner : owner = ""
    · rw [if_pos howner]
      constructor
      · intro h; cases h
      · rintro ⟨heq | ⟨e, he, -⟩, hne, -⟩
        · exact absurd (heq.symm.trans howner) hne
        · cases he
    · rw [if_neg howner]
      constructor
      · intro h
        cases h
        exact ⟨.inl rfl, howner, fun _ => rfl, by simp⟩
      · rintro ⟨-, -, heq, -⟩; rw [heq howner]
  | cons e rest ih =>
    by_cases hself : SelfEntry s.registry e
    · rw [run_singleSelfRegisteredMasterLoop_count hself]
      by_cases hstop : owner ≠ "" ∧ owner ≠ e.owningMaster
      · -- a second owner: no `m` can be both
        rw [if_pos hstop]
        refine ⟨none, rfl, ?_⟩
        intro m
        constructor
        · intro h; cases h
        · rintro ⟨-, -, howner, hall⟩
          have h₁ : owner = m := howner hstop.1
          have h₂ : e.owningMaster = m := hall e List.mem_cons_self hself
          exact absurd (h₁.trans h₂.symm) hstop.2
      · rw [if_neg hstop]
        obtain ⟨res, hres, hspec⟩ := ih e.owningMaster
        refine ⟨res, hres, ?_⟩
        intro m
        have howner : owner ≠ "" → owner = e.owningMaster := by
          intro hne
          by_contra hne'
          exact hstop ⟨hne, hne'⟩
        rw [hspec m]
        constructor
        · rintro ⟨-, hne, heq, hall⟩
          have hem : e.owningMaster = m := heq hself.1
          refine ⟨.inr ⟨e, List.mem_cons_self, hself, hem⟩, hne,
            fun h => (howner h).trans hem, ?_⟩
          intro e' he' hself'
          rcases List.mem_cons.mp he' with rfl | he'
          · exact hem
          · exact hall e' he' hself'
        · rintro ⟨-, hne, -, hall⟩
          have hem : e.owningMaster = m := hall e List.mem_cons_self hself
          exact ⟨.inl hem, hne, fun _ => hem, fun e' he' => hall e' (List.mem_cons_of_mem e he')⟩
    · rw [run_singleSelfRegisteredMasterLoop_skip hself]
      obtain ⟨res, hres, hspec⟩ := ih owner
      refine ⟨res, hres, ?_⟩
      intro m
      rw [hspec m]
      simp only [List.mem_cons, exists_eq_or_imp, forall_eq_or_imp, hself, false_and, false_or,
        false_implies, true_and]

theorem Plane.WF.selfOwned_iff (hs : s.WF) {m : String} :
    s.SelfOwned m ↔ ∃ e ∈ s.ledger.snapshot, SelfEntry s.registry e ∧ e.owningMaster = m := by
  constructor
  · rintro ⟨node, e, hnode, hm, he, rfl⟩
    have hkey : e.overlayIP = node.overlayIP := hs.ledger.keyed he
    refine ⟨e, ?_, ⟨hs.ledger.owned he, node, hnode, hm, hkey.symm⟩, rfl⟩
    rw [hs.ledger.mem_snapshot, hkey]
    exact he
  · rintro ⟨e, he, ⟨-, node, hnode, hm, hov⟩, rfl⟩
    refine ⟨node, e, hnode, hm, ?_, rfl⟩
    rw [hov]
    exact hs.ledger.mem_snapshot.mp he

theorem run_singleSelfRegisteredMaster (hs : s.WF) :
    ∃ res, (singleSelfRegisteredMaster : Handler (Plane δ) _).run s = (s, res) ∧
      ∀ m, res = some m ↔ s.IsSingle m := by
  obtain ⟨res, hres, hspec⟩ := run_singleSelfRegisteredMasterLoop (s := s) s.ledger.snapshot ""
  refine ⟨res, ?_, ?_⟩
  · unfold singleSelfRegisteredMaster
    rw [run_bind]
    exact hres
  · intro m
    have hall : (∀ e ∈ s.ledger.snapshot, SelfEntry s.registry e → e.owningMaster = m) ↔
        ∀ m', s.SelfOwned m' → m' = m := by
      simp only [hs.selfOwned_iff]
      constructor
      · rintro h m' ⟨e, he, hself, rfl⟩; exact h e he hself
      · intro h e he hself; exact h _ ⟨e, he, hself, rfl⟩
    rw [hspec m, Plane.IsSingle, hall, hs.selfOwned_iff]
    constructor
    · rintro ⟨rfl | hex, hne, -, huniq⟩
      · exact absurd rfl hne
      · exact ⟨hex, huniq⟩
    · rintro ⟨hex, huniq⟩
      refine ⟨.inr hex, ?_, fun h => absurd rfl h, huniq⟩
      obtain ⟨e, -, hself, rfl⟩ := hex
      exact hself.1

/-! ## The frame of seeding -/

structure Seeded (s s' : Plane δ) : Prop where
  frame : s' = { s with ledger := s'.ledger }
  wf : s'.ledger.WF
  version_le : s.ledger.version ≤ s'.ledger.version
  unchanged : s'.ledger.version = s.ledger.version → s'.ledger = s.ledger
  kept : ∀ {k : String} {e}, s.ledger.entries[k]? = some e → s'.ledger.entries[k]? = some e
  fresh : ∀ {k : String} {e}, s'.ledger.entries[k]? = some e → s.ledger.entries[k]? = some e ∨
      (s.IsSingle e.owningMaster ∧ ∃ (n : String) (node : RegisteredNode),
        s.registry.byName[n]? = some node ∧ node.isMaster = false ∧ node.overlayIP = k)

namespace Seeded

theorem refl (hs : s.WF) : Seeded s s where
  frame := rfl
  wf := hs.ledger
  version_le := Nat.le_refl _
  unchanged _ := rfl
  kept h := h
  fresh h := .inl h

theorem registry (h : Seeded s s') : s'.registry = s.registry := by rw [h.frame]

theorem world (h : Seeded s s') : s'.world = s.world := by rw [h.frame]

theorem audit (h : Seeded s s') : s'.audit = s.audit := by rw [h.frame]

theorem planeWF (hs : s.WF) (h : Seeded s s') : s'.WF :=
  ⟨by rw [h.registry]; exact hs.registry, h.wf⟩

variable {m : String}

theorem selfOwned_iff (hs : s.WF) (h : Seeded s s') : s'.SelfOwned m ↔ s.SelfOwned m := by
  unfold Plane.SelfOwned
  rw [h.registry]
  constructor
  · rintro ⟨node, e, hnode, hm, he, howner⟩
    refine ⟨node, e, hnode, hm, ?_, howner⟩
    rcases h.fresh he with hold | ⟨-, n, other, hother, hnot, hov⟩
    · exact hold
    · have hn : n = m := hs.registry.overlay_inj hother hnode hov
      subst hn
      rw [hnode] at hother
      cases hother
      rw [hm] at hnot
      cases hnot
  · rintro ⟨node, e, hnode, hm, he, howner⟩
    exact ⟨node, e, hnode, hm, h.kept he, howner⟩

theorem isSingle_iff (hs : s.WF) (h : Seeded s s') : s'.IsSingle m ↔ s.IsSingle m := by
  unfold Plane.IsSingle
  simp only [h.selfOwned_iff hs]

theorem trans (hs : s.WF) (h : Seeded s s') (h' : Seeded s' s'') : Seeded s s'' where
  frame := by rw [h'.frame, h.frame]
  wf := h'.wf
  version_le := Nat.le_trans h.version_le h'.version_le
  unchanged hv := by
    have h₁ := h.version_le
    have h₂ := h'.version_le
    rw [h'.unchanged (by omega), h.unchanged (by omega)]
  kept hk := h'.kept (h.kept hk)
  fresh hk := by
    rcases h'.fresh hk with hold | ⟨hsingle, n, node, hnode, hnot, hov⟩
    · exact h.fresh hold
    · rw [h.registry] at hnode
      exact .inr ⟨(h.isSingle_iff hs).mp hsingle, n, node, hnode, hnot, hov⟩

theorem assign {node : RegisteredNode} {owner reason : String} (hs : s.WF)
    (hsingle : s.IsSingle owner) (hnode : s.registry.byName[node.name]? = some node)
    (hm : node.isMaster = false) (hentry : s.ledger.entries[node.overlayIP]? = none)
    (hown : owner ≠ "") (hip : Net.isIPv4 node.overlayIP = true) :
    Seeded s { s with ledger := s.ledger.assign now node.overlayIP owner reason } where
  frame := rfl
  wf := hs.ledger.assign hown hip
  version_le := Nat.le_succ _
  unchanged hver := by
    change s.ledger.version + 1 = s.ledger.version at hver
    omega
  kept := by
    intro k e he
    have hk : node.overlayIP ≠ k := by
      rintro rfl
      rw [hentry] at he
      cases he
    show (s.ledger.assign now node.overlayIP owner reason).entries[k]? = some e
    rw [assign_getElem?, if_neg hk]
    exact he
  fresh := by
    intro k e he
    change (s.ledger.assign now node.overlayIP owner reason).entries[k]? = some e at he
    rw [assign_getElem?] at he
    split at he
    · next hk =>
        cases he
        right
        rw [assigned_owningMaster]
        exact ⟨hsingle, node.name, node, hnode, hm, hk⟩
    · exact .inl he

end Seeded

/-! ## The seeding functions -/

/-- Seeding would have to enter the overlay of `node`, which the ledger refuses. -/
def Blocked (s : Plane δ) (node : RegisteredNode) : Prop :=
  node.isMaster = false ∧ Net.isIPv4 node.overlayIP = false ∧ ∃ m, s.IsSingle m

structure SeedSpec (s : Plane δ) (nodes : List RegisteredNode)
    (out : Plane δ × Except HandlerError Unit) : Prop where
  seeded : Seeded s out.1
  only : ∀ {k : String} {e}, out.1.ledger.entries[k]? = some e →
    s.ledger.entries[k]? = some e ∨ ∃ node ∈ nodes, node.overlayIP = k
  failed : (∃ err, out.2 = .error err) → ∃ node ∈ nodes, Blocked s node
  covered : out.2 = .ok () → ∀ node ∈ nodes, node.isMaster = false → (∃ m, s.IsSingle m) →
    ∃ e, out.1.ledger.entries[node.overlayIP]? = some e

theorem SeedSpec.ok_iff {nodes : List RegisteredNode} {out : Plane δ × Except HandlerError Unit}
    (h : SeedSpec s nodes out) : out.2 = .ok () ↔ ∀ node ∈ nodes, ¬ Blocked s node := by
  constructor
  · rintro hok node hmem ⟨hnot, hip, hsingle⟩
    obtain ⟨e, he⟩ := h.covered hok node hmem hnot hsingle
    have := h.seeded.wf.ipv4 he
    rw [hip] at this
    cases this
  · intro hall
    cases hout : out.2 with
    | ok u => rfl
    | error err =>
      obtain ⟨node, hmem, hblocked⟩ := h.failed ⟨err, hout⟩
      exact absurd hblocked (hall node hmem)

variable {node : RegisteredNode}

theorem seedRegisteredNodeOwnership_spec (now : Time) (hs : s.WF)
    (hnode : s.registry.byName[node.name]? = some node) :
    SeedSpec s [node] ((seedRegisteredNodeOwnership now node).run s) := by
  -- nothing to do: the node is covered already, or no one is there to own its overlay
  have idle : (node.isMaster = false → (∃ m, s.IsSingle m) →
      ∃ e, s.ledger.entries[node.overlayIP]? = some e) → SeedSpec s [node] (s, .ok ()) := by
    intro hcov
    refine ⟨Seeded.refl hs, .inl, ?_, ?_⟩
    · rintro ⟨err, h⟩; cases h
    · intro _ n hn
      rw [List.mem_singleton.mp hn]
      exact hcov
  unfold seedRegisteredNodeOwnership
  by_cases hm : node.isMaster = true
  · rw [if_pos hm]
    exact idle fun h => by rw [hm] at h; cases h
  rw [if_neg hm, run_bind]
  have hm : node.isMaster = false := by simpa using hm
  obtain ⟨res, hres, hspec⟩ := run_singleSelfRegisteredMaster hs
  rw [hres]
  cases res with
  | none =>
    refine idle fun _ ⟨m, hsingle⟩ => ?_
    cases (hspec m).mpr hsingle
  | some owner =>
    have hsingle : s.IsSingle owner := (hspec owner).mp rfl
    dsimp only
    rw [run_bind]
    simp only [ledgerLookup, run_read, lookup]
    cases hentry : s.ledger.entries[node.overlayIP]? with
    | some e => exact idle fun _ _ => ⟨e, hentry⟩
    | none =>
      have hown : owner ≠ "" := by
        obtain ⟨master, -, hmaster, -⟩ := hsingle.1
        exact (hs.registry.named hmaster).2
      dsimp only
      rw [run_bind]
      simp only [ledgerReassign, run_atomic]
      cases hip : Net.isIPv4 node.overlayIP with
      | false =>
        rw [reassign_eq_error hown hip]
        refine ⟨Seeded.refl hs, .inl, ?_, ?_⟩
        · intro _
          exact ⟨node, List.mem_singleton.mpr rfl, hm, hip, owner, hsingle⟩
        · intro h; cases h
      | true =>
        obtain ⟨v, hv⟩ := reassign_eq_ok (l := s.ledger) hown hip
        rw [hv]
        have hseeded : Seeded s
            { s with ledger := s.ledger.assign now node.overlayIP owner "register" } :=
          Seeded.assign hs hsingle hnode hm hentry hown hip
        refine ⟨hseeded, ?_, ?_, ?_⟩
        · intro k e he
          change (s.ledger.assign now node.overlayIP owner "register").entries[k]? = some e
            at he
          rw [assign_getElem?] at he
          split at he
          · next hk => exact .inr ⟨node, List.mem_singleton.mpr rfl, hk⟩
          · exact .inl he
        · rintro ⟨err, h⟩; cases h
        · intro _ n hn _ _
          rw [List.mem_singleton.mp hn]
          refine ⟨s.ledger.assigned now node.overlayIP owner "register", ?_⟩
          show (s.ledger.assign now node.overlayIP owner "register").entries[_]? = _
          rw [assign_getElem?, if_pos rfl]

theorem seedAll_spec (now : Time) (hs : s.WF) (nodes : List RegisteredNode)
    (hnodes : ∀ node ∈ nodes, s.registry.byName[node.name]? = some node) :
    SeedSpec s nodes ((seedAll now nodes).run s) := by
  induction nodes generalizing s with
  | nil =>
    refine ⟨Seeded.refl hs, .inl, ?_, ?_⟩
    · rintro ⟨err, h⟩; cases h
    · intro _ node hmem; cases hmem
  | cons node rest ih =>
    rw [seedAll, run_bind]
    have hone := seedRegisteredNodeOwnership_spec now hs (hnodes node List.mem_cons_self)
    generalize hout : (seedRegisteredNodeOwnership now node).run s = out at hone
    obtain ⟨s₁, res⟩ := out
    -- the node just seeded is one of the list, so `only` speaks of the list as well
    have hone_only : ∀ {k : String} {e}, s₁.ledger.entries[k]? = some e →
        s.ledger.entries[k]? = some e ∨ ∃ x ∈ node :: rest, x.overlayIP = k := by
      intro k e he
      apply (hone.only he).imp_right
      rintro ⟨x, hx, hk⟩
      exact ⟨x, List.mem_cons.mpr (.inl (List.mem_singleton.mp hx)), hk⟩
    cases res with
    | error err =>
      obtain ⟨x, hx, hblocked⟩ := hone.failed ⟨err, rfl⟩
      rw [List.mem_singleton.mp hx] at hblocked
      refine ⟨hone.seeded, hone_only, fun _ => ⟨node, List.mem_cons_self, hblocked⟩, ?_⟩
      intro h; cases h
    | ok u =>
      have hs₁ : s₁.WF := hone.seeded.planeWF hs
      have hrest := ih hs₁ (fun x hx => by
        rw [hone.seeded.registry]
        exact hnodes x (List.mem_cons_of_mem node hx))
      refine ⟨hone.seeded.trans hs hrest.seeded, ?_, ?_, ?_⟩
      · intro k e he
        rcases hrest.only he with hold | ⟨x, hx, hk⟩
        · exact hone_only hold
        · exact .inr ⟨x, List.mem_cons_of_mem node hx, hk⟩
      · intro herr
        obtain ⟨x, hx, hnot, hip, m, hsingle⟩ := hrest.failed herr
        exact ⟨x, List.mem_cons_of_mem node hx, hnot, hip, m,
          (hone.seeded.isSingle_iff hs).mp hsingle⟩
      · -- seeding changes nothing about who is the single master, so both halves apply
        intro hok x hx hnot hsingle
        rcases List.mem_cons.mp hx with rfl | hx
        · obtain ⟨e, he⟩ := hone.covered rfl x (List.mem_singleton.mpr rfl) hnot hsingle
          exact ⟨e, hrest.seeded.kept he⟩
        · obtain ⟨m, hm⟩ := hsingle
          exact hrest.covered hok x hx hnot ⟨m, (hone.seeded.isSingle_iff hs).mpr hm⟩

def seedTargets (s : Plane δ) (node : RegisteredNode) : List RegisteredNode :=
  if node.isMaster then s.registry.list else [node]

theorem seedRegistrationOwnership_spec (now : Time) (hs : s.WF)
    (hnode : s.registry.byName[node.name]? = some node) :
    SeedSpec s (seedTargets s node) ((seedRegistrationOwnership now node).run s) := by
  unfold seedRegistrationOwnership seedTargets
  by_cases hm : node.isMaster = true
  · rw [if_pos hm, if_pos hm, seedExistingRegisteredNodeOwnership, run_bind]
    exact seedAll_spec now hs _ fun x hx => hs.registry.mem_list.mp hx
  · rw [if_neg hm, if_neg hm]
    exact seedRegisteredNodeOwnership_spec now hs hnode

/-! ## The atomic calls of the handlers, run -/

variable {now : Time} {t : Plane δ}

structure Plane.Agrees (s t : Plane δ) : Prop where
  registry : s.registry = t.registry
  ledger : s.ledger = t.ledger
  world : s.world = t.world

def AuditLog.note {D : Type} (a : AuditLog D) (now : Time) : Option (AuditEvent D) → AuditLog D
  | none => a
  | some e => a.append now e

section Calls

variable {f : Registry → Except RegistryError Registry}

theorem run_registryCall_ok {r : Registry} (h : f s.registry = .ok r) :
    (registryCall f).run s = ({ s with registry := r }, .ok ()) := by
  unfold registryCall
  rw [run_atomic, h]

theorem run_registryCall_error {err : RegistryError}
    (h : f s.registry = .error err) : (registryCall f).run s = (s, .error err) := by
  unfold registryCall
  rw [run_atomic, h]

@[simp] theorem run_auditAppend (e : AuditEvent AuditDetail) :
    (auditAppend now e).run s = ({ s with audit := s.audit.append now e }, ()) := rfl

@[simp] theorem run_registryLookup (name : String) :
    (registryLookup name).run s = (s, s.registry.byName[name]?) := rfl

theorem run_ledgerReassign_ok (now : Time) {overlayIP owner : String} (reason : String)
    (hown : owner ≠ "") (hip : Net.isIPv4 overlayIP = true) :
    ∃ v, (ledgerReassign now overlayIP "" owner reason false).run s =
      ({ s with ledger := s.ledger.assign now overlayIP owner reason }, .ok v) := by
  obtain ⟨v, hv⟩ := reassign_eq_ok (l := s.ledger) hown hip
  refine ⟨v, ?_⟩
  unfold ledgerReassign
  rw [run_atomic, hv]

theorem run_ledgerReassign_error {overlayIP owner reason : String} (hown : owner ≠ "")
    (hip : Net.isIPv4 overlayIP = false) :
    (ledgerReassign now overlayIP "" owner reason false).run s =
      (s, .error (.overlayInvalid overlayIP)) := by
  unfold ledgerReassign
  rw [run_atomic, reassign_eq_error hown hip]

def observe (onRegister : Option (Observer δ)) (node : RegisteredNode) (world : δ) :
    δ × Except String Unit :=
  match onRegister with
  | none => (world, .ok ())
  | some observer => observer node world

variable {onRegister : Option (Observer δ)} {node : RegisteredNode} {world : δ}

theorem run_notifyRegistrationObserver {res : Except String Unit}
    (h : observe onRegister node s.world = (world, res)) :
    (notifyRegistrationObserver onRegister node).run s =
      ({ s with world := world }, res.mapError .observer) := by
  cases onRegister with
  | none => cases h; rfl
  | some observer =>
    change observer node s.world = _ at h
    cases res <;> simp only [notifyRegistrationObserver, run_atomic, h] <;> rfl

end Calls

end AwgMesh.ControlPlane
