import AwgMesh.ControlPlane.Server.Seeding

/-! # What a decommissioning does -/

namespace AwgMesh.ControlPlane

open Lib Handler List Ledger

variable {δ : Type} {now : Time} {s s' t : Plane δ}

def Registry.Survivor (r : Registry) (name m : String) : Prop :=
  m ≠ name ∧ ∃ node, r.byName[m]? = some node ∧ node.isMaster = true

def Registry.SurvivorIn (r : Registry) (region name m : String) : Prop :=
  m ≠ name ∧ ∃ node, r.byName[m]? = some node ∧ node.isMaster = true ∧ node.region = region

/-- A survivor, and one of the region of `node` if there is any. -/
def Registry.Successor (r : Registry) (name : String) (node : RegisteredNode) (m : String) : Prop :=
  r.Survivor name m ∧ (node.region ≠ "" → (∃ m', r.SurvivorIn node.region name m') →
    r.SurvivorIn node.region name m)

/-- The drain of `name` from `l` to `l'`. -/
structure Drained (r : Registry) (name : String) (l l' : Ledger) : Prop where
  wf : l'.WF
  version : l'.version = l.version + (l.ownedBy name).length
  others : ∀ {k : String}, (∀ e, l.entries[k]? = some e → e.owningMaster ≠ name) →
    l'.entries[k]? = l.entries[k]?
  moved : ∀ {k : String} {e}, l.entries[k]? = some e → e.owningMaster = name →
    ∃ e', l'.entries[k]? = some e' ∧ r.Survivor name e'.owningMaster

section

variable {r : Registry} {name k : String} {l l' : Ledger} {e : OwnershipEntry}

theorem Drained.of_entry (h : Drained r name l l') (he : l'.entries[k]? = some e) :
    r.Survivor name e.owningMaster ∨ l.entries[k]? = some e ∧ e.owningMaster ≠ name := by
  by_cases hown : ∃ e₀, l.entries[k]? = some e₀ ∧ e₀.owningMaster = name
  · obtain ⟨e₀, he₀, hname⟩ := hown
    obtain ⟨e', he', hsurvivor⟩ := h.moved he₀ hname
    rw [he] at he'
    cases he'
    exact .inl hsurvivor
  · rw [h.others fun e₀ he₀ hname => hown ⟨e₀, he₀, hname⟩] at he
    exact .inr ⟨he, fun hname => hown ⟨e, he, hname⟩⟩

theorem Drained.owner_ne (h : Drained r name l l') (he : l'.entries[k]? = some e) :
    e.owningMaster ≠ name :=
  (h.of_entry he).elim And.left And.right

end

/-- How a `DecommissionNode` call ends. -/
inductive DecommissionOutcome (name : String) (s s' : Plane δ) : DecommissionResponse → Prop where
  | refused (err : HandlerError)
      (hno : s.registry.byName[name]? = none ∨
        s.ledger.ownedBy name ≠ [] ∧ ∀ m, ¬ s.registry.Survivor name m)
      (hs' : s'.Agrees s) :
      DecommissionOutcome name s s' { success := false, error := some err }
  | done (node : RegisteredNode) (l : Ledger) (hnode : s.registry.byName[name]? = some node)
      (hok : s.ledger.ownedBy name = [] ∨ ∃ m, s.registry.Survivor name m)
      (hdrain : Drained s.registry name s.ledger l)
      (hs' : s'.Agrees { s with registry := s.registry.without node, ledger := l }) :
      DecommissionOutcome name s s'
        { success := true, reassignedOverlayCount := int32 (s.ledger.ownedBy name).length }

section Decommission

variable {name : String}

variable {P : String → Prop}

theorem run_drainLoop (now : Time) (reason : String) {choose : Nat → String}
    (hchoose : ∀ i, choose i ≠ "" ∧ choose i ≠ name ∧ P (choose i)) (es : List OwnershipEntry)
    (calls count : Nat) (hl : s.ledger.WF)
    (hes : ∀ e ∈ es, s.ledger.entries[e.overlayIP]? = some e ∧ e.owningMaster = name)
    (hnodup : (es.map (·.overlayIP)).Nodup) :
    ∃ l, (drainLoop now name reason (some choose) es calls count).run s =
        ({ s with ledger := l }, (count + es.length, none)) ∧
      l.WF ∧ l.version = s.ledger.version + es.length ∧
      (∀ k, k ∉ es.map (·.overlayIP) → l.entries[k]? = s.ledger.entries[k]?) ∧
      ∀ k, k ∈ es.map (·.overlayIP) → ∃ e, l.entries[k]? = some e ∧ P e.owningMaster := by
  induction es generalizing s calls count with
  | nil => exact ⟨s.ledger, rfl, hl, rfl, fun _ _ => rfl, fun _ h => by cases h⟩
  | cons e rest ih =>
    obtain ⟨hne, hself, hP⟩ := hchoose calls
    obtain ⟨he, hown⟩ := hes e mem_cons_self
    have hip : Net.isIPv4 e.overlayIP = true := hl.ipv4 he
    rw [map_cons, nodup_cons] at hnodup
    have hcall : (ledgerReassign now e.overlayIP name (choose calls) reason true).run s =
        ({ s with ledger := s.ledger.assign now e.overlayIP (choose calls) reason },
          .ok (e.version + 1)) := by
      unfold ledgerReassign
      rw [run_atomic, reassign_checked_eq_ok hne hip he hown]
    -- the write leaves the entries still to come as they are
    have hrest : ∀ x ∈ rest,
        (s.ledger.assign now e.overlayIP (choose calls) reason).entries[x.overlayIP]? =
          some x ∧ x.owningMaster = name := by
      intro x hx
      obtain ⟨hx', hxown⟩ := hes x (mem_cons_of_mem e hx)
      have hkey : e.overlayIP ≠ x.overlayIP := by
        intro h
        exact hnodup.1 (h ▸ mem_map_of_mem hx)
      rw [assign_getElem?, if_neg hkey]
      exact ⟨hx', hxown⟩
    obtain ⟨l, hrun, hwf, hver, hothers, hmoved⟩ :=
      ih (s := { s with ledger := s.ledger.assign now e.overlayIP (choose calls) reason })
        (calls + 1) (count + 1) (hl.assign hne hip) hrest hnodup.2
    refine ⟨l, ?_, hwf, ?_, ?_, ?_⟩
    · rw [drainLoop, if_neg hne, if_neg hself, run_bind, hcall]
      dsimp only
      rw [hrun, length_cons, Nat.add_assoc, Nat.add_comm 1]
    · rw [hver, assign_version, length_cons]
      omega
    · intro k hk
      rw [map_cons, mem_cons, not_or] at hk
      rw [hothers k hk.2]
      show (s.ledger.assign now e.overlayIP (choose calls) reason).entries[k]? = _
      rw [assign_getElem?, if_neg (Ne.symm hk.1)]
    · intro k hk
      by_cases hkrest : k ∈ rest.map (·.overlayIP)
      · exact hmoved k hkrest
      · have hkey : e.overlayIP = k := by
          rw [map_cons, mem_cons] at hk
          exact (hk.resolve_right hkrest).symm
        refine ⟨s.ledger.assigned now e.overlayIP (choose calls) reason, ?_, ?_⟩
        · rw [hothers k hkrest]
          show (s.ledger.assign now e.overlayIP (choose calls) reason).entries[k]? = _
          rw [assign_getElem?, if_pos hkey]
        · rw [assigned_owningMaster]
          exact hP

def MovedTo (P : String → Prop) (name : String) (l l' : Ledger) : Prop :=
  ∀ {k : String} {e}, l.entries[k]? = some e → e.owningMaster = name →
    ∃ e', l'.entries[k]? = some e' ∧ P e'.owningMaster

variable {chooser : Option (Nat → String)}

theorem run_drain (now : Time) (reason : String) (hs : s.WF)
    (hP : ∀ m, P m → s.registry.Survivor name m)
    (hchooser : (chooser = none ∧ s.ledger.ownedBy name = []) ∨
      ∃ choose, chooser = some choose ∧ ∀ i, choose i ≠ "" ∧ choose i ≠ name ∧ P (choose i)) :
    ∃ l, (drain now name reason chooser).run s =
        ({ s with ledger := l }, ((s.ledger.ownedBy name).length, none)) ∧
      Drained s.registry name s.ledger l ∧ MovedTo P name s.ledger l := by
  have howned : ∀ {e}, e ∈ s.ledger.ownedBy name ↔
      s.ledger.entries[e.overlayIP]? = some e ∧ e.owningMaster = name := by
    intro e
    rw [ownedBy, mem_filter, decide_eq_true_eq]
    exact and_congr_left' hs.ledger.mem_snapshot
  have hmem : ∀ {k : String} {e}, s.ledger.entries[k]? = some e → e.owningMaster = name →
      k ∈ (s.ledger.ownedBy name).map (·.overlayIP) := by
    intro k e he hown
    have hkey : e.overlayIP = k := hs.ledger.keyed he
    rw [← hkey]
    exact mem_map_of_mem (howned.mpr ⟨hkey ▸ he, hown⟩)
  unfold drain
  rw [run_bind, run_read]
  rcases hchooser with ⟨rfl, hnone⟩ | ⟨choose, rfl, hchoose⟩
  · -- without a chooser the loop would fail on its first entry; there is none
    have hnot : ∀ {k : String} {e}, s.ledger.entries[k]? = some e → e.owningMaster ≠ name := by
      intro k e he hown
      have := hmem he hown
      rw [hnone] at this
      cases this
    rw [hnone]
    exact ⟨s.ledger, rfl, ⟨hs.ledger, by rw [hnone]; rfl, fun _ => rfl,
      fun he hown => absurd hown (hnot he)⟩, fun he hown => absurd hown (hnot he)⟩
  · obtain ⟨l, hrun, hwf, hver, hothers, hmoved⟩ :=
      run_drainLoop now reason hchoose (s.ledger.ownedBy name) 0 0 hs.ledger
        (fun e he => howned.mp he) (hs.ledger.nodup_ownedBy name)
    rw [Nat.zero_add] at hrun
    have hto : MovedTo P name s.ledger l := fun he hown => hmoved _ (hmem he hown)
    refine ⟨l, hrun, ⟨hwf, hver, ?_, ?_⟩, hto⟩
    · intro k hk
      apply hothers k
      intro hkm
      obtain ⟨e, he, rfl⟩ := mem_map.mp hkm
      exact hk e (howned.mp he).1 (howned.mp he).2
    · intro k e he hown
      obtain ⟨e', he', hP'⟩ := hto he hown
      exact ⟨e', he', hP _ hP'⟩

variable {m : String}

theorem mem_filterOut {names : List String} : m ∈ filterOut names name ↔ m ∈ names ∧ m ≠ name := by
  unfold filterOut
  rw [mem_filter, decide_eq_true_eq]

theorem roundRobinChooser_mem {masters : List String} (h : masters ≠ []) (i : Nat) :
    roundRobinChooser masters i ∈ masters := by
  unfold roundRobinChooser
  have hlt : i % masters.length < masters.length :=
    Nat.mod_lt i (length_pos_iff.mpr h)
  rw [if_neg h, getD_eq_getElem?_getD, getElem?_eq_getElem hlt]
  exact getElem_mem hlt

theorem survivor_of_mem_filterOut (hs : s.WF) {region m : String}
    (h : m ∈ filterOut (s.registry.mastersInRegion region) name) :
    m ≠ "" ∧ m ≠ name ∧ s.registry.Survivor name m := by
  obtain ⟨hmem, hne⟩ := mem_filterOut.mp h
  obtain ⟨node, hnode, -, hm⟩ := hs.registry.mem_mastersInRegion.mp hmem
  exact ⟨(hs.registry.named hnode).2, hne, hne, node, hnode, hm⟩

variable {node : RegisteredNode}

theorem successor_of_mem_region (hs : s.WF)
    (h : m ∈ filterOut (s.registry.mastersInRegion node.region) name) :
    s.registry.Successor name node m := by
  refine ⟨(survivor_of_mem_filterOut hs h).2.2, fun hregion _ => ?_⟩
  obtain ⟨hmem, hne⟩ := mem_filterOut.mp h
  obtain ⟨node', hnode', hin, hm⟩ := hs.registry.mem_mastersInRegion.mp hmem
  exact ⟨hne, node', hnode', hm, hin.resolve_left hregion⟩

theorem successor_of_region_empty (hs : s.WF)
    (hregion : filterOut (s.registry.mastersInRegion node.region) name = [])
    (h : s.registry.Survivor name m) : s.registry.Successor name node m := by
  refine ⟨h, fun _ hin => ?_⟩
  obtain ⟨m', hne, node', hnode', hm, hregion'⟩ := hin
  have hmem : m' ∈ filterOut (s.registry.mastersInRegion node.region) name :=
    mem_filterOut.mpr
      ⟨hs.registry.mem_mastersInRegion.mpr ⟨node', hnode', .inr hregion', hm⟩, hne⟩
  rw [hregion] at hmem
  cases hmem

def decommissioned (name : String) (count : Nat) : AuditEvent AuditDetail :=
  { eventType := "decommission", nodeName := name, detail := some (.reassigned count) }

structure Decommissioned (name : String) (s s' : Plane δ) (res : DecommissionResponse) : Prop where
  outcome : DecommissionOutcome name s s' res
  moved : res.success = true → ∀ {node}, s.registry.byName[name]? = some node →
    MovedTo (s.registry.Successor name node) name s.ledger s'.ledger

/-- The node is registered, and someone is left to take what it owns. -/
def Plane.CanDecommission (s : Plane δ) (name : String) : Prop :=
  s.registry.byName[name]? ≠ none ∧ (s.ledger.ownedBy name = [] ∨ ∃ m, s.registry.Survivor name m)

inductive DecommissionRecord (name : String) (s : Plane δ) :
    Option (AuditEvent AuditDetail) → Prop where
  | refused (hno : ¬ s.CanDecommission name) : DecommissionRecord name s none
  | done (hok : s.CanDecommission name) :
      DecommissionRecord name s (some (decommissioned name (s.ledger.ownedBy name).length))

theorem decommissionNode_records (now : Time) (name : String) (hs : s.WF) :
    ∃ s' res, (decommissionNode now name).run s = (s', res) ∧ Decommissioned name s s' res ∧
      ∃ e, DecommissionRecord name s e ∧ s'.audit = s.audit.note now e := by
  -- a refusal moves nothing, and a drain moves all
  have hrefuse : ∀ err, (s.registry.byName[name]? = none ∨
      s.ledger.ownedBy name ≠ [] ∧ ∀ m, ¬ s.registry.Survivor name m) →
      ∃ s' res, (pure { success := false, error := some err } :
        Handler (Plane δ) DecommissionResponse).run s = (s', res) ∧ Decommissioned name s s' res ∧
          ∃ e, DecommissionRecord name s e ∧ s'.audit = s.audit.note now e := by
    intro err hno
    refine ⟨s, _, rfl, ⟨.refused err hno ⟨rfl, rfl, rfl⟩, fun h => by cases h⟩, none,
      .refused ?_, rfl⟩
    rintro ⟨hnode, hok⟩
    rcases hno with hno | ⟨howned, hno⟩
    · exact hnode hno
    · rcases hok with hok | ⟨m, hm⟩
      · exact howned hok
      · exact hno m hm
  have hdrain : ∀ {node chooser}, s.registry.byName[name]? = some node →
      (s.ledger.ownedBy name = [] ∨ ∃ m, s.registry.Survivor name m) →
      ((chooser = none ∧ s.ledger.ownedBy name = []) ∨ ∃ choose, chooser = some choose ∧
        ∀ i, choose i ≠ "" ∧ choose i ≠ name ∧ s.registry.Successor name node (choose i)) →
      ∃ s' res, (drainAndRemove now name chooser).run s = (s', res) ∧ Decommissioned name s s' res ∧
          ∃ e, DecommissionRecord name s e ∧ s'.audit = s.audit.note now e := by
    intro node chooser hnode hok hchooser
    obtain ⟨l, hrun, hmoved, hto⟩ := run_drain now "decommission" hs (fun m hm => hm.1) hchooser
    unfold drainAndRemove
    rw [run_bind, hrun]
    dsimp only
    rw [run_bind, run_registryCall_ok (s := { s with ledger := l })
      (Registry.remove_eq_without hs.registry hnode)]
    refine ⟨_, _, rfl, ⟨.done node l hnode hok hmoved ⟨rfl, rfl, rfl⟩, fun _ node' hnode' => ?_⟩, _,
      .done ⟨?_, hok⟩, rfl⟩
    · rw [hnode] at hnode'
      cases hnode'
      exact hto
    · rw [hnode]
      exact Option.some_ne_none node
  unfold decommissionNode
  by_cases hname : name = ""
  · rw [if_pos hname]
    apply hrefuse _ (.inl ?_)
    cases hnode : s.registry.byName[name]? with
    | none => rfl
    | some node => exact absurd hname (hs.registry.named hnode).2
  rw [if_neg hname, run_bind, run_registryLookup]
  cases hnode : s.registry.byName[name]? with
  | none => exact hrefuse _ (.inl hnode)
  | some target =>
    dsimp only
    rw [run_bind, run_read]
    dsimp only
    by_cases howned : s.ledger.ownedBy name = []
    · rw [if_neg (by rw [howned]; exact Nat.lt_irrefl 0)]
      exact hdrain hnode (.inl howned) (.inl ⟨rfl, howned⟩)
    rw [if_pos (length_pos_iff.mpr howned), run_bind, run_read]
    dsimp only
    -- masters of the node's own region first, then any
    by_cases hregion : filterOut (s.registry.mastersInRegion target.region) name = []
    · rw [if_neg (not_not.mpr hregion), run_bind, run_read]
      dsimp only
      by_cases hany : filterOut (s.registry.mastersInRegion "") name = []
      · rw [if_neg (not_not.mpr hany)]
        apply hrefuse _ (.inr ⟨howned, ?_⟩)
        rintro m ⟨hne, node, hm, hmaster⟩
        have : m ∈ filterOut (s.registry.mastersInRegion "") name :=
          mem_filterOut.mpr
            ⟨hs.registry.mem_mastersInRegion.mpr ⟨node, hm, .inl rfl, hmaster⟩, hne⟩
        rw [hany] at this
        cases this
      · rw [if_pos hany]
        have hchoose := fun i => survivor_of_mem_filterOut hs (roundRobinChooser_mem hany i)
        exact hdrain hnode (.inr ⟨_, (hchoose 0).2.2⟩) (.inr ⟨_, rfl, fun i =>
          ⟨(hchoose i).1, (hchoose i).2.1, successor_of_region_empty hs hregion (hchoose i).2.2⟩⟩)
    · rw [if_pos hregion]
      have hchoose := fun i => survivor_of_mem_filterOut hs (roundRobinChooser_mem hregion i)
      exact hdrain hnode (.inr ⟨_, (hchoose 0).2.2⟩) (.inr ⟨_, rfl, fun i =>
        ⟨(hchoose i).1, (hchoose i).2.1,
          successor_of_mem_region hs (roundRobinChooser_mem hregion i)⟩⟩)

theorem decommissionNode_outcome (now : Time) (name : String) (hs : s.WF) :
    ∃ s' res, (decommissionNode now name).run s = (s', res) ∧
      DecommissionOutcome name s s' res := by
  obtain ⟨s', res, hrun, hmoves, -⟩ := decommissionNode_records now name hs
  exact ⟨s', res, hrun, hmoves.outcome⟩

end Decommission

end AwgMesh.ControlPlane
