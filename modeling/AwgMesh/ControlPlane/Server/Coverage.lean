import AwgMesh.ControlPlane.Server.Owners

/-! # Does every registered overlay have an owner? -/

namespace AwgMesh.ControlPlane

open Lib Registry List

variable {δ : Type} {world : δ} {s s' t : Plane δ}

structure Registration (δ : Type) where
  now : Time
  onRegister : Option (Observer δ)
  req : RegisterNodeRequest

def registrations (world : δ) : Machine (Plane δ) (Registration δ) where
  init := { world := world }
  step s l :=
    let out := (registerNode l.now l.onRegister l.req).run s
    if out.2.accepted then some out.1 else none

/-- No name and no overlay comes twice. -/
structure Distinct (ls : List (Registration δ)) : Prop where
  names : (ls.map (·.req.nodeName)).Nodup
  overlays : (ls.map (·.req.overlayIp)).Nodup

def Registry.AtMostOneMaster (r : Registry) : Prop :=
  ∀ m m', r.HasMaster m → r.HasMaster m' → m = m'

/-! ## One accepted registration -/

/-- Written and seeded. -/
abbrev Registration.Seeds (l : Registration δ) (s t : Plane δ) : Prop :=
  SeedSpec (s.written l.now l.req.node "register")
    (seedTargets (s.written l.now l.req.node "register") (s.registry.recorded l.now l.req.node))
    (t, .ok ())

theorem registrations_step {l : Registration δ} (hs : s.WF)
    (h : (registrations world).step s l = some s') :
    ∃ t, s.registry.Admits l.now l.req.node ∧
      l.req.OverlayValid ∧
      l.Seeds s t ∧ s'.registry = t.registry ∧ s'.ledger = t.ledger := by
  obtain ⟨s₁, res, hrun, hout⟩ := registerNode_outcome l.now l.onRegister l.req hs
  simp only [registrations, hrun] at h
  cases hout with
  | accepted t w had hip hclear hseed hobs hs' =>
    rw [if_pos rfl] at h
    cases h
    exact ⟨t, had, hip, hseed, hs'.registry, hs'.ledger⟩
  | _ => simp [RegisterNodeResponse.reject] at h

structure Covered (world : δ) (ls : List (Registration δ)) (s : Plane δ) : Prop where
  wf : s.WF
  masters : ∀ {m}, s.registry.HasMaster m ↔ s.SelfOwned m
  entries : ∀ {k : String} {e}, s.ledger.entries[k]? = some e →
    ∃ (n : String) (node : RegisteredNode), s.registry.byName[n]? = some node ∧ node.overlayIP = k
  nodes : ∀ {n : String} {node : RegisteredNode}, s.registry.byName[n]? = some node →
    ∃ pre l post t, ls = pre ++ l :: post ∧ l.req.nodeName = n ∧ l.req.overlayIp = node.overlayIP ∧
      (registrations world).exec (registrations world).init pre = some t ∧
      (∀ m, t.registry.HasMaster m → s.registry.HasMaster m) ∧ ((∃ m, s.registry.HasMaster m) →
        ((∃ e, s.ledger.entries[node.overlayIP]? = some e) ↔
          node.isMaster = true ∨ t.registry.AtMostOneMaster))

theorem Covered.init : Covered world [] (registrations world).init where
  wf := Plane.WF.init world
  masters := by simp [HasMaster, Plane.SelfOwned, registrations]
  entries h := by simp [registrations] at h
  nodes h := by simp [registrations] at h

section Step

variable {ls : List (Registration δ)} {l : Registration δ}

theorem hasMaster_registered {m : String}
    (hreg : t.registry = (s.written l.now l.req.node "register").registry) :
    t.registry.HasMaster m ↔
      if l.req.nodeName = m then l.req.node.isMaster = true else s.registry.HasMaster m := by
  rw [hreg]
  show (s.registry.store _).HasMaster m ↔ _
  rw [hasMaster_store, recorded_name, recorded_isMaster]
  exact Iff.rfl

theorem byName_registered
    (hreg : t.registry = (s.written l.now l.req.node "register").registry) (n : String) :
    t.registry.byName[n]? = if l.req.nodeName = n then some (s.registry.recorded l.now l.req.node)
      else s.registry.byName[n]? := by
  rw [hreg]
  show (s.registry.store _).byName[n]? = _
  rw [store_byName_getElem?, recorded_name]
  rfl

variable (hc : Covered world ls s) (hd : Distinct (ls ++ [l]))

include hc hd

theorem Covered.name_new : s.registry.byName[l.req.nodeName]? = none := by
  cases hx : s.registry.byName[l.req.nodeName]? with
  | none => rfl
  | some x =>
    obtain ⟨pre, l', post, -, rfl, hname, -⟩ := hc.nodes hx
    have hnames := hd.names
    simp [← hname] at hnames
    grind

theorem Covered.overlay_ne {n : String} {node : RegisteredNode}
    (hnode : s.registry.byName[n]? = some node) :
    l.req.overlayIp ≠ node.overlayIP := by
  intro hov
  obtain ⟨pre, l', post, -, rfl, -, hov', -⟩ := hc.nodes hnode
  have hovs := hd.overlays
  simp [hov, ← hov'] at hovs
  grind

theorem Covered.overlay_new : s.ledger.entries[l.req.overlayIp]? = none := by
  cases he : s.ledger.entries[l.req.overlayIp]? with
  | none => rfl
  | some e =>
    obtain ⟨n, node, hnode, hov⟩ := hc.entries he
    exact absurd hov.symm (hc.overlay_ne hd hnode)

theorem Covered.new_overlay (had : s.registry.Admits l.now l.req.node)
    (hm : l.req.node.isMaster = false) (hseed : l.Seeds s t) (hmaster : ∃ m, t.registry.HasMaster m)
    :
    (∃ e, t.ledger.entries[l.req.overlayIp]? = some e) ↔ s.registry.AtMostOneMaster := by
  have hnew : ∀ {m}, s.registry.HasMaster m → m ≠ l.req.node.name := by
    rintro _ ⟨x, hx, -⟩ rfl
    rw [show s.registry.byName[l.req.node.name]? = none from hc.name_new hd] at hx
    cases hx
  have hsingle : ∀ {m}, (s.written l.now l.req.node "register").IsSingle m ↔
      s.registry.HasMaster m ∧ ∀ m', s.registry.HasMaster m' → m' = m := by
    intro m
    rw [isSingle_written_of_not_master hc.wf had hm]
    constructor
    · rintro ⟨-, hown, huniq⟩
      refine ⟨hc.masters.mpr hown, ?_⟩
      intro m' hm'
      exact huniq m' (hnew hm') (hc.masters.mp hm')
    · rintro ⟨hown, huniq⟩
      refine ⟨hnew hown, hc.masters.mp hown, ?_⟩
      intro m' _ hm'
      exact huniq m' (hc.masters.mpr hm')
  constructor
  · rintro ⟨e, he⟩ m₁ m₂ h₁ h₂
    rcases hseed.seeded.fresh he with hold | ⟨hs, -⟩
    · rw [written_ledger_of_not_master hm, hc.overlay_new hd] at hold
      cases hold
    · have huniq := (hsingle.mp hs).2
      rw [huniq m₁ h₁, huniq m₂ h₂]
  · intro hone
    obtain ⟨m, hmt⟩ := hmaster
    have hms : s.registry.HasMaster m := by
      rw [hasMaster_registered hseed.seeded.registry, hm] at hmt
      split at hmt
      · cases hmt
      · exact hmt
    have hmem : s.registry.recorded l.now l.req.node ∈
        seedTargets (s.written l.now l.req.node "register")
          (s.registry.recorded l.now l.req.node) := by
      unfold seedTargets
      rw [recorded_isMaster, hm, if_neg Bool.false_ne_true]
      exact mem_singleton.mpr rfl
    obtain ⟨e, he⟩ := hseed.covered rfl _ hmem (by rw [recorded_isMaster]; exact hm)
      ⟨m, hsingle.mpr ⟨hms, fun m' hm' => hone m' m hm' hms⟩⟩
    rw [recorded_overlayIP] at he
    exact ⟨e, he⟩

theorem Covered.old_overlay (had : s.registry.Admits l.now l.req.node) (hseed : l.Seeds s t)
    (hmaster : ∃ m, s.registry.HasMaster m) {k : String} (hk : l.req.overlayIp ≠ k) :
    (∃ e, t.ledger.entries[k]? = some e) ↔ ∃ e, s.ledger.entries[k]? = some e := by
  have hwritten : (s.written l.now l.req.node "register").ledger.entries[k]? =
      s.ledger.entries[k]? := by
    rw [written_ledger_getElem?]
    exact if_neg fun h => hk h.2
  constructor
  · rintro ⟨e, he⟩
    cases hm : l.req.node.isMaster with
    | true =>
      -- a second master: no one is single any more, so nothing is seeded
      obtain ⟨m, hms⟩ := hmaster
      rcases hseed.seeded.fresh he with hold | ⟨hsingle, -⟩
      · exact ⟨e, hwritten ▸ hold⟩
      · have hself : m = l.req.node.name :=
          ((isSingle_written_of_master hc.wf had hm).mp hsingle).2 m (hc.masters.mp hms)
        obtain ⟨x, hx, -⟩ := hms
        rw [hself, show s.registry.byName[l.req.node.name]? = none from hc.name_new hd] at hx
        cases hx
    | false =>
      rcases hseed.only he with hold | ⟨x, hx, hxk⟩
      · exact ⟨e, hwritten ▸ hold⟩
      · unfold seedTargets at hx
        rw [recorded_isMaster, hm, if_neg Bool.false_ne_true] at hx
        rw [mem_singleton.mp hx, recorded_overlayIP] at hxk
        exact absurd hxk hk
  · rintro ⟨e, he⟩
    exact ⟨e, hseed.seeded.kept (hwritten ▸ he)⟩

omit hd in
theorem Covered.first_master (had : s.registry.Admits l.now l.req.node) (hip : l.req.OverlayValid)
    (hseed : l.Seeds s t) (hno : ¬ ∃ m, s.registry.HasMaster m) (hm : l.req.node.isMaster = true)
    {n : String} {node : RegisteredNode} (hne : l.req.nodeName ≠ n)
    (hnode : s.registry.byName[n]? = some node) :
    ∃ e, t.ledger.entries[node.overlayIP]? = some e := by
  have hnot : node.isMaster = false := by
    cases h : node.isMaster with
    | false => rfl
    | true => exact absurd ⟨n, node, hnode, h⟩ hno
  have hw := hc.wf.written "register" had hip
  have hmem : node ∈ seedTargets (s.written l.now l.req.node "register")
      (s.registry.recorded l.now l.req.node) := by
    unfold seedTargets
    rw [recorded_isMaster, if_pos hm, hw.registry.mem_list, (hc.wf.registry.named hnode).1]
    show (s.registry.store _).byName[n]? = _
    rw [store_byName_getElem?, recorded_name]
    exact (if_neg hne).trans hnode
  refine hseed.covered rfl node hmem hnot ⟨l.req.node.name, ?_⟩
  refine (isSingle_written_of_master hc.wf had hm).mpr ⟨rfl, ?_⟩
  intro m hown
  exact absurd ⟨m, hc.masters.mpr hown⟩ hno

theorem Covered.entries_step (hseed : Seeded (s.written l.now l.req.node "register") t) {k : String}
    {e : OwnershipEntry} (he : t.ledger.entries[k]? = some e) :
    ∃ (n : String) (node : RegisteredNode), t.registry.byName[n]? = some node ∧
      node.overlayIP = k := by
  rcases hseed.fresh he with hold | ⟨-, n, node, hnode, -, hov⟩
  · rw [written_ledger_getElem?] at hold
    split at hold
    · next hk =>
        refine ⟨l.req.nodeName, s.registry.recorded l.now l.req.node, ?_, ?_⟩
        · rw [byName_registered hseed.registry, if_pos rfl]
        · rw [recorded_overlayIP]; exact hk.2
    · obtain ⟨n, node, hnode, hov⟩ := hc.entries hold
      refine ⟨n, node, ?_, hov⟩
      rw [byName_registered hseed.registry, if_neg]
      · exact hnode
      · rintro rfl
        rw [hc.name_new hd] at hnode
        cases hnode
  · refine ⟨n, node, ?_, hov⟩
    rw [hseed.registry]
    exact hnode

theorem Covered.step (hrun : (registrations world).exec (registrations world).init ls = some s)
    (h : (registrations world).step s l = some s') : Covered world (ls ++ [l]) s' := by
  obtain ⟨t, had, hip, hseed, hreg, hled⟩ := registrations_step hc.wf h
  have hw : (s.written l.now l.req.node "register").WF := hc.wf.written _ had hip
  have ht : t.WF := hseed.seeded.planeWF hw
  have hwritten : s'.registry = (s.written l.now l.req.node "register").registry :=
    hreg.trans hseed.seeded.registry
  have hmono : ∀ m, s.registry.HasMaster m → s'.registry.HasMaster m := by
    intro m hm
    rw [hasMaster_registered hwritten]
    split
    · next hname =>
        obtain ⟨x, hx, -⟩ := hm
        rw [← hname, hc.name_new hd] at hx
        cases hx
    · exact hm
  refine ⟨⟨hreg ▸ ht.registry, hled ▸ ht.ledger⟩, ?_, ?_, ?_⟩
  · intro m
    unfold Plane.SelfOwned
    rw [hreg, hled]
    have hmasters : t.registry.HasMaster m ↔ t.SelfOwned m := by
      have hseeded : Seeded _ t := hseed.seeded
      rw [hasMaster_registered hseeded.registry, hseeded.selfOwned_iff (hc.wf.written _ had hip)]
      split
      · next hm => rw [← hm]; exact selfOwned_written_self.symm
      · next hm => rw [selfOwned_written_of_ne hc.wf had (Ne.symm hm)]; exact hc.masters
    exact hmasters
  · intro k e he
    rw [hled] at he
    rw [hreg]
    exact hc.entries_step hd hseed.seeded he
  · intro n node hnode
    rw [byName_registered hwritten] at hnode
    split at hnode
    · next hn =>
        cases hnode
        have hov : (s.registry.recorded l.now l.req.node).overlayIP = l.req.overlayIp :=
          recorded_overlayIP
        refine ⟨ls, l, [], s, rfl, hn, hov.symm, hrun, hmono, ?_⟩
        intro hmaster
        rw [hreg] at hmaster
        rw [hled, recorded_isMaster, hov]
        cases hm : l.req.node.isMaster with
        | true =>
          exact iff_of_true ⟨_, hseed.seeded.kept (written_ledger_self hm)⟩ (.inl rfl)
        | false =>
          rw [or_iff_right Bool.false_ne_true]
          exact hc.new_overlay hd had hm hseed hmaster
    · next hn =>
        -- an old node keeps its history; its overlay may have been seeded by the first master
        obtain ⟨pre, l', post, u, rfl, hname, hov, hpre, hkeep, hiff⟩ := hc.nodes hnode
        refine ⟨pre, l', post ++ [l], u, by simp, hname, hov, hpre,
          fun m hm => hmono m (hkeep m hm), ?_⟩
        intro hmaster
        rw [hled]
        by_cases hold : ∃ m, s.registry.HasMaster m
        · rw [hc.old_overlay hd had hseed hold (hc.overlay_ne hd hnode)]
          exact hiff hold
        · obtain ⟨m, hm⟩ := hmaster
          rw [hasMaster_registered hwritten] at hm
          have hm : l.req.node.isMaster = true := by
            split at hm
            · exact hm
            · exact absurd ⟨m, hm⟩ hold
          refine iff_of_true (hc.first_master had hip hseed hold hm hn hnode) (.inr ?_)
          intro m₁ _ h₁ _
          exact absurd ⟨m₁, hkeep m₁ h₁⟩ hold

end Step

/-! ## Runs -/

theorem Distinct.of_append {ls ls' : List (Registration δ)} (h : Distinct (ls ++ ls')) :
    Distinct ls := by
  have hnames := h.names
  have hovs := h.overlays
  rw [map_append] at hnames hovs
  exact ⟨(nodup_append.mp hnames).1, (nodup_append.mp hovs).1⟩

theorem Covered.of_exec {ls : List (Registration δ)}
    (hrun : (registrations world).exec (registrations world).init ls = some s)
    (hd : Distinct ls) : Covered world ls s := by
  refine Machine.exec_invariant (I := fun ls s => Distinct ls → Covered world ls s)
    (fun _ => Covered.init) ?_ hrun hd
  intro ls s l t hrun hc hstep hd
  exact (hc hd.of_append).step hd hrun hstep

/-- **Which overlays have an owner** once a master is registered. -/
theorem overlay_owned_iff {ls : List (Registration δ)}
    (hrun : (registrations world).exec (registrations world).init ls = some s)
    (hd : Distinct ls) (hmaster : ∃ m, s.registry.HasMaster m) {n : String}
    {node : RegisteredNode} (hnode : s.registry.byName[n]? = some node) :
    ∃ pre l post t, ls = pre ++ l :: post ∧ l.req.nodeName = n ∧
      (registrations world).exec (registrations world).init pre = some t ∧
      ((∃ e, s.ledger.entries[node.overlayIP]? = some e) ↔
        node.isMaster = true ∨ t.registry.AtMostOneMaster) := by
  obtain ⟨pre, l, post, t, hls, hname, -, hpre, -, hiff⟩ := (Covered.of_exec hrun hd).nodes hnode
  exact ⟨pre, l, post, t, hls, hname, hpre, hiff hmaster⟩

def plainRegistration (now : Time) (name role overlayIP : String) : Registration Unit :=
  { now := now
    onRegister := none
    req := { nodeName := name, roles := [role], nodeCertPem := [1], overlayIp := overlayIP } }

/-- The theorem at a client that registers after one master. -/
theorem overlay_owned_after_one_master :
    ∃ s node, (registrations ()).exec (registrations ()).init
        [plainRegistration 1 "m" "master" "10.0.0.1", plainRegistration 2 "c" "client" "10.0.0.2"] =
          some s ∧ s.registry.byName["c"]? = some node ∧ ∃ pre l post t,
        [plainRegistration 1 "m" "master" "10.0.0.1", plainRegistration 2 "c" "client" "10.0.0.2"] =
          pre ++ l :: post ∧ l.req.nodeName = "c" ∧
        (registrations ()).exec (registrations ()).init pre = some t ∧
        ((∃ e, s.ledger.entries[node.overlayIP]? = some e) ↔
          node.isMaster = true ∨ t.registry.AtMostOneMaster) :=
  ⟨_, _, rfl, rfl, overlay_owned_iff rfl ⟨by decide, by decide⟩ ⟨"m", _, rfl, rfl⟩ rfl⟩

theorem overlay_unowned_after_two_masters :
    ∃ (ls : List (Registration Unit)) (s : Plane Unit), Distinct ls ∧
      (∀ l ∈ ls, Net.isDottedQuad l.req.overlayIp = true) ∧
      (registrations ()).exec (registrations ()).init ls = some s ∧ (∃ m, s.registry.HasMaster m) ∧
      ∃ (n : String) (node : RegisteredNode), s.registry.byName[n]? = some node ∧
        s.ledger.entries[node.overlayIP]? = none := by
  refine ⟨[plainRegistration 1 "m" "master" "10.0.0.1",
    plainRegistration 2 "n" "master" "10.0.0.2", plainRegistration 3 "c" "client" "10.0.0.3"], _,
    ⟨by decide, by decide⟩, by decide, rfl, ⟨"m", _, rfl, rfl⟩, "c", _, rfl, ?_⟩
  rfl

/-! ## The order of registrations -/

variable {ls : List (Registration δ)} {l : Registration δ} {master : String}

def Ledger.ownerOf (l : Ledger) (overlayIP : String) : Option String :=
  (l.lookup overlayIP).map (·.owningMaster)

structure OneMaster (master : String) (ls : List (Registration δ)) : Prop where
  distinct : Distinct ls
  valid : ∀ l ∈ ls, validate l.req.node = .ok ()
  ipv4 : ∀ l ∈ ls, Net.isIPv4 l.req.overlayIp = true
  only : ∀ l ∈ ls, l.req.node.isMaster = true → l.req.nodeName = master
  observer : ∀ l ∈ ls, ∀ node w, (observe l.onRegister node w).2 = .ok ()

theorem OneMaster.of_append {ls' : List (Registration δ)} (h : OneMaster master (ls ++ ls')) :
    OneMaster master ls where
  distinct := h.distinct.of_append
  valid l hl := h.valid l (mem_append_left ls' hl)
  ipv4 l hl := h.ipv4 l (mem_append_left ls' hl)
  only l hl := h.only l (mem_append_left ls' hl)
  observer l hl := h.observer l (mem_append_left ls' hl)

structure Gathered (world : δ) (master : String) (ls : List (Registration δ)) (s : Plane δ) :
    Prop where
  covered : Covered world ls s
  present : ∀ l ∈ ls, ∃ node, s.registry.byName[l.req.nodeName]? = some node ∧
    node.overlayIP = l.req.overlayIp ∧ node.isMaster = l.req.node.isMaster
  masters : ∀ {m}, s.registry.HasMaster m → m = master
  owners : ∀ {k : String} {e}, s.ledger.entries[k]? = some e → e.owningMaster = master

theorem Gathered.init : Gathered world master [] (registrations world).init where
  covered := Covered.init
  present := by simp
  masters := by simp [HasMaster, registrations]
  owners h := by simp [registrations] at h

section Step

theorem Gathered.ipv4 (hg : Gathered world master ls s) (hone : OneMaster master ls) {n : String}
    {node : RegisteredNode} (hnode : s.registry.byName[n]? = some node) :
    Net.isIPv4 node.overlayIP = true := by
  obtain ⟨pre, l, post, -, rfl, -, hov, -⟩ := hg.covered.nodes hnode
  rw [← hov]
  exact hone.ipv4 l (by simp)

variable (hg : Gathered world master ls s) (hone : OneMaster master (ls ++ [l]))

include hg hone

theorem Gathered.admits : s.registry.Admits l.now l.req.node := by
  constructor
  · exact hone.valid l (by simp)
  · intro existing hexisting
    obtain ⟨x, hx, hov⟩ := hg.covered.wf.registry.backed hexisting
    exact absurd hov.symm (hg.covered.overlay_ne hone.distinct hx)
  · intro prev hprev
    have hnew : s.registry.byName[l.req.node.name]? = none := hg.covered.name_new hone.distinct
    rw [hnew] at hprev
    cases hprev

theorem Gathered.not_seedBlocked : ¬ SeedBlocked s l.now l.req.node "register" := by
  have had := hg.admits hone
  have hip : Net.isIPv4 l.req.node.overlayIP = true := hone.ipv4 l (by simp)
  cases hm : l.req.node.isMaster with
  | true =>
    rw [seedBlocked_iff_of_master hg.covered.wf had hm hip]
    rintro ⟨-, n, x, -, hx, -, hxip⟩
    rw [hg.ipv4 hone.of_append hx] at hxip
    cases hxip
  | false =>
    rw [seedBlocked_iff_of_not_master hg.covered.wf had hm, hip]
    simp

theorem Gathered.enabled : ∃ s', (registrations world).step s l = some s' := by
  obtain ⟨s', res, hrun, hout⟩ :=
    registerNode_outcome l.now l.onRegister l.req hg.covered.wf
  have hip : Net.isIPv4 l.req.overlayIp = true := hone.ipv4 l (by simp)
  simp only [registrations, hrun]
  cases hout with
  | refused err hno hs' => exact absurd (hg.admits hone) hno
  | badOverlay err had hm hbad hs' => rw [hip] at hbad; cases hbad
  | seedFailed t err had hip hblocked hseed hs' =>
    exact absurd hblocked (hg.not_seedBlocked hone)
  | observerFailed t w err had hip hclear hseed hobs hs' =>
    have := hone.observer l (by simp) (s.registry.recorded l.now l.req.node) s.world
    rw [hobs] at this
    cases this
  | accepted t w had hip hclear hseed hobs hs' => exact ⟨s', rfl⟩

theorem Gathered.step (hrun : (registrations world).exec (registrations world).init ls = some s)
    (hstep : (registrations world).step s l = some s') : Gathered world master (ls ++ [l]) s' := by
  obtain ⟨t, had, hip, hseed, hreg, hled⟩ := registrations_step hg.covered.wf hstep
  have hwritten : s'.registry = (s.written l.now l.req.node "register").registry :=
    hreg.trans hseed.seeded.registry
  have hmasters : ∀ {m}, s'.registry.HasMaster m → m = master := by
    intro m hm
    rw [hasMaster_registered hwritten] at hm
    split at hm
    · next hname => rw [← hname]; exact hone.only l (by simp) hm
    · exact hg.masters hm
  refine ⟨hg.covered.step hone.distinct hrun hstep, ?_, hmasters, ?_⟩
  · intro l' hl'
    rcases mem_append.mp hl' with hold | hnew
    · obtain ⟨node, hnode, hrest⟩ := hg.present l' hold
      refine ⟨node, ?_, hrest⟩
      rw [byName_registered hwritten, if_neg]
      · exact hnode
      · intro hname
        rw [← hname, hg.covered.name_new hone.distinct] at hnode
        cases hnode
    · rw [mem_singleton] at hnew
      subst hnew
      refine ⟨s.registry.recorded l'.now l'.req.node, ?_, recorded_overlayIP,
        recorded_isMaster⟩
      rw [byName_registered hwritten, if_pos rfl]
  · intro k e he
    rw [hled] at he
    rcases hseed.seeded.fresh he with hold | ⟨hsingle, -⟩
    · rw [written_ledger_getElem?] at hold
      split at hold
      · next hm =>
          cases hold
          rw [Ledger.assigned_owningMaster]
          exact hone.only l (by simp) hm.1
      · exact hg.owners hold
    · -- a seeded overlay goes to the single self-owned master, and there is only one master
      obtain ⟨node, -, hnode, hm, -⟩ := hsingle.1
      apply hmasters
      rw [hwritten]
      exact ⟨node, hnode, hm⟩

end Step

/-! ## Any order -/

theorem Gathered.of_oneMaster (world : δ) (hone : OneMaster master ls) :
    ∃ s, (registrations world).exec (registrations world).init ls = some s ∧
      Gathered world master ls s := by
  induction ls using reverseRecOn with
  | nil => exact ⟨_, rfl, Gathered.init⟩
  | append_singleton ls l ih =>
    obtain ⟨s, hrun, hg⟩ := ih hone.of_append
    obtain ⟨s', hstep⟩ := hg.enabled hone
    exact ⟨s', Machine.exec_concat.mpr ⟨s, hrun, hstep⟩, hg.step hone hrun hstep⟩

theorem Gathered.ownerOf (hg : Gathered world master ls s)
    (hmaster : ∃ l ∈ ls, l.req.node.isMaster = true) (k : String) :
    s.ledger.ownerOf k =
      if k ∈ ls.map (·.req.overlayIp) then some master else none := by
  unfold Ledger.ownerOf Ledger.lookup
  split
  · next hk =>
      obtain ⟨l, hl, rfl⟩ := mem_map.mp hk
      obtain ⟨node, hnode, hov, -⟩ := hg.present l hl
      have hreg : ∃ m, s.registry.HasMaster m := by
        obtain ⟨l', hl', hm⟩ := hmaster
        obtain ⟨x, hx, -, hxm⟩ := hg.present l' hl'
        exact ⟨_, x, hx, hxm.trans hm⟩
      -- it met at most one master, for there is no other
      obtain ⟨pre, l', post, t, -, -, -, -, hkeep, hiff⟩ := hg.covered.nodes hnode
      have howned : ∃ e, s.ledger.entries[node.overlayIP]? = some e := by
        refine (hiff hreg).mpr (.inr ?_)
        intro m m' hm hm'
        rw [hg.masters (hkeep m hm), hg.masters (hkeep m' hm')]
      obtain ⟨e, he⟩ := howned
      rw [hov] at he
      rw [he, Option.map_some, hg.owners he]
  · next hk =>
      cases he : s.ledger.entries[k]? with
      | none => rfl
      | some e =>
        obtain ⟨n, node, hnode, hov⟩ := hg.covered.entries he
        obtain ⟨pre, l, post, t, rfl, -, hov', -⟩ := hg.covered.nodes hnode
        exact absurd (mem_map.mpr ⟨l, by simp, hov'.trans hov⟩) hk

/-- **The order of registrations does not matter**. -/
theorem registration_order (world : δ) {master : RegisterNodeRequest}
    {others : List RegisterNodeRequest} (hmaster : master.node.isMaster = true)
    (hothers : ∀ req ∈ others, req.node.isMaster = false)
    (hnames : ((master :: others).map (·.nodeName)).Nodup)
    (hoverlays : ((master :: others).map (·.overlayIp)).Nodup)
    (hquads : ∀ req ∈ master :: others, Net.isDottedQuad req.overlayIp = true)
    (hvalid : ∀ req ∈ master :: others, validate req.node = .ok ())
    {order : List (Registration δ)} (horder : (order.map (·.req)).Perm (master :: others))
    (hobserver : ∀ l ∈ order, ∀ node w, (observe l.onRegister node w).2 = .ok ()) :
    ∃ s, (registrations world).exec (registrations world).init order = some s ∧
      ∀ overlayIP, s.ledger.ownerOf overlayIP =
        if overlayIP ∈ (master :: others).map (·.overlayIp) then some master.nodeName
        else none := by
  have hmem : ∀ {l}, l ∈ order → l.req ∈ master :: others := fun hl =>
    horder.mem_iff.mp (mem_map_of_mem hl)
  have hone : OneMaster master.nodeName order := by
    refine ⟨⟨?_, ?_⟩, fun l hl => hvalid _ (hmem hl),
      fun l hl => Net.isIPv4_of_isDottedQuad (hquads _ (hmem hl)), ?_, hobserver⟩
    · rw [← (horder.map (·.nodeName)).nodup_iff, map_map] at hnames
      exact hnames
    · rw [← (horder.map (·.overlayIp)).nodup_iff, map_map] at hoverlays
      exact hoverlays
    · intro l hl hm
      rcases mem_cons.mp (hmem hl) with heq | hother
      · rw [heq]
      · rw [hothers _ hother] at hm
        cases hm
  obtain ⟨s, hrun, hg⟩ := Gathered.of_oneMaster world hone
  refine ⟨s, hrun, ?_⟩
  intro overlayIP
  have hin : ∃ l ∈ order, l.req.node.isMaster = true := by
    obtain ⟨l, hl, heq⟩ := mem_map.mp (horder.mem_iff.mpr mem_cons_self)
    exact ⟨l, hl, by rw [heq]; exact hmaster⟩
  have hsame : overlayIP ∈ order.map (·.req.overlayIp) ↔
      overlayIP ∈ (master :: others).map (·.overlayIp) := by
    rw [← (horder.map (·.overlayIp)).mem_iff, map_map]
    rfl
  rw [hg.ownerOf hin]
  simp only [hsame]

def masterBetween : List (Registration Unit) :=
  [plainRegistration 1 "b" "client" "10.0.0.3", plainRegistration 2 "m" "master" "10.0.0.1",
    plainRegistration 3 "a" "client" "10.0.0.2"]

theorem registration_order_master_between :
    ∃ s, (registrations ()).exec (registrations ()).init masterBetween = some s ∧
      s.ledger.ownerOf "10.0.0.3" = some "m" := by
  let request (name role overlayIP : String) : RegisterNodeRequest :=
    (plainRegistration 0 name role overlayIP).req
  have horder : (masterBetween.map (·.req)).Perm
      (request "m" "master" "10.0.0.1" ::
        [request "a" "client" "10.0.0.2", request "b" "client" "10.0.0.3"]) := by decide
  obtain ⟨s, hrun, howner⟩ := registration_order () (by decide) (by decide) (by decide)
    (by decide) (by decide) (by decide) horder (by simp [masterBetween, plainRegistration, observe])
  exact ⟨s, hrun, howner "10.0.0.3"⟩

end AwgMesh.ControlPlane
