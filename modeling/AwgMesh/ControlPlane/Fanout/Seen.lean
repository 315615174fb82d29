import AwgMesh.ControlPlane.PeerList

/-! # What a subscriber sees of registry and ledger -/

namespace AwgMesh.ControlPlane

open Lib List

/-! ## The part of a peer entry that counts -/

structure PeerView where
  peerName : String
  pubkey : Bytes
  endpointHost : String
  protocol : String
  allowedIps : List String
  deriving DecidableEq

def PeerEntry.view (p : PeerEntry) : PeerView :=
  { peerName := p.peerName
    pubkey := p.peerPubkey
    endpointHost := p.peerEndpointHost
    protocol := p.protocol
    allowedIps := p.allowedIps }

def PeerListUpdate.view (u : PeerListUpdate) : List PeerView := u.peers.map PeerEntry.view

def peerIdentity : Option RegisteredNode → Bytes × String × String
  | none => ([], "", "")
  | some node => (node.pubkey, node.endpointHost, node.protocol)

theorem peerEntry_view {r : Registry} {master : String} {agg : MasterAgg} :
    (peerEntry r master agg).view =
      { peerName := master
        pubkey := (peerIdentity r.byName[master]?).1
        endpointHost := (peerIdentity r.byName[master]?).2.1
        protocol := (peerIdentity r.byName[master]?).2.2
        allowedIps := agg.allowedIPs } := by
  unfold peerEntry Registry.lookup
  cases r.byName[master]? <;> rfl

@[simp] theorem peerEntry_peerName {r : Registry} {master : String} {agg : MasterAgg} :
    (peerEntry r master agg).peerName = master :=
  congrArg PeerView.peerName peerEntry_view

@[simp] theorem peerEntry_allowedIps {r : Registry} {master : String} {agg : MasterAgg} :
    (peerEntry r master agg).allowedIps = agg.allowedIPs :=
  congrArg PeerView.allowedIps peerEntry_view

/-! ## The groups -/

def isRemote (subjectOverlay : String) (e : OwnershipEntry) : Bool :=
  !(subjectOverlay ≠ "" && e.overlayIP = subjectOverlay)

theorem groupByMaster_eq_foldl_filter (subjectOverlay : String) (snapshot : List OwnershipEntry) :
    groupByMaster subjectOverlay snapshot = (snapshot.filter (isRemote subjectOverlay)).foldl
        (fun groups e => addToMaster e.owningMaster e.overlayIP groups) [] := by
  unfold groupByMaster
  rw [foldl_filter]
  congr 1
  funext groups e
  unfold isRemote
  cases (subjectOverlay ≠ "" && e.overlayIP = subjectOverlay : Bool) <;> rfl

theorem mem_owners_addToMaster {owner overlayIP name : String}
    {groups : List (String × MasterAgg)} :
    name ∈ (addToMaster owner overlayIP groups).map Prod.fst ↔
      name = owner ∨ name ∈ groups.map Prod.fst := by
  induction groups with
  | nil => simp [addToMaster]
  | cons g rest ih =>
    rw [addToMaster]
    split
    · next hm =>
        rw [map_cons, map_cons, ← hm]
        simp
    · rw [map_cons, mem_cons, ih, map_cons, mem_cons]
      exact or_left_comm

theorem mem_owners_groupByMaster {subjectOverlay name : String} {snapshot : List OwnershipEntry} :
    name ∈ (groupByMaster subjectOverlay snapshot).map Prod.fst ↔
      ∃ e ∈ snapshot, isRemote subjectOverlay e = true ∧ e.owningMaster = name := by
  have hgen : ∀ (es : List OwnershipEntry) (groups : List (String × MasterAgg)),
      name ∈ (es.foldl (fun groups e => addToMaster e.owningMaster e.overlayIP groups) groups).map
          Prod.fst ↔
        name ∈ groups.map Prod.fst ∨ ∃ e ∈ es, e.owningMaster = name := by
    intro es
    induction es with
    | nil => simp
    | cons e rest ih =>
      intro groups
      rw [foldl_cons, ih, mem_owners_addToMaster]
      grind
  rw [groupByMaster_eq_foldl_filter, hgen]
  simp [and_assoc]

theorem addToMaster_perm (owner overlayIP : String) (groups : List (String × MasterAgg)) :
    ((addToMaster owner overlayIP groups).flatMap (·.2.allowedIPs)).Perm
      ((overlayIP ++ "/32") :: groups.flatMap (·.2.allowedIPs)) := by
  induction groups with
  | nil => exact Perm.refl _
  | cons g rest ih =>
    rw [addToMaster]
    split
    · simp only [flatMap_cons, append_assoc, singleton_append]
      exact perm_middle
    · simp only [flatMap_cons]
      exact (ih.append_left g.2.allowedIPs).trans perm_middle

theorem nodup_addToMaster {owner overlayIP : String} {groups : List (String × MasterAgg)}
    (h : (groups.map Prod.fst).Nodup) :
    ((addToMaster owner overlayIP groups).map Prod.fst).Nodup := by
  induction groups with
  | nil => simp [addToMaster]
  | cons g rest ih =>
    obtain ⟨hg, hrest⟩ := nodup_cons.mp h
    rw [addToMaster]
    split
    · exact h
    · next hne =>
        rw [map_cons, nodup_cons]
        refine ⟨?_, ih hrest⟩
        rw [mem_owners_addToMaster]
        exact not_or.mpr ⟨hne, hg⟩

theorem groupByMaster_partition (subjectOverlay : String) (snapshot : List OwnershipEntry) :
    ((groupByMaster subjectOverlay snapshot).map Prod.fst).Nodup ∧
      ((groupByMaster subjectOverlay snapshot).flatMap (·.2.allowedIPs)).Perm
        ((snapshot.filter (isRemote subjectOverlay)).map (·.overlayIP ++ "/32")) := by
  have hgen : ∀ (es : List OwnershipEntry) (groups : List (String × MasterAgg)),
      (groups.map Prod.fst).Nodup →
        ((es.foldl (fun groups e => addToMaster e.owningMaster e.overlayIP groups) groups).map
          Prod.fst).Nodup ∧
        ((es.foldl (fun groups e => addToMaster e.owningMaster e.overlayIP groups) groups).flatMap
          (·.2.allowedIPs)).Perm
            (es.map (·.overlayIP ++ "/32") ++ groups.flatMap (·.2.allowedIPs)) := by
    intro es
    induction es with
    | nil => exact fun groups hnodup => ⟨hnodup, Perm.refl _⟩
    | cons e rest ih =>
      intro groups hnodup
      obtain ⟨hnames, hperm⟩ := ih _ (nodup_addToMaster hnodup)
      refine ⟨hnames, hperm.trans ?_⟩
      refine ((addToMaster_perm e.owningMaster e.overlayIP groups).append_left _).trans ?_
      rw [map_cons, cons_append]
      exact perm_middle
  rw [groupByMaster_eq_foldl_filter]
  obtain ⟨hnames, hperm⟩ := hgen (snapshot.filter (isRemote subjectOverlay)) [] nodup_nil
  rw [flatMap_nil, append_nil] at hperm
  exact ⟨hnames, hperm⟩

theorem peers_partition (r : Registry) (subject : String) (snapshot : List OwnershipEntry)
    (version : Nat) :
    (((buildPeerListUpdate r subject snapshot version).peers).map (·.peerName)).Nodup ∧
      (((buildPeerListUpdate r subject snapshot version).peers).flatMap (·.allowedIps)).Perm
        ((snapshot.filter (isRemote (subjectOverlay r subject))).map (·.overlayIP ++ "/32")) := by
  obtain ⟨hnames, hperm⟩ := groupByMaster_partition (subjectOverlay r subject) snapshot
  unfold buildPeerListUpdate
  dsimp only
  rw [map_map, flatMap_map]
  simp only [Function.comp_def, peerEntry_peerName, peerEntry_allowedIps]
  exact ⟨hnames, hperm⟩

/-! ## Two registries that look the same -/

def Ledger.Shows (l : Ledger) (subjectOverlay name : String) : Prop :=
  ∃ k e, l.entries[k]? = some e ∧ e.owningMaster = name ∧ k ≠ subjectOverlay

def Ledger.Lacks (l : Ledger) (o : String) : Prop := l.entries[o]? = none

section View

variable {r r' : Registry} {l : Ledger} {subject : String}

theorem Ledger.WF.lacks_empty (hl : l.WF) : l.Lacks "" := by
  unfold Ledger.Lacks
  cases h : l.entries[""]? with
  | none => rfl
  | some e => exact absurd (hl.ipv4 h) (by decide)

theorem isRemote_iff (hl : l.WF) {o : String} {e : OwnershipEntry} (he : e ∈ l.snapshot) :
    isRemote o e = true ↔ e.overlayIP ≠ o := by
  have hne : e.overlayIP ≠ "" := by
    intro h
    have hlacks := hl.lacks_empty
    rw [Ledger.Lacks, ← h, hl.mem_snapshot.mp he] at hlacks
    cases hlacks
  unfold isRemote
  by_cases ho : e.overlayIP = o
  · subst ho
    simp [hne]
  · simp [ho]

theorem isRemote_of_lacks (hl : l.WF) {o : String} (ho : l.Lacks o) {e : OwnershipEntry}
    (he : e ∈ l.snapshot) : isRemote o e = true := by
  rw [isRemote_iff hl he]
  rintro rfl
  rw [Ledger.Lacks, hl.mem_snapshot.mp he] at ho
  cases ho

theorem view_congr (hl : l.WF) {v v' : Nat}
    (hov : subjectOverlay r subject = subjectOverlay r' subject ∨
      l.Lacks (subjectOverlay r subject) ∧ l.Lacks (subjectOverlay r' subject))
    (hid : ∀ n, l.Shows (subjectOverlay r subject) n →
      peerIdentity r.byName[n]? = peerIdentity r'.byName[n]?) :
    (buildPeerListUpdate r subject l.snapshot v).view =
      (buildPeerListUpdate r' subject l.snapshot v').view := by
  have hgroups : groupByMaster (subjectOverlay r' subject) l.snapshot =
      groupByMaster (subjectOverlay r subject) l.snapshot := by
    rcases hov with heq | ⟨hlack, hlack'⟩
    · rw [heq]
    · rw [groupByMaster_eq_foldl_filter, groupByMaster_eq_foldl_filter]
      congr 1
      apply filter_congr
      intro e he
      rw [isRemote_of_lacks hl hlack he, isRemote_of_lacks hl hlack' he]
  unfold PeerListUpdate.view buildPeerListUpdate
  simp only [hgroups, map_map]
  apply map_congr_left
  intro g hg
  obtain ⟨e, he, hremote, hown⟩ := mem_owners_groupByMaster.mp (mem_map_of_mem hg)
  have hentry := hl.mem_snapshot.mp he
  have hshows : l.Shows (subjectOverlay r subject) g.1 := by
    refine ⟨e.overlayIP, e, hentry, hown, ?_⟩
    intro heq
    -- keys are addresses, so the subject's overlay is not the empty string here
    have hip := hl.ipv4 hentry
    rw [isRemote, heq] at hremote
    by_cases hempty : subjectOverlay r subject = ""
    · rw [heq, hempty] at hip
      exact absurd hip (by decide)
    · simp [hempty] at hremote
  show (peerEntry r g.1 g.2).view = (peerEntry r' g.1 g.2).view
  rw [peerEntry_view, peerEntry_view, hid g.1 hshows]

def overlayOf : Option RegisteredNode → String
  | none => ""
  | some node => node.overlayIP

theorem subjectOverlay_eq : subjectOverlay r subject = overlayOf r.byName[subject]? := by
  unfold subjectOverlay Registry.lookup
  cases r.byName[subject]? <;> rfl

theorem view_eq_of_change (name : String) (hl : l.WF) {v v' : Nat}
    (hoff : ∀ n, n ≠ name → r'.byName[n]? = r.byName[n]?)
    (hid : l.Shows (subjectOverlay r subject) name →
      peerIdentity r.byName[name]? = peerIdentity r'.byName[name]?)
    (hov : name = subject → overlayOf r.byName[name]? = overlayOf r'.byName[name]? ∨
      l.Lacks (overlayOf r.byName[name]?) ∧ l.Lacks (overlayOf r'.byName[name]?)) :
    (buildPeerListUpdate r subject l.snapshot v).view =
      (buildPeerListUpdate r' subject l.snapshot v').view := by
  apply view_congr hl
  · rw [subjectOverlay_eq, subjectOverlay_eq]
    by_cases hsub : name = subject
    · subst hsub
      exact hov rfl
    · rw [hoff subject (Ne.symm hsub)]
      exact Or.inl rfl
  · intro n hn
    by_cases hname : n = name
    · subst hname
      exact hid hn
    · rw [hoff n hname]

end View

end AwgMesh.ControlPlane
