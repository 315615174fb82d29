import AwgMesh.ControlPlane.Fanout.View
import AwgMesh.ControlPlane.Fanout.Seen
import AwgMesh.ControlPlane.Server.Rollback
import AwgMesh.ControlPlane.Server.Steps

/-! # Is the peer list a subscriber has up to date? -/

namespace AwgMesh.ControlPlane

open Lib Registry

variable {δ : Type} {now : Time} {s s' t : Plane δ} {subject : String}

/-! ## The system -/

def Plane.peerView (s : Plane δ) (subject : String) : List PeerView :=
  (buildPeerListUpdate s.registry subject s.ledger.snapshot s.ledger.version).view

structure Watch (δ : Type) where
  plane : Plane δ
  running : Handler (Plane δ) Unit := .done ()
  inbox : List PeerListUpdateMsg := []
  last : PeerListUpdate

inductive WatchStep (δ : Type) where
  | call (call : Call δ)
  | advance
  | receive

def Call.isLifeCycle : Call δ → Bool
  | .registerNode .. | .heartbeat .. | .decommissionNode .. => true
  | _ => false

namespace Watch

def idle (w : Watch δ) : Bool :=
  match w.running with
  | .done () => true
  | .call .. => false

/-- One step. -/
def step (subject : String) (w : Watch δ) : WatchStep δ → Option (Watch δ)
  | .call call =>
    if w.idle && call.isLifeCycle then some { w with running := call.program } else none
  | .advance =>
    match w.running with
    | .done () => none
    | .call upd next =>
      let plane := upd w.plane
      if plane.ledger.version = w.plane.ledger.version then
        some { w with plane := plane, running := next w.plane }
      else if w.inbox.length < subscriberBuffer then
        some { w with
          plane := plane
          running := next w.plane
          inbox := w.inbox ++ [peerListKind.msg plane.ledger.snapshot plane.ledger.version] }
      else none
  | .receive =>
    match w.inbox with
    | [] => none
    | m :: rest =>
      some { w with inbox := rest, last := peerListKind.next w.plane.registry subject m }

/-- With no call under way and nothing to receive, the last list is current. -/
def Fresh (subject : String) (w : Watch δ) : Prop :=
  w.idle = true → w.inbox = [] → w.last.view = w.plane.peerView subject

instance (subject : String) (w : Watch δ) : Decidable (w.Fresh subject) :=
  inferInstanceAs
    (Decidable (w.idle = true → w.inbox = [] → w.last.view = w.plane.peerView subject))

end Watch

def watch (subject : String) (s : Plane δ) : Machine (Watch δ) (WatchStep δ) where
  init :=
    { plane := s
      last := peerListKind.first s.registry subject s.ledger.snapshot s.ledger.version }
  step := Watch.step subject

/-! ## The condition on a call -/

def Restates (old : Option RegisteredNode) (pubkey : Bytes) (endpointHost protocol : String) :
    Prop :=
  (pubkey = [] ∨ pubkey = (peerIdentity old).1) ∧
    (endpointHost = "" ∨ endpointHost = (peerIdentity old).2.1) ∧
      (protocol = "" ∨ protocol = (peerIdentity old).2.2)

def mergedIdentity (old : Option RegisteredNode) (pubkey : Bytes) (endpointHost protocol : String) :
    Bytes × String × String :=
  (if pubkey = [] then (peerIdentity old).1 else pubkey,
    if endpointHost = "" then (peerIdentity old).2.1 else endpointHost,
    if protocol = "" then (peerIdentity old).2.2 else protocol)

theorem Restates.mergedIdentity_eq {old : Option RegisteredNode} {pubkey : Bytes}
    {endpointHost protocol : String} (h : Restates old pubkey endpointHost protocol) :
    mergedIdentity old pubkey endpointHost protocol = peerIdentity old := by
  obtain ⟨hp, he, hr⟩ := h
  unfold mergedIdentity
  grind

def Plane.Shows (s : Plane δ) (subject name : String) : Prop :=
  s.ledger.Shows (subjectOverlay s.registry subject) name

def HeartbeatSeeds (s : Plane δ) (req : HeartbeatRequest) (node : RegisteredNode) : Prop :=
  req.hasPeerIdentity = true ∧ (∃ m, s.IsSingle m) ∧
    (∀ x ∈ seedTargets s node, x.isMaster = false → Net.isIPv4 x.overlayIP = true) ∧
      ∃ x ∈ seedTargets s node, x.isMaster = false ∧ s.ledger.Lacks x.overlayIP

/-- The calls after which the peer list of the subject is up to date. -/
def Call.KeepsFresh (subject : String) (s : Plane δ) : Call δ → Prop
  | .registerNode now onRegister req =>
    s.registry.Admits now req.node → (¬ FailsLate s now onRegister req → WritesLedger s req ∨
        (s.Shows subject req.nodeName →
          Restates s.registry.byName[req.nodeName]? req.pubkey req.endpointHost req.protocol) ∧
        (req.nodeName = subject →
          s.registry.byName[req.nodeName]? ≠ none ∨ s.ledger.Lacks req.overlayIp)) ∧
      (FailsLate s now onRegister req →
        (s.Shows subject req.nodeName ∨ req.node.isMaster = true ∧ WritesLedger s req →
          peerIdentity s.registry.byName[req.nodeName]? = ([], "", "") ∧
            req.pubkey = [] ∧ req.endpointHost = "" ∧ req.protocol = "") ∧
        (req.nodeName = subject → ¬ WritesLedger s req ∧ s.ledger.Lacks req.overlayIp))
  | .heartbeat _ _ req =>
    ∀ node, s.registry.byName[req.nodeName]? = some node → HeartbeatSeeds s req node ∨
        (s.Shows subject req.nodeName →
          Restates (some node) req.pubkey req.endpointHost req.protocol)
  | .decommissionNode _ name =>
    ∀ node, s.registry.byName[name]? = some node →
      s.ledger.ownedBy name = [] ∨ (∃ m, s.registry.Survivor name m) →
        name = subject → s.ledger.Lacks node.overlayIP
  | _ => True

def WatchStep.KeepsFresh (subject : String) (w : Watch δ) : WatchStep δ → Prop
  | .call c => c.KeepsFresh subject w.plane
  | .advance | .receive => True

/-! ## Handlers, for a subscriber -/

structure Quiet (subject : String) (s t : Plane δ) : Prop where
  ledger : t.ledger = s.ledger
  peerView : t.peerView subject = s.peerView subject

theorem Quiet.refl (subject : String) (s : Plane δ) : Quiet subject s s := ⟨rfl, rfl⟩

theorem Quiet.trans {u : Plane δ} (h : Quiet subject s t) (h' : Quiet subject t u) :
    Quiet subject s u :=
  ⟨h'.ledger.trans h.ledger, h'.peerView.trans h.peerView⟩

def Counted (s t : Plane δ) : Prop := t.ledger.version ≠ s.ledger.version

theorem Still.counted_or_quiet (h : Still s t) : Counted s t ∨ Quiet subject s t := by
  rcases h.ledger with hl | hv
  · refine .inr ⟨hl, ?_⟩
    rw [Plane.peerView, Plane.peerView, h.registry, hl]
  · exact .inl hv

structure Unnoticed (subject : String) (final : Ledger) (s t : Plane δ) : Prop where
  ledger : t.ledger = s.ledger
  peerView : s.ledger = final → t.peerView subject = s.peerView subject

def Attended (subject : String) (x : Handler (Plane δ) Unit) (s : Plane δ) : Prop :=
  x.Steps (fun u t => Still u t ∨ Unnoticed subject (x.run s).1.ledger u t) s

theorem Attended.quiet_or_catches {x : Handler (Plane δ) Unit} (h : Attended subject x s) :
    x.Steps (Quiet subject) s ∨ x.Catches Counted (Quiet subject) s := by
  refine Handler.calm_or_catches (F := fun u => u.ledger = (x.run s).1.ledger)
    (fun hq ht => hq.ledger.symm.trans ht) (Quiet.refl subject) Quiet.trans ?_ rfl
  refine Handler.Steps.imp ?_ h
  rintro u t (hstill | hwrite)
  · exact hstill.counted_or_quiet.imp_right fun hq _ => hq
  · exact .inr fun ht => ⟨hwrite.ledger, hwrite.peerView (hwrite.ledger.symm.trans ht)⟩

theorem Attended.ledger_counted {x : Handler (Plane δ) Unit} (h : Attended subject x s) :
    x.Steps (fun u t => t.ledger = u.ledger ∨ Counted u t) s := by
  refine Handler.Steps.imp ?_ h
  rintro u t (hstill | hwrite)
  · exact hstill.ledger
  · exact .inl hwrite.ledger

/-! ### `RegisterNode` -/

section Register

variable {onRegister : Option (Observer δ)} {req : RegisterNodeRequest}
  {res : RegisterNodeResponse}

theorem peerIdentity_recorded {node : RegisteredNode} :
    peerIdentity (some (s.registry.recorded now node)) =
      mergedIdentity s.registry.byName[node.name]? node.pubkey node.endpointHost node.protocol := by
  unfold recorded mergedIdentity
  cases s.registry.byName[node.name]? with
  | none =>
    simp only [peerIdentity, Prod.mk.injEq]
    refine ⟨?_, ?_, ?_⟩ <;> split <;> simp_all
  | some prev => rfl

theorem RegisterOutcome.owned_cases (hs : s.WF) (had : s.registry.Admits now req.node)
    (hout : RegisterOutcome now onRegister req s s' res) {k : String} {e : OwnershipEntry}
    (he : s'.ledger.entries[k]? = some e) (hown : e.owningMaster = req.nodeName) :
    s.ledger.entries[k]? = some e ∨ req.node.isMaster = true ∧ WritesLedger s req := by
  rcases hout.ledger_cases had with ⟨-, hl⟩ | ⟨t, seedRes, hip, hseed, hl⟩
  · exact .inl (hl ▸ he)
  rw [hl] at he
  cases hm : req.node.isMaster with
  | true => exact .inr ⟨rfl, hip hm, .inl hm⟩
  | false =>
    left
    rcases hseed.seeded.fresh he with hold | ⟨hsingle, -⟩
    · rwa [written_ledger_of_not_master hm] at hold
    · exact absurd hown ((isSingle_written_of_not_master hs had hm).mp hsingle).1

theorem peerView_store (hs : s.WF) (had : s.registry.Admits now req.node)
    (hid : s.Shows subject req.nodeName →
      Restates s.registry.byName[req.nodeName]? req.pubkey req.endpointHost req.protocol)
    (hov : req.nodeName = subject →
      s.registry.byName[req.nodeName]? ≠ none ∨ s.ledger.Lacks req.overlayIp) :
    Plane.peerView { s with registry := s.registry.store (s.registry.recorded now req.node) }
      subject = s.peerView subject := by
  have hget : ∀ n, (s.registry.store (s.registry.recorded now req.node)).byName[n]? =
      if req.nodeName = n then some (s.registry.recorded now req.node)
      else s.registry.byName[n]? := by
    intro n
    rw [store_byName_getElem?, recorded_name]
    rfl
  symm
  refine view_eq_of_change req.nodeName hs.ledger ?_ ?_ ?_
  · intro n hn
    rw [hget, if_neg (Ne.symm hn)]
  · intro hshows
    rw [hget, if_pos rfl, peerIdentity_recorded]
    exact (hid hshows).mergedIdentity_eq.symm
  · intro hsub
    rw [hget, if_pos rfl]
    have hrec : overlayOf (some (s.registry.recorded now req.node)) = req.overlayIp :=
      recorded_overlayIP
    rw [hrec]
    cases hold : s.registry.byName[req.nodeName]? with
    | some prev => exact .inl (had.pinned prev hold).2
    | none => exact .inr ⟨hs.ledger.lacks_empty, (hov hsub).resolve_left (fun h => h hold)⟩

theorem subjectOverlay_before_store (subject : String) (had : s.registry.Admits now req.node) :
    subjectOverlay s.registry subject = "" ∨ subjectOverlay s.registry subject =
        subjectOverlay (s.registry.store (s.registry.recorded now req.node)) subject := by
  simp only [subjectOverlay_eq, store_byName_getElem?, recorded_name]
  split
  · next hname =>
      subst hname
      cases hold : s.registry.byName[req.node.name]? with
      | none => exact .inl rfl
      | some prev => exact .inr ((had.pinned prev hold).2.trans recorded_overlayIP.symm)
  · exact .inr rfl

theorem peerView_undo {l : Ledger} (hl : l.WF) (hs : s.ledger = l)
    (hreg : s.registry = s'.registry.store (s'.registry.recorded now req.node))
    (hid : l.Shows (subjectOverlay s.registry subject) req.nodeName →
      peerIdentity (some (s'.registry.recorded now req.node)) = ([], "", ""))
    (hov : req.nodeName = subject → l.Lacks req.overlayIp) :
    Plane.peerView { s with registry := s'.registry.without req.node } subject =
      s.peerView subject := by
  have hget : s.registry.byName[req.nodeName]? = some (s'.registry.recorded now req.node) := by
    rw [hreg, store_byName_getElem?, recorded_name]
    exact if_pos rfl
  have hgone : (s'.registry.without req.node).byName[req.nodeName]? = none := by
    rw [without_byName_getElem?]
    exact if_pos rfl
  subst hs
  symm
  refine view_eq_of_change req.nodeName hl ?_ ?_ ?_
  · intro n hn
    rw [hreg, without_byName_getElem?, store_byName_getElem?,
      recorded_name]
    exact (if_neg (Ne.symm hn)).trans (if_neg (Ne.symm hn)).symm
  · intro hshows
    rw [hget, hgone]
    exact hid hshows
  · intro hsub
    rw [hget, hgone]
    have hrec : overlayOf (some (s'.registry.recorded now req.node)) = req.overlayIp :=
      recorded_overlayIP
    rw [hrec]
    exact .inr ⟨hov hsub, hl.lacks_empty⟩

theorem registerNode_attended (hs : s.WF)
    (h : (Call.registerNode now onRegister req).KeepsFresh subject s) :
    Attended subject (Call.registerNode now onRegister req).program s := by
  have hwf := hs.after (.registerNode now onRegister req)
  obtain ⟨s', res, hrun, hout⟩ := registerNode_outcome now onRegister req hs
  have hsteps := registerNode_steps now onRegister req s
  rw [Call.after, Call.program, Handler.run_map, hrun] at hwf
  unfold Attended Call.program
  rw [Handler.run_map, hrun]
  rw [hrun] at hsteps
  refine (hsteps.imp ?_).map _
  intro u t hstep
  cases hstep with
  | still hstill => exact .inl hstill
  | write had hu ht =>
    subst hu ht
    refine .inr ⟨rfl, fun hfinal => ?_⟩
    -- the ledger ends as it was, so no message is coming: the write itself must go unnoticed
    have hunwritten : ¬ WritesLedger u req := by
      rw [← hout.entries_eq_iff hs had]
      exact congrArg Ledger.entries hfinal.symm
    by_cases hfails : FailsLate u now onRegister req
    · obtain ⟨hanon, hsub⟩ := (h had).2 hfails
      refine peerView_store hs had (fun hshows => ?_) fun hname => .inr (hsub hname).2
      obtain ⟨hold, hp, he, hr⟩ := hanon (.inl hshows)
      exact ⟨.inl hp, .inl he, .inl hr⟩
    · obtain ⟨hid, hov⟩ := ((h had).1 hfails).resolve_left hunwritten
      exact peerView_store hs had hid hov
  | undo had hno hu ht =>
    subst ht
    refine .inr ⟨rfl, fun hfinal => ?_⟩
    -- taking the record out again must go unnoticed as well
    have hfails := (hout.failsLate_iff hs had).mpr hno
    obtain ⟨hanon, hsub⟩ := (h had).2 hfails
    refine peerView_undo hwf.ledger hfinal hu ?_ ?_
    · rintro ⟨k, e, he, hown, hk⟩
      have hcause : s.Shows subject req.nodeName ∨
          req.node.isMaster = true ∧ WritesLedger s req := by
        refine (hout.owned_cases hs had he hown).imp_left fun hold => ⟨k, e, hold, hown, ?_⟩
        rintro rfl
        rcases subjectOverlay_before_store subject had with hnew | hsame
        · have := hs.ledger.ipv4 hold
          rw [hnew] at this
          exact absurd this (by decide)
        · exact hk (by rw [hu]; exact hsame)
      obtain ⟨hold, hp, he, hr⟩ := hanon hcause
      rw [peerIdentity_recorded]
      show mergedIdentity s.registry.byName[req.nodeName]? req.pubkey req.endpointHost
        req.protocol = _
      rw [hp, he, hr, mergedIdentity, ← hold]
      rfl
    · intro hname
      obtain ⟨hunwritten, hlacks⟩ := hsub hname
      have hentries := (hout.entries_eq_iff hs had).mpr hunwritten
      show s'.ledger.entries[req.overlayIp]? = none
      rw [hentries]
      exact hlacks

end Register

/-! ### `Heartbeat` -/

section Heartbeat

variable {onRegister : Option (Observer δ)} {req : HeartbeatRequest} {node : RegisteredNode}

theorem HeartbeatSeeds.ledger_ne {res : Except HandlerError HeartbeatResponse} (hs : s.WF)
    (hnode : s.registry.byName[req.nodeName]? = some node) (h : HeartbeatSeeds s req node)
    (hout : HeartbeatOutcome now onRegister req s s' res) : s'.ledger ≠ s.ledger := by
  obtain ⟨hid, ⟨m, hm⟩, hall, hex⟩ := h
  have hsingle : (s.beaten now req node).IsSingle m := by
    unfold Plane.IsSingle
    simp only [selfOwned_beaten hnode]
    exact hm
  -- every overlay to seed is taken, and one of them was missing
  have hchanged : ∀ {t : Plane δ} {r : Except HandlerError Unit},
      SeedSpec (s.beaten now req node) (s.beatTargets now req node) (t, r) →
      t.ledger ≠ s.ledger := by
    intro t r hseed
    have hok : r = .ok () := by
      apply hseed.ok_iff.mpr
      rintro y hy ⟨hym, hyip, -⟩
      obtain ⟨x, hx, hxm, hxip⟩ := (exists_mem_seedTargets_beaten hs hnode
        fun b o => b = false ∧ Net.isIPv4 o = false).mp ⟨y, hy, hym, hyip⟩
      rw [hall x hx hxm] at hxip
      cases hxip
    obtain ⟨y, hy, hym, hlacks⟩ := (exists_mem_seedTargets_beaten hs hnode
      fun b o => b = false ∧ s.ledger.Lacks o).mpr hex
    obtain ⟨e, he⟩ := hseed.covered hok y hy hym ⟨m, hsingle⟩
    intro heq
    change t.ledger.entries[y.overlayIP]? = some e at he
    rw [heq, hlacks] at he
    cases he
  obtain ⟨t, r, hseed, hled⟩ := hout.seeded hnode hid
  rw [hled]
  exact hchanged hseed

theorem heartbeat_attended (hs : s.WF)
    (h : (Call.heartbeat now onRegister req).KeepsFresh subject s) :
    Attended subject (Call.heartbeat now onRegister req).program s := by
  obtain ⟨s', res, hrun, hout⟩ := heartbeat_outcome now onRegister req hs
  unfold Attended Call.program
  rw [Handler.run_map, hrun]
  refine ((heartbeat_steps now onRegister req s).imp ?_).map _
  intro u t hstep
  cases hstep with
  | still hstill => exact .inl hstill
  | write node hnode hu ht =>
    subst hu ht
    refine .inr ⟨rfl, fun hfinal => ?_⟩
    have hid := (h node hnode).resolve_left fun hseeds =>
      hseeds.ledger_ne hs hnode hout hfinal.symm
    symm
    refine view_eq_of_change req.nodeName hs.ledger ?_ ?_ ?_
    · intro n hn
      rw [beaten_byName_getElem?, if_neg (Ne.symm hn)]
    · intro hshows
      rw [beaten_byName_getElem?, if_pos rfl, hnode]
      exact (hid hshows).mergedIdentity_eq.symm
    · intro _
      rw [beaten_byName_getElem?, if_pos rfl, hnode]
      exact .inl rfl

end Heartbeat

/-! ### `DecommissionNode` -/

theorem Drained.not_shows {r : Registry} {l l' : Ledger} {name o : String}
    (h : Drained r name l l') : ¬ l'.Shows o name := by
  rintro ⟨k, e', he', hown, -⟩
  exact h.owner_ne he' hown

theorem decommissionNode_attended {name : String} (hs : s.WF)
    (h : (Call.decommissionNode now name).KeepsFresh subject s) :
    Attended subject (Call.decommissionNode now name).program s := by
  obtain ⟨s', res, hrun, hout⟩ := decommissionNode_outcome now name hs
  have hsteps := decommissionNode_steps now name hs.registry
  unfold Attended Call.program
  rw [Handler.run_map, hrun]
  rw [hrun] at hsteps
  refine (hsteps.imp ?_).map _
  intro u t hstep
  cases hstep with
  | still hstill => exact .inl hstill
  | remove node hnode hok hu ht =>
    subst ht
    refine .inr ⟨rfl, fun hfinal => ?_⟩
    cases hout with
    | refused err hno hs' => cases hok
    | done x l hx hdone hdrain hs' =>
      -- the drain is over, so the node owns nothing any more
      have hled : u.ledger = l := hfinal.trans hs'.ledger
      have hname : node.name = name := (hs.registry.named hnode).1
      have hgone : (s.registry.without node).byName[name]? = none := by
        rw [without_byName_getElem?, if_pos hname]
      symm
      refine view_eq_of_change name (hled ▸ hdrain.wf) ?_ ?_ ?_
      · intro n hn
        rw [hu, without_byName_getElem?, if_neg (by rw [hname]; exact Ne.symm hn)]
      · rw [hled]
        exact fun hshows => absurd hshows hdrain.not_shows
      · intro hsub
        rw [hu, hnode, hgone, hled]
        refine .inr ⟨?_, hdrain.wf.lacks_empty⟩
        have hlacks : s.ledger.entries[node.overlayIP]? = none := h node hnode hdone hsub
        show l.entries[node.overlayIP]? = none
        rw [hdrain.others (by rw [hlacks]; intro e he; cases he), hlacks]

/-! ## Runs -/

theorem attended_of_keepsFresh (hs : s.WF) {call : Call δ} (hcall : call.isLifeCycle = true)
    (h : call.KeepsFresh subject s) : Attended subject call.program s := by
  cases call with
  | registerNode now onRegister req => exact registerNode_attended hs h
  | heartbeat now onRegister req => exact heartbeat_attended hs h
  | decommissionNode now name => exact decommissionNode_attended hs h
  | selfRegister now node => cases hcall
  | allowCertRollover now name certPEM overlapUntil => cases hcall
  | clearCertRollover name certPEM => cases hcall

structure Watch.Inv (subject : String) (w : Watch δ) : Prop where
  wf : (w.running.run w.plane).1.WF
  counted : w.running.Steps (fun s t => t.ledger = s.ledger ∨ Counted s t) w.plane
  tail : ∀ m ∈ w.inbox.getLast?, m.snapshot = w.plane.ledger.snapshot
  current : w.running.Catches Counted (Quiet subject) w.plane ∨
    w.running.Steps (Quiet subject) w.plane ∧
      (w.inbox = [] → w.last.view = w.plane.peerView subject)

theorem Watch.Inv.init (subject : String) (hs : s.WF) : (watch subject s).init.Inv subject where
  wf := hs
  counted := trivial
  tail m hm := by cases hm
  current := .inr ⟨trivial, fun _ => rfl⟩

theorem Watch.Inv.fresh {w : Watch δ} (h : w.Inv subject) : w.Fresh subject := by
  intro hidle hinbox
  rcases h.current with hcatch | ⟨-, hcur⟩
  · unfold Watch.idle at hidle
    split at hidle
    · next hdone => rw [hdone] at hcatch; exact hcatch.elim
    · cases hidle
  · exact hcur hinbox

theorem Watch.Inv.step {w w' : Watch δ} {a : WatchStep δ} (h : w.Inv subject)
    (ha : a.KeepsFresh subject w) (hstep : w.step subject a = some w') : w'.Inv subject := by
  cases a <;> dsimp only [Watch.step] at hstep
  case call c =>
    split at hstep
    · next hen =>
        cases hstep
        -- the call before is over, so the state is what it left behind
        rw [Bool.and_eq_true] at hen
        obtain ⟨hidle, hcycle⟩ := hen
        have hdone : w.running = .done () := by
          unfold Watch.idle at hidle
          split at hidle
          · next hdone => exact hdone
          · cases hidle
        have hs : w.plane.WF := by
          have := h.wf
          rwa [hdone] at this
        have hatt := attended_of_keepsFresh hs hcycle ha
        refine ⟨hs.after c, hatt.ledger_counted, h.tail, ?_⟩
        rcases hatt.quiet_or_catches with hquiet | hcatch
        · refine .inr ⟨hquiet, fun hinbox => ?_⟩
          rcases h.current with hcatch | ⟨-, hcur⟩
          · rw [hdone] at hcatch
            exact hcatch.elim
          · exact hcur hinbox
        · exact .inl hcatch
    · cases hstep
  case advance =>
    obtain ⟨hwf, hcounted, htail, hcurrent⟩ := h
    split at hstep
    · cases hstep
    next upd next hrun =>
    rw [hrun] at hwf hcounted hcurrent
    split at hstep
    · next hver =>
        -- no message, so the ledger is the same
        cases hstep
        have hled : (upd w.plane).ledger = w.plane.ledger :=
          hcounted.1.resolve_right fun hc => hc hver
        refine ⟨hwf, hcounted.2, ?_, ?_⟩
        · show ∀ m ∈ w.inbox.getLast?, m.snapshot = (upd w.plane).ledger.snapshot
          rw [hled]
          exact htail
        · rcases hcurrent with (⟨hc, -⟩ | hcatch) | ⟨⟨hq, hrest⟩, hcur⟩
          · exact absurd hver hc
          · exact .inl hcatch
          · exact .inr ⟨hrest, fun hinbox => (hcur hinbox).trans hq.peerView.symm⟩
    · next hver =>
        -- the ledger has changed, and the message about it is on its way
        split at hstep
        · cases hstep
          refine ⟨hwf, hcounted.2, ?_, ?_⟩
          · intro m hm
            rw [List.getLast?_concat, Option.mem_some_iff] at hm
            rw [← hm]
            rfl
          · rcases hcurrent with (⟨-, hrest⟩ | hcatch) | ⟨⟨hq, -⟩, -⟩
            · refine .inr ⟨hrest, fun hinbox => ?_⟩
              exact absurd hinbox (List.append_ne_nil_of_right_ne_nil _ (List.cons_ne_nil _ _))
            · exact .inl hcatch
            · exact absurd (by rw [hq.ledger]) hver
        · cases hstep
  case receive =>
    split at hstep
    · cases hstep
    next m rest hinbox =>
    cases hstep
    obtain ⟨hwf, hcounted, htail, hcurrent⟩ := h
    rw [hinbox] at htail
    refine ⟨hwf, hcounted, ?_, ?_⟩
    · intro x hx
      apply htail x
      cases rest with
      | nil => cases hx
      | cons y ys => rw [List.getLast?_cons_cons]; exact hx
    · refine hcurrent.imp_right fun ⟨hquiet, _⟩ => ⟨hquiet, ?_⟩
      -- the last message of the channel carries the current snapshot
      rintro rfl
      have hsnap : m.snapshot = w.plane.ledger.snapshot := htail m rfl
      show (buildPeerListUpdate w.plane.registry subject m.snapshot m.version).view = _
      rw [hsnap]
      rfl

/-- **Peer-list freshness.** -/
theorem peerList_fresh_throughout {world : δ} (hs : (server world).Reachable s) (subject : String)
    (run : List (WatchStep δ))
    (h : (watch subject s).Along (fun w a => a.KeepsFresh subject w) (watch subject s).init run) :
    (watch subject s).Throughout (Watch.Fresh subject) (watch subject s).init run := by
  have hinv : (watch subject s).Throughout (Watch.Inv subject) (watch subject s).init run := by
    refine Machine.throughout_of_along (J := fun _ => True) (fun _ _ => trivial) ?_ trivial
      (Watch.Inv.init subject (Plane.WF.of_reachable hs)) h
    intro w a w' _ hi ha hstep
    exact hi.step ha hstep
  exact hinv.imp fun w hw => hw.fresh

def masterRequest (pubkey : Bytes) : RegisterNodeRequest :=
  { nodeName := "m"
    roles := ["master"]
    nodeCertPem := [1]
    overlayIp := "10.0.0.1"
    pubkey := pubkey }

def masterArrives : List (WatchStep Unit) :=
  .call (.registerNode 1 none (masterRequest [])) ::
    (List.replicate 2 .advance ++ .receive :: List.replicate 3 .advance)

/-- The theorem at that run, all of whose steps are enabled. -/
theorem peerList_fresh_master_arrives :
    ((watch "c" (server ()).init).exec (watch "c" (server ()).init).init masterArrives).isSome ∧
      (watch "c" (server ()).init).Throughout (Watch.Fresh "c") (watch "c" (server ()).init).init
        masterArrives := by
  refine ⟨by decide, peerList_fresh_throughout Machine.Reachable.init "c" masterArrives ⟨?_, ?_⟩⟩
  · -- it writes its own entry and, should it be rolled back, has no identity to show
    intro _
    refine ⟨fun _ => .inl ⟨by decide, .inl (by decide)⟩, fun _ => ⟨fun _ => by decide, ?_⟩⟩
    intro hname
    exact absurd hname (by decide)
  · intro w _
    refine Machine.along_of_forall ?_ w
    intro a ha w
    cases a with
    | call c => simp at ha
    | advance => trivial
    | receive => trivial

def masterRekeys : List (WatchStep Unit) :=
  .call (.heartbeat 2 none { nodeName := "m", pubkey := [2] }) :: List.replicate 4 .advance

/-- The subscriber is left with the old key. -/
theorem peerList_stale_after_rekey :
    ∃ s, (server ()).Reachable s ∧
      ∃ w, (watch "c" s).exec (watch "c" s).init masterRekeys = some w ∧ ¬ w.Fresh "c" := by
  let first : Call Unit := .registerNode 1 none (masterRequest [1])
  refine ⟨first.after (server ()).init, ⟨[first], rfl⟩, ?_⟩
  have hstale : ((watch "c" (first.after (server ()).init)).exec
      (watch "c" (first.after (server ()).init)).init masterRekeys).any
        (fun w => !decide (w.Fresh "c")) = true := by decide
  rw [Option.any_eq_true] at hstale
  obtain ⟨w, hw, hno⟩ := hstale
  exact ⟨w, hw, by simpa using hno⟩

end AwgMesh.ControlPlane
