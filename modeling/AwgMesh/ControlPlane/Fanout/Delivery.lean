import AwgMesh.ControlPlane.Fanout.View

/-! # Does a stream catch up with the ledger? -/

namespace AwgMesh.ControlPlane

open Lib Function Fanout Machine List

/-! ## Accounting for versions -/

section Views

variable {A M U : Type} {K : StreamKind A M U} {C : Nat → Prop} {w w' : View M U}

def Local.Accounts (K : StreamKind A M U) (w : View M U) (x : Local M U) : Prop :=
  match x.phase with
  | .snapped v₀ => v₀ ≤ w.ledger.version ∧ ∀ v, v₀ < v → v ≤ w.ledger.version → w.pending v ≠ none
  | .greeted v₀ => v₀ ≤ w.ledger.version ∧ v₀ ∈ x.sent.map K.version ∧
      ∀ v, v₀ < v → v ≤ w.ledger.version → w.pending v ≠ none
  | .subscribed v₀ chan => chan.closed = false → v₀ ≤ w.ledger.version ∧ v₀ ∈ x.sent.map K.version ∧
      ∀ v, v₀ < v → v ≤ w.ledger.version →
        w.pending v ≠ none ∨ v ∈ chan.buf.map K.msgVersion ∨ v ∈ x.sent.map K.version
  | .ended => True

def LocalPhase.window : LocalPhase M → Option Nat
  | .snapped v => some v
  | .greeted v => some v
  | _ => none

theorem Local.Accounts.commit {x : Local M U} (h : x.Accounts K w) {l : Ledger}
    (hl : l.version = w.ledger.version + 1) :
    x.Accounts K
      { w with
        ledger := l
        pending := update w.pending l.version (some l.snapshot) } := by
  have hpending : ∀ {v}, v ≤ l.version → (v ≤ w.ledger.version → w.pending v ≠ none) →
      update w.pending l.version (some l.snapshot) v ≠ none := by
    intro v hv hold
    rw [update_apply]
    split
    · simp
    · next hne => exact hold (by omega)
  -- before the subscription a version can only be due; after it, it can be in the channel or sent
  obtain ⟨phase, received, sent⟩ := x
  cases phase with
  | snapped v₀ =>
    obtain ⟨hle, hacc⟩ := h
    refine ⟨by show v₀ ≤ l.version; omega, ?_⟩
    intro v hlt hv
    exact hpending hv (hacc v hlt)
  | greeted v₀ =>
    obtain ⟨hle, hsent, hacc⟩ := h
    refine ⟨by show v₀ ≤ l.version; omega, hsent, ?_⟩
    intro v hlt hv
    exact hpending hv (hacc v hlt)
  | subscribed v₀ chan =>
    intro hopen
    obtain ⟨hle, hsent, hacc⟩ := h hopen
    refine ⟨by show v₀ ≤ l.version; omega, hsent, ?_⟩
    intro v hlt hv
    change v ≤ l.version at hv
    by_cases hnew : v = l.version
    · left
      exact hpending hv (by omega)
    · rcases hacc v hlt (by omega) with h₁ | h₂
      · left
        exact hpending hv fun _ => h₁
      · exact .inr h₂
  | ended => trivial

theorem Local.Accounts.publish {x : Local M U} (h : x.Accounts K w) {v : Nat}
    {snapshot : List OwnershipEntry} {locals : Nat → Option (Local M U)}
    (hwindow : ∀ v₀, x.phase.window = some v₀ → v ≤ v₀) :
    (x.offer (K.msg snapshot v)).Accounts K
      { w with pending := update w.pending v none, locals := locals } := by
  have hpending : ∀ {v'}, v' ≠ v → w.pending v' ≠ none →
      update w.pending v none v' ≠ none := by
    intro v' hne hold
    rw [update_apply, if_neg hne]
    exact hold
  obtain ⟨phase, received, sent⟩ := x
  cases phase with
  | snapped v₀ =>
    obtain ⟨hle, hacc⟩ := h
    -- the version broadcast is not newer than the snapshot, so nothing needed is lost
    refine ⟨hle, ?_⟩
    intro v' hlt hv'
    have := hwindow v₀ rfl
    exact hpending (by omega) (hacc v' hlt hv')
  | greeted v₀ =>
    obtain ⟨hle, hsent, hacc⟩ := h
    refine ⟨hle, hsent, ?_⟩
    intro v' hlt hv'
    have := hwindow v₀ rfl
    exact hpending (by omega) (hacc v' hlt hv')
  | subscribed v₀ chan =>
    intro hopen
    obtain ⟨hwas, hbuf⟩ := Channel.offer_open hopen
    obtain ⟨hle, hsent, hacc⟩ := h hwas
    refine ⟨hle, hsent, ?_⟩
    intro v' hlt hv'
    change update w.pending v none v' ≠ none ∨
      v' ∈ (chan.offer subscriberBuffer (K.msg snapshot v)).buf.map K.msgVersion ∨
        v' ∈ sent.map K.version
    rw [hbuf, map_append, mem_append, map_singleton, mem_singleton,
      K.msgVersion_msg]
    by_cases hv : v' = v
    · exact .inr (.inl (.inr hv))
    · rcases hacc v' hlt hv' with h₁ | h₂ | h₃
      · exact .inl (hpending hv h₁)
      · exact .inr (.inl (.inl h₂))
      · exact .inr (.inr h₃)
  | ended => trivial

theorem LocalMove.accounts {x₀ : Option (Local M U)} {x : Local M U}
    (h : LocalMove K w.ledger x₀ x) (hacc : ∀ y, x₀ = some y → y.Accounts K w) :
    x.Accounts K w := by
  cases h with
  | snapshot =>
    refine ⟨Nat.le_refl _, ?_⟩
    intro v hlt hv
    change w.ledger.version < v at hlt
    omega
  | greet u hu =>
    obtain ⟨hle, hdue⟩ := hacc _ rfl
    refine ⟨hle, ?_, hdue⟩
    show _ ∈ map K.version (_ ++ [u])
    rw [map_append, map_singleton, hu]
    exact mem_append_right _ (mem_singleton.mpr rfl)
  | subscribe =>
    obtain ⟨hle, hsent, hdue⟩ := hacc _ rfl
    intro _
    exact ⟨hle, hsent, fun v hlt hv => .inl (hdue v hlt hv)⟩
  | receive m buf closed u hu =>
    intro hopen
    obtain ⟨hle, hsent, hdue⟩ := hacc _ rfl hopen
    have hgrow : ∀ {v sent}, v ∈ map K.version sent →
        v ∈ map K.version (sent ++ [u]) := by
      intro v sent hv
      rw [map_append]
      exact mem_append_left _ hv
    refine ⟨hle, hgrow hsent, ?_⟩
    intro v hlt hv
    rcases hdue v hlt hv with h₁ | h₂ | h₃
    · exact .inl h₁
    · rw [map_cons, mem_cons] at h₂
      rcases h₂ with rfl | h₂
      · right
        right
        show _ ∈ map K.version (_ ++ [u])
        rw [map_append, map_singleton, hu]
        exact mem_append_right _ (mem_singleton.mpr rfl)
      · exact .inr (.inl h₂)
    · exact .inr (.inr (hgrow h₃))
  | lose m buf closed => trivial
  | hangUp y => trivial

theorem View.Move.accounts (hm : View.Move K C w w')
    (h : ∀ sid x, w.locals sid = some x → x.Accounts K w)
    (hc : ∀ v, C v → ∀ sid x v₀, w.locals sid = some x → x.phase.window = some v₀ → v ≤ v₀) :
    ∀ sid x, w'.locals sid = some x → x.Accounts K w' := by
  cases hm with
  | idle => exact h
  | commit l hl =>
    intro sid x hx
    exact (h sid x hx).commit hl
  | publish v snapshot hv hcv =>
    intro sid x hx
    obtain ⟨y, hy, rfl⟩ := Option.map_eq_some_iff.mp hx
    exact (h sid y hy).publish fun v₀ hv₀ => hc v hcv sid y v₀ hy hv₀
  | serve sid x hx =>
    intro sid' y hy
    dsimp only at hy
    rw [update_apply] at hy
    split at hy
    · cases hy
      exact hx.accounts fun z hz => h sid z hz
    · exact h sid' y hy

end Views

/-! ## Runs of the system -/

def Phase.window : Phase → Option Nat
  | .snapped _ v => some v
  | .greeted v => some v
  | _ => none

/-- No broadcast newer than the snapshot of a handler that has not subscribed yet. -/
def FanoutStep.OutsideWindows (s : Fanout) : FanoutStep → Prop
  | .fanOwnership v =>
    ∀ (sid : Nat) (st : Stream Unit OwnershipUpdateMsg OwnershipUpdate) (v₀ : Nat),
    s.ownership.streams[sid]? = some st → st.phase.window = some v₀ → v ≤ v₀
  | .fanPeerList v =>
    ∀ (sid : Nat) (st : Stream String PeerListUpdateMsg PeerListUpdate) (v₀ : Nat),
    s.peerList.streams[sid]? = some st → st.phase.window = some v₀ → v ≤ v₀
  | _ => True

/-- Subscribed handlers with an open, empty channel have sent the current version. -/
def CaughtUp {A M U : Type} (K : StreamKind A M U) (l : Ledger) (s : Service A M U) : Prop :=
  ∀ (sid : Nat) (st : Stream A M U) (v : Nat) (id : String) (c : Channel M),
    s.streams[sid]? = some st → st.phase = .subscribed v id →
    s.bcast.subscribers[id]? = some c → c.closed = false → c.buf = [] →
    ∃ u ∈ st.sent, K.version u = l.version

/-- With no listener call under way, all handlers have caught up. -/
def NoLostUpdate (s : Fanout) : Prop :=
  s.flights = ∅ →
    CaughtUp ownershipKind s.ledger s.ownership ∧ CaughtUp peerListKind s.ledger s.peerList

structure Accounted (s : Fanout) : Prop where
  ownership : ∀ sid x, s.ownershipView.locals sid = some x →
    x.Accounts ownershipKind s.ownershipView
  peerList : ∀ sid x, s.peerListView.locals sid = some x → x.Accounts peerListKind s.peerListView

theorem Accounted.init : Accounted fanout.init := by
  refine ⟨?_, ?_⟩ <;> intro sid x hx <;>
    simp [ownershipView, peerListView, Service.locals, fanout] at hx

theorem Service.window_of_locals {A M U : Type} {s : Service A M U} {sid v₀ : Nat}
    {x : Local M U} (hx : s.locals sid = some x) (hv : x.phase.window = some v₀) :
    ∃ st, s.streams[sid]? = some st ∧ st.phase.window = some v₀ := by
  obtain ⟨st, hst, rfl⟩ := Option.map_eq_some_iff.mp hx
  refine ⟨st, hst, ?_⟩
  unfold Service.localOf at hv
  cases hp : st.phase <;> rw [hp] at hv <;> exact hv

theorem Accounted.step {s t : Fanout} {a : FanoutStep} (hs : s.WF) (h : Accounted s)
    (hc : a.OutsideWindows s) (hstep : fanout.step s a = some t) : Accounted t := by
  have hview := step_view hs hstep
  refine ⟨hview.ownership.accounts h.ownership ?_, hview.peerList.accounts h.peerList ?_⟩
  · rintro v rfl sid x v₀ hx hv₀
    obtain ⟨st, hst, hwin⟩ := Service.window_of_locals hx hv₀
    exact hc sid st v₀ hst hwin
  · rintro v rfl sid x v₀ hx hv₀
    obtain ⟨st, hst, hwin⟩ := Service.window_of_locals hx hv₀
    exact hc sid st v₀ hst hwin

theorem caughtUp_of_accounts {A M U : Type} {K : StreamKind A M U} {s : Service A M U}
    {w : View M U} (hlocals : w.locals = s.locals) (hnone : ∀ v, w.pending v = none)
    (h : ∀ sid x, w.locals sid = some x → x.Accounts K w) : CaughtUp K w.ledger s := by
  intro sid st v₀ id c hst hp hc hopen hbuf
  have hx : w.locals sid = some ⟨.subscribed v₀ c, st.received, st.sent⟩ := by
    rw [hlocals, Service.locals_of_getElem? hst, Service.localOf, hp]
    show some (Local.mk (.subscribed v₀ ((s.bcast.subscribers[id]?).getD {})) _ _) = _
    rw [hc]
    rfl
  obtain ⟨hle, hsent, hacc⟩ := h sid _ hx hopen
  have hin : w.ledger.version ∈ st.sent.map K.version := by
    by_cases hcur : v₀ = w.ledger.version
    · exact hcur ▸ hsent
    · rcases hacc w.ledger.version (by omega) (Nat.le_refl _) with h₁ | h₂ | h₃
      · exact absurd (hnone _) h₁
      · rw [hbuf] at h₂; cases h₂
      · exact h₃
  obtain ⟨u, hu, hv⟩ := mem_map.mp hin
  exact ⟨u, hu, hv⟩

theorem Accounted.noLostUpdate {s : Fanout} (h : Accounted s) : NoLostUpdate s := by
  intro hflights
  refine ⟨caughtUp_of_accounts (w := s.ownershipView) rfl ?_ h.ownership,
    caughtUp_of_accounts (w := s.peerListView) rfl ?_ h.peerList⟩
  · intro v
    simp [ownershipView, hflights]
  · intro v
    simp [peerListView, hflights]

/-- **Streams catch up** in every run in which no broadcast falls into a handler's window with a
version newer than its snapshot. -/
theorem noLostUpdate_throughout {ls : List FanoutStep}
    (h : fanout.Along (fun s a => a.OutsideWindows s) fanout.init ls) :
    fanout.Throughout NoLostUpdate fanout.init ls := by
  have hacc : fanout.Throughout Accounted fanout.init ls := by
    refine throughout_of_along (J := WF) ?_ ?_ WF.init Accounted.init h
    · intro s a t hs hstep
      exact (step_view hs hstep).wf
    · intro s a t hs hi hc hstep
      exact hi.step hs hc hstep
  exact hacc.imp fun s hs => hs.noLostUpdate

/-- The theorem at a run in which the mutation comes before the stream. -/
theorem noLostUpdate_mutation_first :
    fanout.Throughout NoLostUpdate fanout.init
      [.reassign 1 "10.0.0.1" "" "m" "register" false, .fanOwnership 1, .fanPeerList 1,
        .peerList (.snapshot 0 "c"), .peerList (.greet 0 true), .peerList (.subscribe 0)] := by
  refine noLostUpdate_throughout ⟨trivial, ?_⟩
  intro s₁ h₁
  cases h₁
  refine ⟨?_, ?_⟩
  · intro sid st v₀ hst
    change (∅ : OMap Nat _)[sid]? = some st at hst
    simp at hst
  intro s₂ h₂
  cases h₂
  refine ⟨?_, ?_⟩
  · intro sid st v₀ hst
    change (∅ : OMap Nat _)[sid]? = some st at hst
    simp at hst
  intro s₃ _
  exact ⟨trivial, fun _ _ => ⟨trivial, fun _ _ => ⟨trivial, fun _ _ => trivial⟩⟩⟩

/-- A mutation made and broadcast between a stream's snapshot and its subscription. -/
theorem update_lost_in_window :
    ∃ (ls : List FanoutStep) (s : Fanout), fanout.exec fanout.init ls = some s ∧
      ¬ NoLostUpdate s := by
  refine ⟨[.peerList (.snapshot 0 "c"), .reassign 1 "10.0.0.1" "" "m" "register" false,
    .fanOwnership 1, .fanPeerList 1, .peerList (.greet 0 true), .peerList (.subscribe 0)],
    _, rfl, ?_⟩
  intro h
  obtain ⟨u, hu, hv⟩ := (h (by rfl)).2 0 _ 0 "1" {} rfl rfl rfl rfl rfl
  revert u
  decide

/-! ## What a subscriber receives -/

section Views

variable {A M U : Type} {K : StreamKind A M U} {C : Nat → Prop} {w w' : View M U}

def Local.seen (x : Local M U) : List M :=
  match x.phase with
  | .subscribed _ chan => x.received ++ chan.buf
  | _ => x.received

theorem Local.received_sublist (x : Local M U) : x.received.Sublist x.seen := by
  unfold seen
  split
  · exact sublist_append_left _ _
  · exact Sublist.refl _

theorem Local.seen_offer (m : M) (x : Local M U) :
    (x.offer m).seen = x.seen ∨ (x.offer m).seen = x.seen ++ [m] := by
  obtain ⟨phase, received, sent⟩ := x
  cases phase with
  | subscribed v chan =>
    show received ++ (chan.offer subscriberBuffer m).buf = received ++ chan.buf ∨
      received ++ (chan.offer subscriberBuffer m).buf = received ++ chan.buf ++ [m]
    rcases chan.offer_buf subscriberBuffer m with h | h <;> rw [h]
    · exact .inl rfl
    · exact .inr (append_assoc _ _ _).symm
  | _ => exact .inl rfl

variable {x : Local M U}

theorem LocalMove.seen_sublist {l : Ledger} {x₀ : Option (Local M U)}
    (h : LocalMove K l x₀ x) : x.seen = [] ∨ ∃ y, x₀ = some y ∧ x.seen.Sublist y.seen := by
  cases h with
  | snapshot => exact .inl rfl
  | greet u hu => exact .inr ⟨_, rfl, Sublist.refl _⟩
  | subscribe =>
    refine .inr ⟨_, rfl, ?_⟩
    show Sublist (_ ++ []) _
    rw [append_nil]
    exact Sublist.refl _
  | receive m buf closed u hu =>
    refine .inr ⟨_, rfl, ?_⟩
    show Sublist ((_ ++ [m]) ++ buf) (_ ++ m :: buf)
    rw [append_assoc]
    exact Sublist.refl _
  | lose m buf closed =>
    refine .inr ⟨_, rfl, ?_⟩
    show Sublist (_ ++ [m]) (_ ++ m :: buf)
    exact (Sublist.refl _).append ((nil_sublist buf).cons_cons m)
  | hangUp y => exact .inr ⟨y, rfl, y.received_sublist⟩

theorem View.Move.ledger (h : View.Move K C w w') :
    w'.ledger = w.ledger ∨ w'.ledger.version = w.ledger.version + 1 := by
  cases h with
  | commit l hl => exact .inr hl
  | _ => exact .inl rfl

/-! ## No version twice, and the right content -/

structure Delivers (K : StreamKind A M U) (At : Nat → List OwnershipEntry → Prop)
    (w : View M U) : Prop where
  due : ∀ {v snapshot}, w.pending v = some snapshot → v ≤ w.ledger.version ∧ At v snapshot
  nodup : ∀ {sid x}, w.locals sid = some x → (x.seen.map K.msgVersion).Nodup
  done : ∀ {sid x m}, w.locals sid = some x → m ∈ x.seen →
    At (K.msgVersion m) (K.msgSnapshot m) ∧ K.msgVersion m ≤ w.ledger.version ∧
      w.pending (K.msgVersion m) = none

theorem Delivers.mono {At At' : Nat → List OwnershipEntry → Prop}
    (h : Delivers K At w) (hat : ∀ v snapshot, At v snapshot → At' v snapshot) :
    Delivers K At' w where
  due hv := ⟨(h.due hv).1, hat _ _ (h.due hv).2⟩
  nodup := h.nodup
  done hx hm := ⟨hat _ _ (h.done hx hm).1, (h.done hx hm).2⟩

theorem Local.mem_seen_offer {m m' : M} (h : m ∈ (x.offer m').seen) : m ∈ x.seen ∨ m = m' := by
  rcases x.seen_offer m' with heq | heq <;> rw [heq] at h
  · exact .inl h
  · exact (mem_append.mp h).imp_right mem_singleton.mp

theorem seen_serve {sid sid' : Nat} {x y : Local M U} (hx : LocalMove K w.ledger (w.locals sid) x)
    (hy : update w.locals sid (some x) sid' = some y) :
    y.seen = [] ∨ ∃ k z, w.locals k = some z ∧ y.seen.Sublist z.seen := by
  rw [update_apply] at hy
  split at hy
  · cases hy
    rcases hx.seen_sublist with hnil | ⟨z, hz, hsub⟩
    · exact .inl hnil
    · exact .inr ⟨sid, z, hz, hsub⟩
  · exact .inr ⟨sid', y, hy, Sublist.refl _⟩

variable {At : Nat → List OwnershipEntry → Prop}

theorem Delivers.move (h : Delivers K At w)
    (hm : View.Move K C w w') (hat : At w'.ledger.version w'.ledger.snapshot) :
    Delivers K At w' := by
  cases hm with
  | idle => exact h
  | commit l hl =>
    refine ⟨?_, h.nodup, ?_⟩
    · intro v snapshot hv
      dsimp only at hv
      rw [update_apply] at hv
      split at hv
      · next heq => cases hv; subst heq; exact ⟨Nat.le_refl _, hat⟩
      · obtain ⟨hle, hat'⟩ := h.due hv
        exact ⟨by show v ≤ l.version; omega, hat'⟩
    · intro sid x m hx hmem
      obtain ⟨hat', hle, hnone⟩ := h.done hx hmem
      refine ⟨hat', by show _ ≤ l.version; omega, ?_⟩
      show update w.pending _ _ _ = none
      rw [update_apply, if_neg (by omega)]
      exact hnone
  | publish v snapshot hv hc =>
    -- nobody has seen the version: it is still due
    have hnew : ∀ {sid x}, w.locals sid = some x → v ∉ x.seen.map K.msgVersion := by
      intro sid x hx hmem
      obtain ⟨m, hm, rfl⟩ := mem_map.mp hmem
      rw [(h.done hx hm).2.2] at hv
      cases hv
    refine ⟨?_, ?_, ?_⟩
    · intro v' snapshot' hv'
      dsimp only at hv'
      rw [update_apply] at hv'
      split at hv'
      · cases hv'
      · exact h.due hv'
    · intro sid x hx
      obtain ⟨y, hy, rfl⟩ := Option.map_eq_some_iff.mp hx
      rcases y.seen_offer (K.msg snapshot v) with heq | heq <;> rw [heq]
      · exact h.nodup hy
      · rw [map_append, nodup_append]
        refine ⟨h.nodup hy, by simp, ?_⟩
        intro a ha b hb
        rw [map_singleton, mem_singleton, K.msgVersion_msg] at hb
        rintro rfl
        exact hnew hy (hb ▸ ha)
    · intro sid x m hx hmem
      obtain ⟨y, hy, rfl⟩ := Option.map_eq_some_iff.mp hx
      rcases Local.mem_seen_offer hmem with hold | rfl
      · obtain ⟨hat', hle, hnone⟩ := h.done hy hold
        refine ⟨hat', hle, ?_⟩
        show update w.pending _ _ _ = none
        rw [update_apply]
        split
        · rfl
        · exact hnone
      · rw [K.msgVersion_msg, K.msgSnapshot_msg]
        exact ⟨(h.due hv).2, (h.due hv).1, update_self _ _ _⟩
  | serve sid x hx =>
    refine ⟨h.due, ?_, ?_⟩
    · intro sid' y hy
      rcases seen_serve hx hy with hnil | ⟨k, z, hz, hsub⟩
      · rw [hnil]; exact nodup_nil
      · exact (h.nodup hz).sublist (hsub.map _)
    · intro sid' y m hy hmem
      rcases seen_serve hx hy with hnil | ⟨k, z, hz, hsub⟩
      · rw [hnil] at hmem; cases hmem
      · exact h.done hz (hsub.subset hmem)

/-! ## Increasing, if the calls do not overtake each other -/

structure Ordered (K : StreamKind A M U) (w : View M U) : Prop where
  sorted : ∀ {sid x}, w.locals sid = some x → (x.seen.map K.msgVersion).Pairwise (· < ·)
  before : ∀ {sid x m v}, w.locals sid = some x → m ∈ x.seen → w.pending v ≠ none →
    K.msgVersion m < v

theorem Ordered.move (h : Ordered K w) (hd : Delivers K At w) (hm : View.Move K C w w')
    (hc : ∀ v, C v → ∀ v', w.pending v' ≠ none → v ≤ v') : Ordered K w' := by
  cases hm with
  | idle => exact h
  | commit l hl =>
    refine ⟨h.sorted, ?_⟩
    intro sid x m v hx hmem hv
    dsimp only at hv
    rw [update_apply] at hv
    split at hv
    · next heq =>
        -- the new version is larger than any that was seen
        have := (hd.done hx hmem).2.1
        omega
    · exact h.before hx hmem hv
  | publish v snapshot hv hcv =>
    have hv' : w.pending v ≠ none := by rw [hv]; simp
    refine ⟨?_, ?_⟩
    · intro sid x hx
      obtain ⟨y, hy, rfl⟩ := Option.map_eq_some_iff.mp hx
      rcases y.seen_offer (K.msg snapshot v) with heq | heq <;> rw [heq]
      · exact h.sorted hy
      · rw [map_append, pairwise_append]
        refine ⟨h.sorted hy, by simp, ?_⟩
        intro a ha b hb
        obtain ⟨m, hm, rfl⟩ := mem_map.mp ha
        rw [map_singleton, mem_singleton, K.msgVersion_msg] at hb
        rw [hb]
        exact h.before hy hm hv'
    · intro sid x m v₁ hx hmem hv₁
      obtain ⟨y, hy, rfl⟩ := Option.map_eq_some_iff.mp hx
      dsimp only at hv₁
      rw [update_apply] at hv₁
      split at hv₁
      · exact absurd rfl hv₁
      next hne =>
      rcases Local.mem_seen_offer hmem with hold | rfl
      · exact h.before hy hold hv₁
      · -- the version just broadcast was the oldest one due
        rw [K.msgVersion_msg]
        have := hc v hcv v₁ hv₁
        omega
  | serve sid x hx =>
    refine ⟨?_, ?_⟩
    · intro sid' y hy
      rcases seen_serve hx hy with hnil | ⟨k, z, hz, hsub⟩
      · rw [hnil]; exact Pairwise.nil
      · exact (h.sorted hz).sublist (hsub.map _)
    · intro sid' y m v hy hmem hv
      rcases seen_serve hx hy with hnil | ⟨k, z, hz, hsub⟩
      · rw [hnil] at hmem; cases hmem
      · exact h.before hz (hsub.subset hmem) hv

end Views

/-! ## Runs of the system -/

def HadContent (ls : List FanoutStep) (v : Nat) (snapshot : List OwnershipEntry) : Prop :=
  ∃ t, fanout.Visits fanout.init ls t ∧ t.ledger.version = v ∧ t.ledger.snapshot = snapshot

/-- No listener call overtakes an earlier one. -/
def FanoutStep.InOrder (s : Fanout) : FanoutStep → Prop
  | .fanOwnership v => ∀ v' f, s.flights[v']? = some f → f.ownershipDone = false → v ≤ v'
  | .fanPeerList v => ∀ v' f, s.flights[v']? = some f → v ≤ v'
  | _ => True

structure OneLedgerPerVersion (ls : List FanoutStep) (s : Fanout) : Prop where
  le : ∀ {t}, fanout.Visits fanout.init ls t → t.ledger.version ≤ s.ledger.version
  unique : ∀ {t t'}, fanout.Visits fanout.init ls t → fanout.Visits fanout.init ls t' →
    t.ledger.version = t'.ledger.version → t.ledger = t'.ledger

variable {ls : List FanoutStep} {a : FanoutStep}

theorem OneLedgerPerVersion.step {s t : Fanout}
    (h : OneLedgerPerVersion ls s) (hrun : fanout.exec fanout.init ls = some s)
    (hstep : fanout.step s a = some t)
    (hledger : t.ledger = s.ledger ∨ t.ledger.version = s.ledger.version + 1) :
    OneLedgerPerVersion (ls ++ [a]) t := by
  have hs : fanout.Visits fanout.init ls s := Visits.self hrun
  have ht : ∀ {u}, fanout.Visits fanout.init (ls ++ [a]) u →
      fanout.Visits fanout.init ls u ∨ u = t := by
    intro u hu
    rcases visits_concat_iff.mp hu with hold | hnew
    · exact .inl hold
    · rw [exec_concat.mpr ⟨s, hrun, hstep⟩] at hnew
      exact .inr (Option.some.inj hnew).symm
  -- an old state with the version of the new one has its ledger
  have hold : ∀ {u}, fanout.Visits fanout.init ls u → u.ledger.version = t.ledger.version →
      u.ledger = t.ledger := by
    intro u hu hv
    rcases hledger with heq | hsucc
    · rw [heq] at hv ⊢
      exact h.unique hu hs hv
    · have := h.le hu
      omega
  refine ⟨?_, ?_⟩
  · intro u hu
    rcases ht hu with hu | rfl
    · have := h.le hu
      rcases hledger with heq | hsucc
      · rw [heq]; exact this
      · omega
    · exact Nat.le_refl _
  · intro u u' hu hu' hv
    rcases ht hu with hu | rfl <;> rcases ht hu' with hu' | rfl
    · exact h.unique hu hu' hv
    · exact hold hu hv
    · exact (hold hu' hv.symm).symm
    · rfl

structure RunDelivers (ls : List FanoutStep) (s : Fanout) : Prop where
  wf : s.WF
  history : OneLedgerPerVersion ls s
  ownership : Delivers ownershipKind (HadContent ls) s.ownershipView
  peerList : Delivers peerListKind (HadContent ls) s.peerListView
  ordered : fanout.Along (fun s a => a.InOrder s) fanout.init ls →
    Ordered ownershipKind s.ownershipView ∧ Ordered peerListKind s.peerListView

theorem RunDelivers.init : RunDelivers [] fanout.init := by
  have hvisits : ∀ {t}, fanout.Visits fanout.init [] t → t = fanout.init := by
    rintro t ⟨pre, post, hnil, hpre⟩
    rw [(append_eq_nil_iff.mp hnil.symm).1] at hpre
    exact (Option.some.inj hpre).symm
  refine ⟨WF.init, ⟨?_, ?_⟩, ⟨?_, ?_, ?_⟩, ⟨?_, ?_, ?_⟩, fun _ => ⟨⟨?_, ?_⟩, ⟨?_, ?_⟩⟩⟩
  · intro t ht
    rw [hvisits ht]
  · intro t t' ht ht' _
    rw [hvisits ht, hvisits ht']
  all_goals
    intros
    simp_all [ownershipView, peerListView, Service.locals, fanout]

theorem RunDelivers.step {s t : Fanout}
    (h : RunDelivers ls s) (hrun : fanout.exec fanout.init ls = some s)
    (hstep : fanout.step s a = some t) : RunDelivers (ls ++ [a]) t := by
  have hview := step_view h.wf hstep
  have hnow : HadContent (ls ++ [a]) t.ledger.version t.ledger.snapshot :=
    ⟨t, Visits.self (exec_concat.mpr ⟨s, hrun, hstep⟩), rfl, rfl⟩
  have hmono : ∀ v snapshot, HadContent ls v snapshot → HadContent (ls ++ [a]) v snapshot := by
    rintro v snapshot ⟨u, hu, hv, hsnap⟩
    exact ⟨u, hu.concat a, hv, hsnap⟩
  have ho := h.ownership.mono hmono
  have hp := h.peerList.mono hmono
  refine ⟨hview.wf, h.history.step hrun hstep hview.ownership.ledger,
    ho.move hview.ownership hnow, hp.move hview.peerList hnow, ?_⟩
  intro hin
  obtain ⟨hls, ha⟩ := (along_concat_iff hrun).mp hin
  obtain ⟨hoo, hpo⟩ := h.ordered hls
  refine ⟨hoo.move ho hview.ownership ?_, hpo.move hp hview.peerList ?_⟩
  · rintro v rfl v' hv'
    cases hf : s.flights[v']? with
    | none => simp [ownershipView, hf] at hv'
    | some f =>
      apply ha v' f hf
      by_contra hdone
      simp [ownershipView, hf, hdone] at hv'
  · rintro v rfl v' hv'
    cases hf : s.flights[v']? with
    | none => simp [peerListView, hf] at hv'
    | some f => exact ha v' f hf

variable {s : Fanout}

theorem RunDelivers.of_exec
    (h : fanout.exec fanout.init ls = some s) : RunDelivers ls s := by
  refine exec_invariant (I := RunDelivers) RunDelivers.init ?_ h
  intro ls s a t hrun hs hstep
  exact hs.step hrun hstep

/-- No version twice, each with the content it had, and in order unless calls overtake. -/
structure ReceivedInRun {A M U : Type} (K : StreamKind A M U) (ls : List FanoutStep)
    (received : List M) : Prop where
  nodup : (received.map K.msgVersion).Nodup
  passed : ∀ m ∈ received, ∃ t, fanout.Visits fanout.init ls t ∧ t.ledger.version = K.msgVersion m
  content : ∀ m ∈ received, ∀ t, fanout.Visits fanout.init ls t →
    t.ledger.version = K.msgVersion m → t.ledger.snapshot = K.msgSnapshot m
  increasing : fanout.Along (fun s a => a.InOrder s) fanout.init ls →
    (received.map K.msgVersion).Pairwise (· < ·)

theorem Delivers.receivedInRun {A M U : Type} {K : StreamKind A M U} {w : View M U} {sid : Nat}
    {x : Local M U} (h : Delivers K (HadContent ls) w)
    (hone : OneLedgerPerVersion ls s)
    (hord : fanout.Along (fun s a => a.InOrder s) fanout.init ls → Ordered K w)
    (hx : w.locals sid = some x) : ReceivedInRun K ls x.received := by
  have hsub := x.received_sublist
  refine ⟨(h.nodup hx).sublist (hsub.map _), ?_, ?_, ?_⟩
  · intro m hm
    obtain ⟨t, ht, hv, -⟩ := (h.done hx (hsub.subset hm)).1
    exact ⟨t, ht, hv⟩
  · intro m hm t ht hv
    obtain ⟨t', ht', hv', hsnap⟩ := (h.done hx (hsub.subset hm)).1
    rw [hone.unique ht ht' (hv.trans hv'.symm)]
    exact hsnap
  · intro hin
    exact ((hord hin).sorted hx).sublist (hsub.map _)

/-- **What the subscribers of a run have received.** -/
theorem received_in_run {ls : List FanoutStep} {s : Fanout}
    (h : fanout.exec fanout.init ls = some s) :
    (∀ (sid : Nat) (st : Stream Unit OwnershipUpdateMsg OwnershipUpdate),
      s.ownership.streams[sid]? = some st → ReceivedInRun ownershipKind ls st.received) ∧
    ∀ (sid : Nat) (st : Stream String PeerListUpdateMsg PeerListUpdate),
      s.peerList.streams[sid]? = some st → ReceivedInRun peerListKind ls st.received := by
  have hr := RunDelivers.of_exec h
  refine ⟨?_, ?_⟩
  · intro sid st hst
    exact hr.ownership.receivedInRun hr.history (fun hin => (hr.ordered hin).1)
      (Service.locals_of_getElem? hst)
  · intro sid st hst
    exact hr.peerList.receivedInRun hr.history (fun hin => (hr.ordered hin).2)
      (Service.locals_of_getElem? hst)

def overtakingRun : List FanoutStep :=
  [.ownership (.snapshot 0 ()), .ownership (.greet 0 true), .ownership (.subscribe 0),
    .reassign 1 "10.0.0.1" "" "m" "register" false, .reassign 2 "10.0.0.2" "" "m" "register" false,
    .fanOwnership 2, .fanOwnership 1, .ownership (.receive 0 true), .ownership (.receive 0 true)]

/-- The theorem at that run. -/
theorem received_in_overtakingRun :
    ∃ s, fanout.exec fanout.init overtakingRun = some s ∧
      (∀ (sid : Nat) (st : Stream Unit OwnershipUpdateMsg OwnershipUpdate),
        s.ownership.streams[sid]? = some st →
          ReceivedInRun ownershipKind overtakingRun st.received) ∧
      ∀ (sid : Nat) (st : Stream String PeerListUpdateMsg PeerListUpdate),
        s.peerList.streams[sid]? = some st → ReceivedInRun peerListKind overtakingRun st.received :=
  ⟨_, rfl, received_in_run rfl⟩

/-- There the subscriber receives version 2 and then version 1. -/
theorem versions_decrease_in_overtakingRun :
    ∃ (s : Fanout) (st : Stream Unit OwnershipUpdateMsg OwnershipUpdate),
      fanout.exec fanout.init overtakingRun = some s ∧ s.ownership.streams[0]? = some st ∧
      ¬ (st.received.map OwnershipUpdateMsg.version).Pairwise (· < ·) :=
  ⟨_, _, rfl, rfl, by decide⟩

end AwgMesh.ControlPlane
