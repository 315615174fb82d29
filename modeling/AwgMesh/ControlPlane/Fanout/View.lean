import AwgMesh.ControlPlane.PeerList

/-!
# The fan-out of ledger mutations

`pkg/control_plane/fanout.go`, the listener `NewServer` installs, and the two stream handlers
`StreamPeerList` and `StreamOwnership`.
-/

namespace AwgMesh.ControlPlane

open Lib OMap Function

/-! ## Broadcasters -/

def subscriberBuffer : Nat := 8

def idDigit (d : Nat) : Char := "0123456789abcdefghijklmnopqrstuvwxyz".toList.getD d '0'

/-- The digits of `n` in base 36. The loop of the source does not run for a negative `n`. -/
def idString (n : Int) : String :=
  if n = 0 then "0" else String.ofList ((Nat.digits 36 n.toNat).reverse.map idDigit)

/-- `nextID` is an unbounded integer here: the `int` of the source wraps, on a 32-bit build after
`2 ^ 31` subscriptions, and such runs are left out. -/
structure Broadcaster (M : Type) where
  subscribers : Hub String M := ∅
  nextID : Int := 0
  nextID_nonneg : 0 ≤ nextID := by omega

namespace Broadcaster

variable {M : Type}

def subscribe (b : Broadcaster M) : Broadcaster M × String :=
  let id := idString (b.nextID + 1)
  ({ subscribers := b.subscribers.insert id {}
     nextID := b.nextID + 1
     nextID_nonneg := Int.le_add_one b.nextID_nonneg }, id)

def cancel (b : Broadcaster M) (id : String) : Broadcaster M :=
  { b with subscribers := Hub.shut b.subscribers id }

def broadcast (b : Broadcaster M) (msg : M) : Broadcaster M :=
  { b with subscribers := Hub.publish b.subscribers subscriberBuffer msg }

end Broadcaster

structure PeerListUpdateMsg where
  subjectNode : String := ""
  snapshot : List OwnershipEntry := []
  version : Nat := 0

structure OwnershipUpdateMsg where
  entries : List OwnershipEntry := []
  version : Nat := 0
  fullSnapshot : Bool := false

/-! ## Stream handlers -/

structure StreamKind (A M U : Type) where
  accepts : A → Bool
  msg : List OwnershipEntry → Nat → M
  first : Registry → A → List OwnershipEntry → Nat → U
  next : Registry → A → M → U
  msgSnapshot : M → List OwnershipEntry
  msgVersion : M → Nat
  version : U → Nat
  msgSnapshot_msg : ∀ snapshot v, msgSnapshot (msg snapshot v) = snapshot
  msgVersion_msg : ∀ snapshot v, msgVersion (msg snapshot v) = v
  version_first : ∀ r a snapshot v, version (first r a snapshot v) = v
  version_next : ∀ r a m, version (next r a m) = msgVersion m

def peerListKind : StreamKind String PeerListUpdateMsg PeerListUpdate where
  accepts subject := subject ≠ ""
  msg snapshot v := { snapshot := snapshot, version := v }
  first r subject snapshot v := buildPeerListUpdate r subject snapshot v
  next r subject m := buildPeerListUpdate r subject m.snapshot m.version
  msgSnapshot := PeerListUpdateMsg.snapshot
  msgVersion := PeerListUpdateMsg.version
  version := PeerListUpdate.version
  msgSnapshot_msg _ _ := rfl
  msgVersion_msg _ _ := rfl
  version_first _ _ _ _ := rfl
  version_next _ _ _ := rfl

def ownershipKind : StreamKind Unit OwnershipUpdateMsg OwnershipUpdate where
  accepts _ := true
  msg snapshot v := { entries := snapshot, version := v }
  first _ _ snapshot v :=
    { entries := ownershipToProto snapshot, version := v, fullSnapshot := true }
  next _ _ m :=
    { entries := ownershipToProto m.entries, version := m.version, fullSnapshot := m.fullSnapshot }
  msgSnapshot := OwnershipUpdateMsg.entries
  msgVersion := OwnershipUpdateMsg.version
  version := OwnershipUpdate.version
  msgSnapshot_msg _ _ := rfl
  msgVersion_msg _ _ := rfl
  version_first _ _ _ _ := rfl
  version_next _ _ _ := rfl

inductive Phase where
  | snapped (snapshot : List OwnershipEntry) (version : Nat)
  | greeted (version : Nat)
  | subscribed (version : Nat) (id : String)
  | ended

structure Stream (A M U : Type) where
  arg : A
  phase : Phase
  received : List M := []
  sent : List U := []

structure Service (A M U : Type) where
  bcast : Broadcaster M := {}
  streams : OMap Nat (Stream A M U) := ∅

inductive StreamStep (A : Type) where
  | snapshot (sid : Nat) (arg : A)
  | greet (sid : Nat) (ok : Bool)
  | subscribe (sid : Nat)
  | receive (sid : Nat) (ok : Bool)
  | finish (sid : Nat)

namespace Service

variable {A M U : Type}

def put (s : Service A M U) (sid : Nat) (st : Stream A M U) : Service A M U :=
  { s with streams := s.streams.insert sid st }

def hangUp (s : Service A M U) (sid : Nat) (st : Stream A M U) (id : String) : Service A M U :=
  { bcast := s.bcast.cancel id
    streams := s.streams.insert sid { st with phase := .ended } }

def receive (K : StreamKind A M U) (r : Registry) (s : Service A M U) (sid : Nat)
    (st : Stream A M U) (id : String) (ok : Bool) : Option (Service A M U) :=
  match Hub.take s.bcast.subscribers id with
  | some (m, subscribers) =>
    let s := { s with bcast := { s.bcast with subscribers := subscribers } }
    let st := { st with received := st.received ++ [m] }
    if ok then some (s.put sid { st with sent := st.sent ++ [K.next r st.arg m] })
    else some (s.hangUp sid st id)
  | none =>
    match s.bcast.subscribers[id]? with
    | none => none
    | some c => if c.closed then some (s.hangUp sid st id) else none

def step (K : StreamKind A M U) (r : Registry) (l : Ledger) (s : Service A M U) :
    StreamStep A → Option (Service A M U)
  | .snapshot sid arg =>
    if s.streams[sid]?.isSome || !K.accepts arg then none
    else some (s.put sid { arg := arg, phase := .snapped l.snapshot l.version })
  | .greet sid ok =>
    match s.streams[sid]? with
    | none => none
    | some st =>
      match st.phase with
      | .snapped snapshot v =>
        if ok then
          some (s.put sid { st with
            phase := .greeted v, sent := st.sent ++ [K.first r st.arg snapshot v] })
        else some (s.put sid { st with phase := .ended })
      | _ => none
  | .subscribe sid =>
    match s.streams[sid]? with
    | none => none
    | some st =>
      match st.phase with
      | .greeted v =>
        let (bcast, id) := s.bcast.subscribe
        some { bcast := bcast
               streams := s.streams.insert sid { st with phase := .subscribed v id } }
      | _ => none
  | .receive sid ok =>
    match s.streams[sid]? with
    | none => none
    | some st =>
      match st.phase with
      | .subscribed _ id => s.receive K r sid st id ok
      | _ => none
  | .finish sid =>
    match s.streams[sid]? with
    | none => none
    | some st =>
      match st.phase with
      | .subscribed _ id => some (s.hangUp sid st id)
      | _ => none

end Service

/-! ## The system -/

structure Flight where
  snapshot : List OwnershipEntry
  ownershipDone : Bool := false

structure Fanout where
  registry : Registry := {}
  ledger : Ledger := {}
  flights : OMap Nat Flight := ∅
  ownership : Service Unit OwnershipUpdateMsg OwnershipUpdate := {}
  peerList : Service String PeerListUpdateMsg PeerListUpdate := {}

inductive FanoutStep where
  | reassign (now : Time) (overlayIP expectedOwner newOwner reason : String) (checkOwner : Bool)
  | remove (overlayIP : String)
  | fanOwnership (version : Nat)
  | fanPeerList (version : Nat)
  | registry (r : Registry)
  | ownership (a : StreamStep Unit)
  | peerList (a : StreamStep String)

namespace Fanout

def commit (s : Fanout) (l : Ledger) : Fanout :=
  { s with ledger := l, flights := s.flights.insert l.version { snapshot := l.snapshot } }

def step (s : Fanout) : FanoutStep → Option Fanout
  | .reassign now overlayIP expectedOwner newOwner reason checkOwner =>
    match s.ledger.reassign now overlayIP expectedOwner newOwner reason checkOwner with
    | .error _ => some s
    | .ok (l, _) => some (s.commit l)
  | .remove overlayIP =>
    match s.ledger.remove overlayIP with
    | .error _ => some s
    | .ok l => some (s.commit l)
  | .fanOwnership v =>
    match s.flights[v]? with
    | none => none
    | some f =>
      if f.ownershipDone then none
      else some { s with
        flights := s.flights.insert v { f with ownershipDone := true }
        ownership := { s.ownership with
          bcast := s.ownership.bcast.broadcast (ownershipKind.msg f.snapshot v) } }
  | .fanPeerList v =>
    match s.flights[v]? with
    | none => none
    | some f =>
      if f.ownershipDone then
        some { s with
          flights := s.flights.erase v
          peerList := { s.peerList with
            bcast := s.peerList.bcast.broadcast (peerListKind.msg f.snapshot v) } }
      else none
  | .registry r => some { s with registry := r }
  | .ownership a =>
    (s.ownership.step ownershipKind s.registry s.ledger a).map fun o => { s with ownership := o }
  | .peerList a =>
    (s.peerList.step peerListKind s.registry s.ledger a).map fun p => { s with peerList := p }

end Fanout

def fanout : Machine Fanout FanoutStep where
  init := {}
  step := Fanout.step

/-! ## Subscription ids -/

def idDigitValue (c : Char) : Nat := "0123456789abcdefghijklmnopqrstuvwxyz".toList.idxOf c

theorem idDigitValue_idDigit {d : Nat} (h : d < 36) : idDigitValue (idDigit d) = d := by
  have hall : ∀ d : Fin 36, idDigitValue (idDigit d.val) = d.val := by decide
  exact hall ⟨d, h⟩

theorem idString_inj {a b : Int} (ha : 0 < a) (hb : 0 < b) (h : idString a = idString b) :
    a = b := by
  unfold idString at h
  rw [if_neg (by omega), if_neg (by omega)] at h
  replace h := String.ofList_injective h
  have hinv : ∀ n, ((Nat.digits 36 n).reverse.map idDigit).map idDigitValue =
      (Nat.digits 36 n).reverse := by
    intro n
    have hid : ∀ d ∈ (Nat.digits 36 n).reverse, (idDigitValue ∘ idDigit) d = id d := by
      intro d hd
      exact idDigitValue_idDigit (Nat.digits_lt_base (by omega) (List.mem_reverse.mp hd))
    rw [List.map_map, List.map_congr_left hid, List.map_id]
  have hdigits : (Nat.digits 36 a.toNat).reverse = (Nat.digits 36 b.toNat).reverse := by
    rw [← hinv a.toNat, ← hinv b.toNat, h]
  have := Nat.digits_inj_iff.mp (List.reverse_injective hdigits)
  omega

/-! ## Views -/

inductive LocalPhase (M : Type) where
  | snapped (version : Nat)
  | greeted (version : Nat)
  | subscribed (version : Nat) (chan : Channel M)
  | ended

structure Local (M U : Type) where
  phase : LocalPhase M
  received : List M := []
  sent : List U := []

structure View (M U : Type) where
  ledger : Ledger
  pending : Nat → Option (List OwnershipEntry)
  locals : Nat → Option (Local M U)

section

variable {A M U : Type}

def Local.offer (m : M) (x : Local M U) : Local M U :=
  match x.phase with
  | .subscribed v chan => { x with phase := .subscribed v (chan.offer subscriberBuffer m) }
  | _ => x

inductive LocalMove (K : StreamKind A M U) (l : Ledger) :
    Option (Local M U) → Local M U → Prop where
  | snapshot : LocalMove K l none { phase := .snapped l.version }
  | greet {v : Nat} {received : List M} {sent : List U} (u : U) (hu : K.version u = v) :
      LocalMove K l (some ⟨.snapped v, received, sent⟩) ⟨.greeted v, received, sent ++ [u]⟩
  | subscribe {v : Nat} {received : List M} {sent : List U} :
      LocalMove K l (some ⟨.greeted v, received, sent⟩) ⟨.subscribed v {}, received, sent⟩
  | receive {v : Nat} {received : List M} {sent : List U} (m : M) (buf : List M) (closed : Bool)
      (u : U) (hu : K.version u = K.msgVersion m) :
      LocalMove K l (some ⟨.subscribed v ⟨m :: buf, closed⟩, received, sent⟩)
        ⟨.subscribed v ⟨buf, closed⟩, received ++ [m], sent ++ [u]⟩
  | lose {v : Nat} {received : List M} {sent : List U} (m : M) (buf : List M) (closed : Bool) :
      LocalMove K l (some ⟨.subscribed v ⟨m :: buf, closed⟩, received, sent⟩)
        ⟨.ended, received ++ [m], sent⟩
  | hangUp (x : Local M U) : LocalMove K l (some x) ⟨.ended, x.received, x.sent⟩

/-- The steps of the ledger and one handler; `C` says which versions may be sent. -/
inductive View.Move (K : StreamKind A M U) (C : Nat → Prop) : View M U → View M U → Prop where
  | idle (w : View M U) : Move K C w w
  | commit (w : View M U) (l : Ledger) (hl : l.version = w.ledger.version + 1) :
      Move K C w
        { w with
          ledger := l
          pending := update w.pending l.version (some l.snapshot) }
  | publish (w : View M U) (v : Nat) (snapshot : List OwnershipEntry)
      (hv : w.pending v = some snapshot) (hc : C v) :
      Move K C w
        { w with
          pending := update w.pending v none
          locals := fun sid => (w.locals sid).map (Local.offer (K.msg snapshot v)) }
  | serve (w : View M U) (sid : Nat) (x : Local M U) (hx : LocalMove K w.ledger (w.locals sid) x) :
      Move K C w { w with locals := update w.locals sid (some x) }

/-! ## A service as a family of independent handlers -/

def Service.localPhase (s : Service A M U) : Phase → LocalPhase M
  | .snapped _ v => .snapped v
  | .greeted v => .greeted v
  | .subscribed v id => .subscribed v ((s.bcast.subscribers[id]?).getD {})
  | .ended => .ended

def Service.localOf (s : Service A M U) (st : Stream A M U) : Local M U :=
  ⟨s.localPhase st.phase, st.received, st.sent⟩

def Service.locals (s : Service A M U) (sid : Nat) : Option (Local M U) :=
  (s.streams[sid]?).map s.localOf

structure Service.WF (s : Service A M U) : Prop where
  ids : ∀ {k : String} {c}, s.bcast.subscribers[k]? = some c →
    ∃ n, 0 < n ∧ n ≤ s.bcast.nextID ∧ k = idString n
  backed : ∀ {sid : Nat} {st v id}, s.streams[sid]? = some st → st.phase = .subscribed v id →
    ∃ c, s.bcast.subscribers[id]? = some c
  own : ∀ {sid sid' : Nat} {st st' v v' id}, s.streams[sid]? = some st →
    s.streams[sid']? = some st' → st.phase = .subscribed v id → st'.phase = .subscribed v' id →
    sid = sid'

namespace Service

variable {K : StreamKind A M U} {r : Registry} {l : Ledger} {s s' : Service A M U} {sid : Nat}
  {st st' : Stream A M U}

theorem WF.fresh (hs : s.WF) : s.bcast.subscribers[idString (s.bcast.nextID + 1)]? = none := by
  cases h : s.bcast.subscribers[idString (s.bcast.nextID + 1)]? with
  | none => rfl
  | some c =>
    obtain ⟨n, hpos, hle, heq⟩ := hs.ids h
    have := idString_inj (by omega) hpos heq
    omega

theorem localOf_congr (h : ∀ v id, st.phase = .subscribed v id →
    s'.bcast.subscribers[id]? = s.bcast.subscribers[id]?) : s'.localOf st = s.localOf st := by
  unfold localOf
  cases hp : st.phase with
  | subscribed v id => simp only [localPhase, h v id hp]
  | _ => rfl

variable {b : Broadcaster M}

theorem locals_update
    (hothers : ∀ {sid' : Nat} {st₁ v id}, s.streams[sid']? = some st₁ →
      st₁.phase = .subscribed v id → sid ≠ sid' → b.subscribers[id]? = s.bcast.subscribers[id]?) :
    (⟨b, s.streams.insert sid st'⟩ : Service A M U).locals = update s.locals sid
        (some ((⟨b, s.streams.insert sid st'⟩ : Service A M U).localOf st')) := by
  funext sid'
  unfold locals
  rw [getElem?_insert, update_apply]
  by_cases hsid : sid = sid'
  · rw [if_pos hsid, if_pos hsid.symm]
    rfl
  · rw [if_neg hsid, if_neg (Ne.symm hsid)]
    cases hst : s.streams[sid']? with
    | none => rfl
    | some st₁ =>
      show some _ = some _
      rw [localOf_congr]
      intro v id hp
      exact hothers hst hp hsid

theorem locals_put : (s.put sid st').locals = update s.locals sid (some (s.localOf st')) :=
  locals_update fun _ _ _ => rfl

theorem WF.update (hs : s.WF) (hids : ∀ {k : String} {c}, b.subscribers[k]? = some c →
      ∃ n, 0 < n ∧ n ≤ b.nextID ∧ k = idString n)
    (hkeys : ∀ {k : String} {c}, s.bcast.subscribers[k]? = some c →
      ∃ c', b.subscribers[k]? = some c')
    (hback : ∀ {v id}, st'.phase = .subscribed v id → ∃ c, b.subscribers[id]? = some c)
    (hown : ∀ {sid' : Nat} {st₁ v v' id}, s.streams[sid']? = some st₁ →
      st₁.phase = .subscribed v id → st'.phase = .subscribed v' id → sid' = sid) :
    (⟨b, s.streams.insert sid st'⟩ : Service A M U).WF := by
  refine ⟨hids, ?_, ?_⟩
  · intro sid' st₁ v id hst hp
    simp only [getElem?_insert] at hst
    split at hst
    · cases hst; exact hback hp
    · obtain ⟨c, hc⟩ := hs.backed hst hp
      exact hkeys hc
  · intro sid₁ sid₂ st₁ st₂ v₁ v₂ id h₁ h₂ hp₁ hp₂
    simp only [getElem?_insert] at h₁ h₂
    split at h₁ <;> split at h₂
    · next e₁ e₂ => exact e₁.symm.trans e₂
    · next e₁ _ => cases h₁; exact e₁ ▸ (hown h₂ hp₂ hp₁).symm
    · next _ e₂ => cases h₂; exact e₂ ▸ hown h₁ hp₁ hp₂
    · exact hs.own h₁ h₂ hp₁ hp₂

theorem WF.put (hs : s.WF) (hp : ∀ {v id}, st'.phase ≠ .subscribed v id) : (s.put sid st').WF :=
  hs.update hs.ids (fun h => ⟨_, h⟩) (fun h => absurd h hp) (fun _ _ h => absurd h hp)

variable {id : String}

theorem WF.hangUp (hs : s.WF) : (s.hangUp sid st id).WF := by
  refine hs.update ?_ ?_ (fun h => by cases h) (fun _ _ h => by cases h)
  · intro k c hc
    change (Hub.shut s.bcast.subscribers id)[k]? = some c at hc
    have hsome : (s.bcast.subscribers[k]?).isSome := by
      rw [← Hub.getElem?_shut_isSome (k := id), hc]
      rfl
    obtain ⟨c', hc'⟩ := Option.isSome_iff_exists.mp hsome
    exact hs.ids hc'
  · intro k c hc
    apply Option.isSome_iff_exists.mp
    show ((Hub.shut s.bcast.subscribers id)[k]?).isSome = true
    rw [Hub.getElem?_shut_isSome, hc]
    rfl

variable {v : Nat}

theorem locals_hangUp (hs : s.WF) {st₀ : Stream A M U}
    (hst : s.streams[sid]? = some st₀) (hp : st₀.phase = .subscribed v id) :
    (s.hangUp sid st id).locals =
      update s.locals sid (some ⟨.ended, st.received, st.sent⟩) := by
  apply locals_update
  intro sid' st₁ v' id' hst' hp' hsid
  refine Hub.getElem?_shut_of_ne ?_
  rintro rfl
  exact hsid (hs.own hst hst' hp hp')

theorem locals_of_getElem? (hst : s.streams[sid]? = some st) :
    s.locals sid = some (s.localOf st) := by
  unfold locals
  rw [hst]
  rfl

theorem subscribe_local (hs : s.WF) :
    (⟨s.bcast.subscribe.1, s.streams.insert sid
        { st with phase := .subscribed v s.bcast.subscribe.2 }⟩ : Service A M U).WF ∧
      (⟨s.bcast.subscribe.1, s.streams.insert sid
        { st with phase := .subscribed v s.bcast.subscribe.2 }⟩ : Service A M U).locals =
        update s.locals sid (some ⟨.subscribed v {}, st.received, st.sent⟩) := by
  have hget : ∀ k : String, s.bcast.subscribe.1.subscribers[k]? =
      if idString (s.bcast.nextID + 1) = k then some {} else s.bcast.subscribers[k]? :=
    fun k => getElem?_insert _ _ _ _
  -- ids are not used twice, so the new channel is nobody else's
  have hother : ∀ {k : String} {c}, s.bcast.subscribers[k]? = some c →
      idString (s.bcast.nextID + 1) ≠ k := by
    rintro k c hc rfl
    rw [hs.fresh] at hc
    cases hc
  refine ⟨hs.update ?_ ?_ ?_ ?_, (locals_update ?_).trans ?_⟩
  · intro k c hc
    rw [hget] at hc
    split at hc
    · next hk => exact ⟨_, Int.lt_add_one_of_le s.bcast.nextID_nonneg, le_rfl, hk.symm⟩
    · obtain ⟨n, hpos, hle, hk⟩ := hs.ids hc
      exact ⟨n, hpos, Int.le_add_one hle, hk⟩
  · intro k c hc
    rw [hget, if_neg (hother hc)]
    exact ⟨c, hc⟩
  · intro v' id hp
    cases hp
    exact ⟨{}, by rw [hget]; exact if_pos rfl⟩
  · intro sid' st₁ v₁ v' id hst₁ hp₁ hp
    cases hp
    obtain ⟨c, hc⟩ := hs.backed hst₁ hp₁
    exact absurd rfl (hother hc)
  · intro sid' st₁ v₁ id hst₁ hp₁ _
    obtain ⟨c, hc⟩ := hs.backed hst₁ hp₁
    rw [hget, if_neg (hother hc)]
  · congr 2
    show Local.mk (.subscribed v ((s.bcast.subscribe.1.subscribers[_]?).getD {})) _ _ = _
    rw [hget, show s.bcast.subscribe.2 = idString (s.bcast.nextID + 1) from rfl, if_pos rfl]
    rfl

theorem WF.take (hs : s.WF) {c : Channel M} (c' : Channel M)
    (hc : s.bcast.subscribers[id]? = some c) :
    ({ s with bcast := { s.bcast with
      subscribers := s.bcast.subscribers.insert id c' } } : Service A M U).WF := by
  refine ⟨?_, ?_, hs.own⟩
  · intro k x hx
    simp only [getElem?_insert] at hx
    split at hx
    · next hk => exact hk ▸ hs.ids hc
    · exact hs.ids hx
  · intro sid' st₁ v₁ id₁ hst₁ hp₁
    simp only [getElem?_insert]
    split
    · exact ⟨c', rfl⟩
    · exact hs.backed hst₁ hp₁

theorem receive_local (hs : s.WF) {ok : Bool}
    (hst : s.streams[sid]? = some st) (hp : st.phase = .subscribed v id)
    (h : s.receive K r sid st id ok = some s') :
    s'.WF ∧ ∃ x, LocalMove K l (s.locals sid) x ∧
      s'.locals = update s.locals sid (some x) := by
  obtain ⟨c, hc⟩ := hs.backed hst hp
  have hlocal : s.locals sid = some ⟨.subscribed v c, st.received, st.sent⟩ := by
    rw [locals_of_getElem? hst, localOf, hp]
    show some (Local.mk (.subscribed v ((s.bcast.subscribers[id]?).getD {})) _ _) = _
    rw [hc]
    rfl
  rw [hlocal]
  unfold receive at h
  split at h
  · next m subscribers htake =>
      obtain ⟨c', buf, hc', hbuf, rfl⟩ := Hub.take_eq_some htake
      rw [hc] at hc'
      cases hc'
      obtain ⟨buf₀, closed⟩ := c
      cases hbuf
      -- each channel has one reader, so taking from it is no one else's business
      have htaken := hs.take ⟨buf, closed⟩ hc
      have hothers : ∀ {sid' : Nat} {st₁ v₁ id₁}, s.streams[sid']? = some st₁ →
          st₁.phase = .subscribed v₁ id₁ → sid ≠ sid' →
          id ≠ id₁ ∧ (s.bcast.subscribers.insert id (⟨buf, closed⟩ : Channel M))[id₁]? =
            s.bcast.subscribers[id₁]? := by
        intro sid' st₁ v₁ id₁ hst₁ hp₁ hne
        have hid : id ≠ id₁ := by
          rintro rfl
          exact hne (hs.own hst hst₁ hp hp₁)
        exact ⟨hid, by rw [getElem?_insert, if_neg hid]⟩
      split at h
      · -- the message is passed on
        cases h
        refine ⟨htaken.update htaken.ids (fun h => ⟨_, h⟩) (fun hp' => htaken.backed hst hp') ?_,
          _, .receive m buf closed (K.next r st.arg m) (K.version_next _ _ _), ?_⟩
        · intro sid' st₁ v₁ v' id₁ hst₁ hp₁ hp'
          exact (htaken.own hst hst₁ hp' hp₁).symm
        · refine (locals_update fun hst₁ hp₁ hne => (hothers hst₁ hp₁ hne).2).trans ?_
          congr 2
          unfold localOf
          rw [hp]
          show Local.mk (.subscribed v (((s.bcast.subscribers.insert id _)[id]?).getD {})) _ _ = _
          rw [getElem?_insert, if_pos rfl]
          rfl
      · -- the send fails, and the handler ends
        cases h
        refine ⟨htaken.hangUp, _, .lose m buf closed, ?_⟩
        show (⟨Broadcaster.cancel { s.bcast with subscribers := s.bcast.subscribers.insert id _ }
          id, s.streams.insert sid ⟨st.arg, .ended, st.received ++ [m], st.sent⟩⟩ :
            Service A M U).locals = _
        apply locals_update
        intro sid' st₁ v₁ id₁ hst₁ hp₁ hne
        obtain ⟨hid, heq⟩ := hothers hst₁ hp₁ hne
        exact (Hub.getElem?_shut_of_ne hid).trans heq
  · split at h
    · cases h
    · split at h
      · cases h
        exact ⟨hs.hangUp, _, .hangUp _, locals_hangUp hs hst hp⟩
      · cases h

theorem WF.step_local (hs : s.WF) {a : StreamStep A} (h : s.step K r l a = some s') :
    s'.WF ∧ ∃ sid x, LocalMove K l (s.locals sid) x ∧
      s'.locals = Function.update s.locals sid (some x) := by
  cases a <;> dsimp only [step] at h
  case snapshot sid arg =>
    split at h
    · cases h
    · next hfree =>
        cases h
        -- a new handler: there was nothing under its number
        have hnone : s.locals sid = none := by
          unfold locals
          cases hst : s.streams[sid]? with
          | none => rfl
          | some st => simp [hst] at hfree
        refine ⟨hs.put (by simp), sid, _, ?_, locals_put⟩
        rw [hnone]
        exact .snapshot
  case greet sid ok =>
    split at h
    · cases h
    next st hst =>
    have hlocal := locals_of_getElem? hst
    split at h
    · next snapshot v hp =>
        rw [localOf, hp] at hlocal
        split at h
        · cases h
          refine ⟨hs.put (by simp), sid, _, ?_, locals_put⟩
          rw [hlocal]
          exact .greet _ (K.version_first _ _ _ _)
        · cases h
          refine ⟨hs.put (by simp), sid, _, ?_, locals_put⟩
          rw [hlocal]
          exact .hangUp _
    · cases h
  case subscribe sid =>
    split at h
    · cases h
    next st hst =>
    have hlocal := locals_of_getElem? hst
    split at h
    · next v hp =>
        rw [localOf, hp] at hlocal
        cases h
        obtain ⟨hwf, heq⟩ := subscribe_local (v := v) hs
        refine ⟨hwf, sid, _, ?_, heq⟩
        rw [hlocal]
        exact .subscribe
    · cases h
  case receive sid ok =>
    split at h
    · cases h
    next st hst =>
    split at h
    · next v id hp =>
        obtain ⟨hwf, x, hx, heq⟩ := receive_local hs hst hp h
        exact ⟨hwf, sid, x, hx, heq⟩
    · cases h
  case finish sid =>
    split at h
    · cases h
    next st hst =>
    split at h
    · next v id hp =>
        cases h
        refine ⟨hs.hangUp, sid, _, ?_, locals_hangUp hs hst hp⟩
        rw [locals_of_getElem? hst]
        exact .hangUp _
    · cases h

theorem WF.broadcast_local (hs : s.WF) (m : M) :
    ({ s with bcast := s.bcast.broadcast m } : Service A M U).WF ∧
      ({ s with bcast := s.bcast.broadcast m } : Service A M U).locals =
        fun sid => (s.locals sid).map (Local.offer m) := by
  have hget : ∀ k : String, (s.bcast.broadcast m).subscribers[k]? =
      (s.bcast.subscribers[k]?).map (·.offer subscriberBuffer m) :=
    fun k => Hub.getElem?_publish _ _ _ _
  refine ⟨⟨?_, ?_, hs.own⟩, ?_⟩
  · intro k c hc
    rw [hget] at hc
    obtain ⟨c₀, hc₀, -⟩ := Option.map_eq_some_iff.mp hc
    exact hs.ids hc₀
  · intro sid st v id hst hp
    obtain ⟨c, hc⟩ := hs.backed hst hp
    exact ⟨_, by rw [hget, hc]; rfl⟩
  · funext sid
    unfold locals
    cases hst : s.streams[sid]? with
    | none => rfl
    | some st =>
      show some _ = some _
      unfold localOf Local.offer
      cases hp : st.phase with
      | subscribed v id =>
        obtain ⟨c, hc⟩ := hs.backed hst hp
        simp only [localPhase, hget, hc]
        rfl
      | _ => rfl

end Service

end

/-! ## The two views of the system -/

namespace Fanout

def ownershipView (s : Fanout) : View OwnershipUpdateMsg OwnershipUpdate where
  ledger := s.ledger
  pending v := (s.flights[v]?).bind fun f => if f.ownershipDone then none else some f.snapshot
  locals := s.ownership.locals

def peerListView (s : Fanout) : View PeerListUpdateMsg PeerListUpdate where
  ledger := s.ledger
  pending v := (s.flights[v]?).map Flight.snapshot
  locals := s.peerList.locals

structure WF (s : Fanout) : Prop where
  ownership : s.ownership.WF
  peerList : s.peerList.WF

theorem WF.init : fanout.init.WF := by
  refine ⟨⟨?_, ?_, ?_⟩, ⟨?_, ?_, ?_⟩⟩ <;> intros <;> simp_all [fanout]

variable {s s' : Fanout} {a : FanoutStep}

theorem ownershipView_commit (s : Fanout) (l : Ledger) :
    (s.commit l).ownershipView =
      { s.ownershipView with
        ledger := l
        pending := update s.ownershipView.pending l.version (some l.snapshot) } := by
  unfold ownershipView commit
  congr 1
  exact comp_insert s.flights _ _
    (·.bind fun f => if f.ownershipDone then none else some f.snapshot)

theorem peerListView_commit (s : Fanout) (l : Ledger) :
    (s.commit l).peerListView =
      { s.peerListView with
        ledger := l
        pending := update s.peerListView.pending l.version (some l.snapshot) } := by
  unfold peerListView commit
  congr 1
  exact comp_insert _ _ _ (Option.map Flight.snapshot)

structure StepView (s s' : Fanout) (a : FanoutStep) : Prop where
  wf : s'.WF
  ownership : View.Move ownershipKind (fun v => a = .fanOwnership v) s.ownershipView
    s'.ownershipView
  peerList : View.Move peerListKind (fun v => a = .fanPeerList v) s.peerListView s'.peerListView

theorem StepView.refl (hs : s.WF) : StepView s s a := ⟨hs, .idle _, .idle _⟩

theorem StepView.commit (hs : s.WF) {l : Ledger} (hl : l.version = s.ledger.version + 1) :
    StepView s (s.commit l) a := by
  refine ⟨⟨hs.ownership, hs.peerList⟩, ?_, ?_⟩
  · rw [ownershipView_commit]
    exact .commit s.ownershipView l hl
  · rw [peerListView_commit]
    exact .commit s.peerListView l hl

variable {v : Nat} {f : Flight}

theorem StepView.fanOwnership (hs : s.WF) (hf : s.flights[v]? = some f)
    (hdone : f.ownershipDone = false) :
    StepView s
      { s with
        flights := s.flights.insert v { f with ownershipDone := true }
        ownership := { s.ownership with
          bcast := s.ownership.bcast.broadcast (ownershipKind.msg f.snapshot v) } }
      (.fanOwnership v) := by
  obtain ⟨hwf, hlocals⟩ := hs.ownership.broadcast_local (ownershipKind.msg f.snapshot v)
  refine ⟨⟨hwf, hs.peerList⟩, ?_, ?_⟩
  · have hv : s.ownershipView.pending v = some f.snapshot := by
      show (s.flights[v]?).bind _ = _
      rw [hf]
      simp [hdone]
    -- what is due for the ownership service is what has not been broadcast to it
    have hpending : (fun v' => ((s.flights.insert v { f with ownershipDone := true })[v']?).bind
        fun f => if f.ownershipDone then none else some f.snapshot) =
        update s.ownershipView.pending v none := by
      funext v'
      rw [getElem?_insert, update_apply]
      by_cases hv' : v = v'
      · rw [if_pos hv', if_pos hv'.symm]
        rfl
      · rw [if_neg hv', if_neg (Ne.symm hv')]
        rfl
    unfold ownershipView
    rw [hpending, hlocals]
    exact .publish s.ownershipView v f.snapshot hv rfl
  · convert View.Move.idle s.peerListView using 1
    unfold peerListView
    congr 1
    funext v'
    rw [getElem?_insert]
    split
    · next hv' => rw [← hv', hf]; rfl
    · rfl

theorem StepView.fanPeerList (hs : s.WF) (hf : s.flights[v]? = some f)
    (hdone : f.ownershipDone = true) :
    StepView s
      { s with
        flights := s.flights.erase v
        peerList := { s.peerList with
          bcast := s.peerList.bcast.broadcast (peerListKind.msg f.snapshot v) } }
      (.fanPeerList v) := by
  obtain ⟨hwf, hlocals⟩ := hs.peerList.broadcast_local (peerListKind.msg f.snapshot v)
  refine ⟨⟨hs.ownership, hwf⟩, ?_, ?_⟩
  · convert View.Move.idle s.ownershipView using 1
    unfold ownershipView
    congr 1
    funext v'
    rw [getElem?_erase]
    split
    · next hv' => rw [← hv', hf]; simp [hdone]
    · rfl
  · have hv : s.peerListView.pending v = some f.snapshot := by
      show (s.flights[v]?).map _ = _
      rw [hf]
      rfl
    have hpending : (fun v' => ((s.flights.erase v)[v']?).map Flight.snapshot) =
        update s.peerListView.pending v none := by
      funext v'
      rw [getElem?_erase, update_apply]
      by_cases hv' : v = v'
      · rw [if_pos hv', if_pos hv'.symm]
        rfl
      · rw [if_neg hv', if_neg (Ne.symm hv')]
        rfl
    unfold peerListView
    rw [hpending, hlocals]
    exact .publish s.peerListView v f.snapshot hv rfl

theorem step_view (hs : s.WF) (h : fanout.step s a = some s') : StepView s s' a := by
  change s.step a = some s' at h
  cases a with
  | reassign now overlayIP expectedOwner newOwner reason checkOwner =>
    dsimp only [step] at h
    split at h
    · cases h; exact StepView.refl hs
    · next l v hl =>
        cases h
        obtain ⟨-, -, rfl⟩ := Ledger.reassign_ok hl
        exact StepView.commit hs rfl
  | remove overlayIP =>
    dsimp only [step] at h
    split at h
    · cases h; exact StepView.refl hs
    · next l hl =>
        cases h
        obtain ⟨-, rfl⟩ := Ledger.remove_ok hl
        exact StepView.commit hs rfl
  | fanOwnership v =>
    dsimp only [step] at h
    split at h
    · cases h
    · next f hf =>
        split at h
        · cases h
        · next hdone => cases h; exact StepView.fanOwnership hs hf (by simpa using hdone)
  | fanPeerList v =>
    dsimp only [step] at h
    split at h
    · cases h
    · next f hf =>
        split at h
        · next hdone => cases h; exact StepView.fanPeerList hs hf hdone
        · cases h
  | registry r =>
    cases h
    exact ⟨⟨hs.ownership, hs.peerList⟩, .idle _, .idle _⟩
  | ownership a =>
    obtain ⟨o, ho, rfl⟩ := Option.map_eq_some_iff.mp h
    obtain ⟨hwf, sid, x, hx, hlocals⟩ := hs.ownership.step_local ho
    refine ⟨⟨hwf, hs.peerList⟩, ?_, .idle _⟩
    convert View.Move.serve s.ownershipView sid x hx using 1
    unfold ownershipView
    rw [hlocals]
  | peerList a =>
    obtain ⟨p, hp, rfl⟩ := Option.map_eq_some_iff.mp h
    obtain ⟨hwf, sid, x, hx, hlocals⟩ := hs.peerList.step_local hp
    refine ⟨⟨hs.ownership, hwf⟩, .idle _, ?_⟩
    convert View.Move.serve s.peerListView sid x hx using 1
    unfold peerListView
    rw [hlocals]

/-- **Refinement**: each step of a run is, for each service, one move of a system in which every
stream has a channel of its own. -/
theorem views_refine (steps : List FanoutStep) :
    fanout.Along (fun s a => ∀ s', fanout.step s a = some s' →
      View.Move ownershipKind (fun v => a = .fanOwnership v) s.ownershipView s'.ownershipView ∧
      View.Move peerListKind (fun v => a = .fanPeerList v) s.peerListView s'.peerListView)
      fanout.init steps := by
  refine Machine.along_of_invariant (J := WF) (fun hs hstep => (step_view hs hstep).wf) ?_
    WF.init steps
  intro s a hs s' hstep
  have hview := step_view hs hstep
  exact ⟨hview.ownership, hview.peerList⟩

end Fanout

end AwgMesh.ControlPlane
