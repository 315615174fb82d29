import AwgMesh.ControlPlane.Ledger.Basic
import AwgMesh.ControlPlane.Registry.Basic

/-! # One holder per address -/

namespace AwgMesh.ControlPlane

open Lib Net

/-! ## The two stores on their own -/

structure Stores where
  registry : Registry := {}
  ledger : Ledger := {}

inductive StoreCall where
  | reassign (now : Time) (overlayIP newOwner reason : String)
  | remove (overlayIP : String)
  | register (now : Time) (node : RegisteredNode)

def StoreCall.apply (s : Stores) : StoreCall → Option Stores
  | .reassign now overlayIP newOwner reason =>
    match s.ledger.reassign now overlayIP "" newOwner reason false with
    | .error _ => none
    | .ok (l, _) => some { s with ledger := l }
  | .remove overlayIP =>
    match s.ledger.remove overlayIP with
    | .error _ => none
    | .ok l => some { s with ledger := l }
  | .register now node =>
    match s.registry.register now node with
    | .error _ => none
    | .ok r => some { s with registry := r }

def stores : Machine Stores StoreCall where
  init := {}
  step s call := call.apply s

/-- No two entries, and no two records, stand for one IPv4 address. -/
structure OneHolder (s : Stores) : Prop where
  ledger : ∀ {k k' : String} {e e'}, s.ledger.entries[k]? = some e →
    s.ledger.entries[k']? = some e' → address e.overlayIP = address e'.overlayIP → k = k'
  registry : ∀ {m n : String} {a b}, s.registry.byName[m]? = some a →
    s.registry.byName[n]? = some b → isIPv4 a.overlayIP = true → isIPv4 b.overlayIP = true →
      address a.overlayIP = address b.overlayIP → m = n

def StoreCall.bringsMapped : StoreCall → Bool
  | .reassign _ overlayIP _ _ => isMapped overlayIP
  | .remove _ => false
  | .register _ node => isMapped node.overlayIP

/-! ## Canonical stores -/

structure Stores.Canonical (s : Stores) : Prop where
  registry : s.registry.WF
  ledger : s.ledger.WF
  entries : ∀ {k : String} {e}, s.ledger.entries[k]? = some e → isMapped k = false
  records : ∀ {n : String} {node}, s.registry.byName[n]? = some node →
    isMapped node.overlayIP = false

namespace Stores.Canonical

variable {s t : Stores}

theorem init : stores.init.Canonical where
  registry := Registry.WF.empty
  ledger := Ledger.WF.empty
  entries h := by simp [stores] at h
  records h := by simp [stores] at h

theorem oneHolder (h : s.Canonical) : OneHolder s where
  ledger := by
    intro k k' e e' he he' heq
    rw [h.ledger.keyed he, h.ledger.keyed he'] at heq
    exact eq_of_address_eq
      (isDottedQuad_of_not_isMapped (h.entries he) (h.ledger.ipv4 he))
      (isDottedQuad_of_not_isMapped (h.entries he') (h.ledger.ipv4 he')) heq
  registry := by
    intro m n a b ha hb hva hvb heq
    apply h.registry.overlay_inj ha hb
    exact eq_of_address_eq (isDottedQuad_of_not_isMapped (h.records ha) hva)
      (isDottedQuad_of_not_isMapped (h.records hb) hvb) heq

theorem apply (h : s.Canonical) {call : StoreCall} (hcall : call.bringsMapped = false)
    (hstep : call.apply s = some t) : t.Canonical := by
  cases call <;> dsimp only [StoreCall.apply] at hstep
  case reassign now overlayIP newOwner reason =>
    split at hstep
    · cases hstep
    next l v hok =>
    cases hstep
    obtain ⟨hown, hip, rfl⟩ := Ledger.reassign_ok hok
    refine { h with ledger := h.ledger.assign hown hip, entries := ?_ }
    intro k e he
    rw [Ledger.assign_getElem?] at he
    split at he
    · next hk => exact hk ▸ hcall
    · exact h.entries he
  case remove overlayIP =>
    split at hstep
    · cases hstep
    next l hok =>
    cases hstep
    refine { h with ledger := h.ledger.remove hok, entries := ?_ }
    obtain ⟨-, rfl⟩ := Ledger.remove_ok hok
    intro k e he
    rw [OMap.getElem?_erase] at he
    split at he
    · cases he
    · exact h.entries he
  case register now node =>
    split at hstep
    · cases hstep
    next r hok =>
    cases hstep
    refine { h with registry := h.registry.register hok, records := ?_ }
    obtain ⟨-, rfl⟩ := Registry.register_eq_ok_iff.mp hok
    intro n x hx
    rw [Registry.store_byName_getElem?] at hx
    split at hx
    · cases hx
      rw [Registry.recorded_overlayIP]
      exact hcall
    · exact h.records hx

end Stores.Canonical

/-- **Without IPv4 addresses in IPv6 notation every address has one holder**. -/
theorem oneHolder_throughout {calls : List StoreCall}
    (h : ∀ call ∈ calls, call.bringsMapped = false) :
    stores.Throughout OneHolder stores.init calls := by
  have halong : stores.Along (fun _ call => call.bringsMapped = false) stores.init calls :=
    Machine.along_of_forall (fun call hcall _ => h call hcall) _
  have hcanonical : stores.Throughout Stores.Canonical stores.init calls := by
    refine Machine.throughout_of_along (J := fun _ => True) ?_ ?_ trivial
      Stores.Canonical.init halong
    · exact fun _ _ => trivial
    · intro s call t _ hs hcall hstep
      exact hs.apply hcall hstep
  exact hcanonical.imp fun s hs => hs.oneHolder

def sampleNode (name overlayIP : String) : RegisteredNode :=
  { name := name, roles := [.egress], overlayIP := overlayIP, nodeCertPEM := [1] }

/-- Two masters on two addresses, and a node for each. -/
theorem oneHolder_throughout_dotted :
    stores.Throughout OneHolder stores.init
      [.reassign 1 "10.0.0.1" "m" "register", .register 2 (sampleNode "a" "10.0.0.1"),
        .reassign 3 "10.0.0.2" "n" "register", .register 4 (sampleNode "b" "10.0.0.2")] :=
  oneHolder_throughout (by decide)

def twoSpellings : List StoreCall :=
  [.reassign 1 "10.0.0.1" "m" "register", .register 2 (sampleNode "a" "10.0.0.1"),
    .reassign 3 "::ffff:10.0.0.1" "n" "register", .register 4 (sampleNode "b" "::ffff:10.0.0.1")]

/-- The address has two owners in the ledger and two nodes in the registry. -/
theorem one_address_two_holders :
    ∃ s, stores.exec stores.init twoSpellings = some s ∧ ¬ OneHolder s ∧
      (∃ e e', s.ledger.lookup "10.0.0.1" = some e ∧ s.ledger.lookup "::ffff:10.0.0.1" = some e' ∧
        e.owningMaster ≠ e'.owningMaster ∧ address e.overlayIP = address e'.overlayIP) ∧
      (∃ a b, s.registry.lookup "a" = some a ∧ s.registry.lookup "b" = some b ∧
        address a.overlayIP = address b.overlayIP) := by
  let entry (overlayIP owner : String) (at' : Time) : OwnershipEntry :=
    { overlayIP := overlayIP, owningMaster := owner, lastReassignedAt := at'
      reason := "register", version := 1 }
  have hrun : (stores.exec stores.init twoSpellings).map (fun s =>
      (s.ledger.lookup "10.0.0.1", s.ledger.lookup "::ffff:10.0.0.1", s.registry.lookup "a",
        s.registry.lookup "b")) =
      some (some (entry "10.0.0.1" "m" 1), some (entry "::ffff:10.0.0.1" "n" 3),
        some { sampleNode "a" "10.0.0.1" with registeredAt := 2 },
        some { sampleNode "b" "::ffff:10.0.0.1" with registeredAt := 4 }) := by decide
  obtain ⟨s, hs, heq⟩ := Option.map_eq_some_iff.mp hrun
  obtain ⟨he, he', ha, hb⟩ : _ ∧ _ ∧ _ ∧ _ := by simpa only [Prod.mk.injEq] using heq
  have haddress : address "10.0.0.1" = address "::ffff:10.0.0.1" := by decide
  refine ⟨s, hs, ?_, ⟨_, _, he, he', by decide, haddress⟩, ⟨_, _, ha, hb, haddress⟩⟩
  intro h
  exact absurd (h.ledger he he' haddress) (by decide)

end AwgMesh.ControlPlane
