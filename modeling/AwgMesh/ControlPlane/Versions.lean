import AwgMesh.ControlPlane.Server.Basic
import Mathlib.Data.String.Basic

/-! # Versions of the ledger -/

namespace AwgMesh.ControlPlane

open Lib Ledger Handler Method LedgerStep

/-! ## The ledger and its users -/

inductive LedgerCall where
  | reassign (now : Time) (overlayIP newOwner reason : String)
  | remove (now : Time) (overlayIP : String)
  | startDrain (now : Time) (sourceMaster reason : String) (chooseMaster : Option (Nat → String))
  | drainStep (i : Nat)

abbrev LedgerPool := Pool (Plane Unit) String (Nat × Option HandlerError)

namespace LedgerPool

def ledger (p : LedgerPool) : Ledger := p.shared.ledger

def mutate (p : LedgerPool) (a : LedgerStep) : LedgerPool :=
  { p with shared := { p.shared with ledger := (exec a.body p.shared.ledger).2 } }

end LedgerPool

def ledgerUsers : Machine LedgerPool LedgerCall where
  init := { shared := { world := () } }
  step p
    | .reassign now overlayIP newOwner reason =>
      some (p.mutate ⟨now, .reassign overlayIP "" newOwner reason false⟩)
    | .remove now overlayIP => some (p.mutate ⟨now, .remove overlayIP⟩)
    | .startDrain now sourceMaster reason chooseMaster =>
      some (p.spawn sourceMaster (drain now sourceMaster reason chooseMaster))
    | .drainStep i => p.advance i

def Mutates (l l' : Ledger) : Prop := ∃ a : LedgerStep, exec a.body l = (.ok (), l')

/-- No entry has a lower version in the later snapshot. -/
def EntriesGrow (before after : List OwnershipEntry) : Prop :=
  ∀ e ∈ before, ∀ e' ∈ after, e.overlayIP = e'.overlayIP → e.version ≤ e'.version

instance (before after : List OwnershipEntry) : Decidable (EntriesGrow before after) :=
  inferInstanceAs (Decidable (∀ e ∈ before, ∀ e' ∈ after, _))

def LedgerCall.restarts (past now : Ledger) : LedgerCall → Bool
  | .reassign _ overlayIP newOwner _ =>
    newOwner ≠ "" && (now.lookup overlayIP).isNone &&
      (past.lookup overlayIP).any fun entry => 1 < entry.version
  | _ => false

/-! ## One mutation -/

section Mutation

variable {l l' u : Ledger} {a : LedgerStep}

theorem exec_body_ok_iff : Method.exec a.body l = (.ok (), l') ↔ a.result l = .ok l' := by
  rw [a.body_implements l]
  dsimp only
  cases a.result l <;> simp [Method.outcome]

theorem exec_body_snd : (exec a.body l).2 = a.after l := by
  rw [a.body_implements l]
  unfold after
  dsimp only
  cases a.result l <;> rfl

theorem version_of_result (h : a.result l = .ok l') : l'.version = l.version + 1 := by
  rcases result_ok h with ⟨_, _, _, _, _, -, -, -, rfl⟩ | ⟨_, _, -, -, rfl⟩ <;> rfl

def Ledger.Grows (l l' : Ledger) : Prop :=
  ∀ (k : String) e e', l.entries[k]? = some e → l'.entries[k]? = some e' → e.version ≤ e'.version

theorem entriesGrow_snapshot_iff (hl : l.WF) (hl' : l'.WF) :
    EntriesGrow l.snapshot l'.snapshot ↔ l.Grows l' := by
  constructor
  · intro h k e e' he he'
    apply h e (mem_snapshot.mpr ⟨k, he⟩) e' (mem_snapshot.mpr ⟨k, he'⟩)
    rw [hl.keyed he, hl'.keyed he']
  · intro h e he e' he' hk
    rw [hl.mem_snapshot] at he
    rw [hl'.mem_snapshot] at he'
    exact h _ e e' he (hk ▸ he')

theorem Ledger.Grows.refl (l : Ledger) : l.Grows l := by
  intro k e e' he he'
  rw [he] at he'
  cases he'
  exact Nat.le_refl _

variable {now : Time} {overlayIP newOwner reason : String} {entry : OwnershipEntry}

theorem Ledger.Grows.assign_some (h : l.Grows u) (hentry : u.entries[overlayIP]? = some entry) :
    l.Grows (u.assign now overlayIP newOwner reason) := by
  intro k e e' he he'
  rw [assign_getElem?] at he'
  split at he'
  · next hk =>
      subst hk
      cases he'
      have := h overlayIP e entry he hentry
      rw [assigned, hentry]
      exact Nat.le_succ_of_le this
  · exact h k e e' he he'

theorem Ledger.Grows.assign_none_iff
    (h : l.Grows u) (hnone : u.entries[overlayIP]? = none) :
    l.Grows (u.assign now overlayIP newOwner reason) ↔
      ∀ e, l.entries[overlayIP]? = some e → e.version ≤ 1 := by
  constructor
  · intro hgrow e he
    have := hgrow overlayIP e _ he (by rw [assign_getElem?, if_pos rfl])
    rwa [assigned, hnone] at this
  · intro hold k e e' he he'
    rw [assign_getElem?] at he'
    split at he'
    · next hk =>
        subst hk
        cases he'
        rw [assigned, hnone]
        exact hold e he
    · exact h k e e' he he'

theorem Ledger.Grows.erase {v : Nat} (h : l.Grows u) :
    l.Grows { entries := u.entries.erase overlayIP, version := v } := by
  intro k e e' he he'
  rw [OMap.getElem?_erase] at he'
  split at he'
  · cases he'
  · exact h k e e' he he'

theorem Ledger.Grows.moved {overlayIP expectedOwner newOwner reason : String} (h : l.Grows u)
    (hres : (LedgerStep.mk now (.reassign overlayIP expectedOwner newOwner reason true)).result u =
      .ok l') : l.Grows l' := by
  dsimp only [LedgerStep.result] at hres
  cases hout : u.reassign now overlayIP expectedOwner newOwner reason true with
  | error err => rw [hout] at hres; cases hres
  | ok out =>
    rw [hout] at hres
    cases hres
    obtain ⟨entry, hentry, -⟩ := entry_of_reassign_checked hout
    rw [(reassign_ok hout).2.2]
    exact h.assign_some hentry

end Mutation

/-! ## One step of the system -/

/-- What a `Drain` may do in one step. -/
def DrainStep (s t : Plane Unit) : Prop :=
  t.ledger = s.ledger ∨ ∃ now overlayIP expectedOwner newOwner reason,
    (LedgerStep.mk now (.reassign overlayIP expectedOwner newOwner reason true)).result s.ledger =
      .ok t.ledger

theorem drainLoop_guarded (now : Time) (sourceMaster reason : String)
    (chooseMaster : Option (Nat → String)) (owned : List OwnershipEntry) (calls count : Nat) :
    (drainLoop now sourceMaster reason chooseMaster owned calls count).Guarded (fun _ => True)
      DrainStep (fun _ => True) := by
  induction owned generalizing calls count with
  | nil => exact Guarded.pure trivial
  | cons entry rest ih =>
    unfold drainLoop
    cases chooseMaster with
    | none => exact Guarded.pure trivial
    | some choose =>
      dsimp only
      split
      · exact Guarded.pure trivial
      split
      · exact ih _ _
      have hcall : (ledgerReassign now entry.overlayIP sourceMaster (choose calls) reason
          true).Guarded (fun _ => True) DrainStep (fun _ => True) := by
        apply Guarded.atomic
        intro s _
        refine ⟨?_, fun _ => trivial⟩
        split
        · exact .inl rfl
        · next l v hres =>
            exact .inr ⟨now, entry.overlayIP, sourceMaster, choose calls, reason,
              congrArg (Except.map Prod.fst) hres⟩
      apply hcall.bind
      intro res _
      split
      · exact ih _ _
      · exact ih _ _
      · exact Guarded.pure trivial
      · exact ih _ _

theorem drain_guarded (now : Time) (sourceMaster reason : String)
    (chooseMaster : Option (Nat → String)) :
    (drain now sourceMaster reason chooseMaster).Guarded (fun _ => True) DrainStep
      (fun _ => True) := by
  refine Guarded.bind (R := fun _ => True) ?_ ?_
  · exact Guarded.read (fun _ _ => .inl rfl) (fun _ _ => trivial)
  · exact fun owned _ => drainLoop_guarded now sourceMaster reason chooseMaster owned 0 0

structure LedgerPool.WF (p : LedgerPool) : Prop where
  ledger : p.ledger.WF
  drains : p.Guarded (fun _ => True) DrainStep

theorem LedgerPool.WF.init : ledgerUsers.init.WF :=
  ⟨WF.empty, fun _ h => by cases h⟩

section Step

variable {p q : LedgerPool} {call : LedgerCall} {past : Ledger}

theorem mutate_ledger (p : LedgerPool) (a : LedgerStep) :
    (p.mutate a).ledger = a.after p.ledger := exec_body_snd

theorem step_ledger (hp : p.WF) (hstep : ledgerUsers.step p call = some q) :
    q.ledger = p.ledger ∨ ∃ a : LedgerStep, a.result p.ledger = .ok q.ledger := by
  cases call with
  | reassign now overlayIP newOwner reason =>
    cases hstep
    rw [mutate_ledger]
    exact (after_eq_or_result _ _).imp_right fun h => ⟨_, h⟩
  | remove now overlayIP =>
    cases hstep
    rw [mutate_ledger]
    exact (after_eq_or_result _ _).imp_right fun h => ⟨_, h⟩
  | startDrain now sourceMaster reason chooseMaster =>
    cases hstep
    exact .inl rfl
  | drainStep i =>
    refine (hp.drains.advance trivial hstep).1.imp_right ?_
    rintro ⟨now, overlayIP, expectedOwner, newOwner, reason, h⟩
    exact ⟨_, h⟩

theorem LedgerPool.WF.step (hp : p.WF) (hstep : ledgerUsers.step p call = some q) : q.WF := by
  constructor
  · rcases step_ledger hp hstep with heq | ⟨a, ha⟩
    · exact heq ▸ hp.ledger
    · have := hp.ledger.after a
      unfold after at this
      rwa [ha] at this
  · cases call with
    | reassign now overlayIP newOwner reason => cases hstep; exact hp.drains
    | remove now overlayIP => cases hstep; exact hp.drains
    | startDrain now sourceMaster reason chooseMaster =>
      cases hstep
      exact hp.drains.spawn (drain_guarded now sourceMaster reason chooseMaster) sourceMaster
    | drainStep i => exact (hp.drains.advance trivial hstep).2 trivial

variable {now : Time} {overlayIP newOwner reason : String} {u : Ledger}

theorem restarts_reassign_iff :
    (LedgerCall.reassign now overlayIP newOwner reason).restarts past u = true ↔
      newOwner ≠ "" ∧ u.entries[overlayIP]? = none ∧
        ∃ e, past.entries[overlayIP]? = some e ∧ 1 < e.version := by
  simp [LedgerCall.restarts, lookup, Option.any_eq_true, and_assoc]

theorem grows_reassign_iff
    (hpast : past.WF) (hgrow : past.Grows u) :
    past.Grows (after u ⟨now, .reassign overlayIP "" newOwner reason false⟩) ↔
      (LedgerCall.reassign now overlayIP newOwner reason).restarts past u = false := by
  rw [← Bool.not_eq_true, restarts_reassign_iff]
  by_cases hok : newOwner ≠ "" ∧ Net.isIPv4 overlayIP = true
  · rw [after_reassign hok.1 hok.2]
    cases hu : u.entries[overlayIP]? with
    | some entry => exact iff_of_true (hgrow.assign_some hu) (by simp)
    | none => rw [hgrow.assign_none_iff hu]; simp [hok.1]
  · rcases after_eq_or_result u ⟨now, .reassign overlayIP "" newOwner reason false⟩ with
      heq | hres
    · rw [heq]
      refine iff_of_true hgrow ?_
      rintro ⟨hown, -, e, he, -⟩
      exact hok ⟨hown, hpast.ipv4 he⟩
    · obtain ⟨_, _, _, _, _, hop, hown, hip, -⟩ | ⟨_, _, hop, -⟩ := result_ok hres
      · cases hop
        exact absurd ⟨hown, hip⟩ hok
      · cases hop

theorem grows_step_iff (hpast : past.WF) (hp : p.WF) (hgrow : past.Grows p.ledger)
    (hstep : ledgerUsers.step p call = some q) :
    past.Grows q.ledger ↔ call.restarts past p.ledger = false := by
  cases call with
  | reassign now overlayIP newOwner reason =>
    cases hstep
    rw [mutate_ledger]
    exact grows_reassign_iff hpast hgrow
  | remove now overlayIP =>
    cases hstep
    refine iff_of_true ?_ rfl
    rw [mutate_ledger]
    rcases LedgerStep.after_eq_or_result p.ledger ⟨now, .remove overlayIP⟩ with heq | hres
    · rw [heq]
      exact hgrow
    · rw [(remove_ok hres).2]
      exact hgrow.erase
  | startDrain now sourceMaster reason chooseMaster =>
    cases hstep
    exact iff_of_true hgrow rfl
  | drainStep i =>
    refine iff_of_true ?_ rfl
    rcases (hp.drains.advance trivial hstep).1 with heq | ⟨now, o, x, n, r, h⟩
    · unfold LedgerPool.ledger
      rw [heq]
      exact hgrow
    · exact hgrow.moved h

end Step

/-! ## Whole runs -/

theorem ordered_version (calls : List LedgerCall) :
    ledgerUsers.Ordered (fun p q => p.ledger.version ≤ q.ledger.version ∧
      (p.ledger.version = q.ledger.version → p.ledger = q.ledger)) ledgerUsers.init calls := by
  refine Machine.ordered_of_step (J := LedgerPool.WF) LedgerPool.WF.step ?_ ?_ LedgerPool.WF.init
  · intro p _
    exact ⟨Nat.le_refl _, fun _ => rfl⟩
  · intro p u call q _ hu hpu hstep
    rcases step_ledger hu hstep with heq | ⟨a, ha⟩
    · rw [heq]
      exact hpu
    · have hversion := version_of_result ha
      refine ⟨by omega, ?_⟩
      intro heq
      -- a version that has gone up is none of those before
      have := hpu.1
      omega

theorem sorted_snapshot {l : Ledger} (hl : l.WF) :
    (l.snapshot.map (·.overlayIP)).Pairwise (· < ·) := by
  unfold snapshot
  rw [OMap.map_vals_eq_keys hl.keyed]
  exact Std.ExtTreeMap.ordered_keys.imp fun h => compare_lt_iff_lt.mp h

/-- **The version discipline of the ledger**. -/
theorem version_discipline {calls : List LedgerCall}
    (hrun : (ledgerUsers.exec ledgerUsers.init calls).isSome) :
    ((∀ (a : LedgerStep) l l', exec a.body l = (.ok (), l') → l'.version = l.version + 1) ∧
        (∀ (a : LedgerStep) l err l', exec a.body l = (.error err, l') → l' = l) ∧
        ledgerUsers.Along (fun p call => ∀ q, ledgerUsers.step p call = some q →
          q.ledger = p.ledger ∨ Mutates p.ledger q.ledger) ledgerUsers.init calls) ∧
      ledgerUsers.Ordered (fun p q => p.ledger.version = q.ledger.version →
        p.ledger.snapshot = q.ledger.snapshot) ledgerUsers.init calls ∧
      ledgerUsers.Throughout (fun p => (p.ledger.snapshot.map (·.overlayIP)).Pairwise (· < ·))
        ledgerUsers.init calls ∧
      (ledgerUsers.Ordered (fun p q => EntriesGrow p.ledger.snapshot q.ledger.snapshot)
          ledgerUsers.init calls ↔
        ledgerUsers.AlongSince (fun p u call => call.restarts p.ledger u.ledger = false)
          ledgerUsers.init calls) := by
  refine ⟨⟨?_, ?_, ?_⟩, ?_, ?_, ?_⟩
  · intro a l l' h
    exact version_of_result (exec_body_ok_iff.mp h)
  · intro a l err l'
    exact a.body_implements.error
  · refine Machine.along_of_invariant (J := LedgerPool.WF) LedgerPool.WF.step ?_
      LedgerPool.WF.init calls
    intro p call hp q hstep
    refine (step_ledger hp hstep).imp_right ?_
    rintro ⟨a, ha⟩
    exact ⟨a, exec_body_ok_iff.mpr ha⟩
  · exact (ordered_version calls).imp fun p q h heq => congrArg snapshot (h.2 heq)
  · exact Machine.throughout_of_invariant (J := LedgerPool.WF) LedgerPool.WF.step
      (fun hp => sorted_snapshot hp.ledger) LedgerPool.WF.init calls
  · refine Machine.ordered_iff_alongSince (J := LedgerPool.WF) LedgerPool.WF.step ?_ ?_
      LedgerPool.WF.init hrun
    · intro p hp
      exact (entriesGrow_snapshot_iff hp.ledger hp.ledger).mpr (Grows.refl _)
    · intro p u call q hp hu hpu hstep
      rw [entriesGrow_snapshot_iff hp.ledger (hu.step hstep).ledger]
      rw [entriesGrow_snapshot_iff hp.ledger hu.ledger] at hpu
      exact grows_step_iff hp.ledger hu hpu hstep

def drainedAndRemoved : List LedgerCall :=
  [.reassign 1 "10.0.0.1" "m" "register", .reassign 2 "10.0.0.2" "m" "register",
    .startDrain 3 "m" "decommission" (some fun _ => "n"), .drainStep 0, .drainStep 0,
    .remove 4 "10.0.0.2", .drainStep 0]

theorem version_discipline_drained :
    ledgerUsers.Ordered (fun p q => EntriesGrow p.ledger.snapshot q.ledger.snapshot)
      ledgerUsers.init drainedAndRemoved := by
  have hrun : (ledgerUsers.exec ledgerUsers.init drainedAndRemoved).isSome := by decide
  exact (version_discipline hrun).2.2.2.mpr (by decide)

/-- Assigned twice, removed and assigned again. -/
theorem entry_version_restarts :
    ∃ p q, ledgerUsers.exec ledgerUsers.init
        [.reassign 1 "10.0.0.1" "m" "register", .reassign 2 "10.0.0.1" "n" "failover"] = some p ∧
      ledgerUsers.exec p [.remove 3 "10.0.0.1", .reassign 4 "10.0.0.1" "m" "register"] = some q ∧
      p.ledger.snapshot.map (fun e => (e.overlayIP, e.version)) = [("10.0.0.1", 2)] ∧
      q.ledger.snapshot.map (fun e => (e.overlayIP, e.version)) = [("10.0.0.1", 1)] ∧
      ¬ EntriesGrow p.ledger.snapshot q.ledger.snapshot := by
  exact ⟨_, _, rfl, rfl, by decide, by decide, by decide⟩

end AwgMesh.ControlPlane
