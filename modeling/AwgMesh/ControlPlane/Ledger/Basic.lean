import AwgMesh.Clock
import AwgMesh.Lib.Map
import AwgMesh.Net.Addr
import AwgMesh.Lib.Machine
import AwgMesh.Lib.Method

/-!
# The ownership ledger

`pkg/control_plane/ledger.go`: which master owns which overlay `/32`, with a version per entry and
one for the whole ledger.
-/

namespace AwgMesh.ControlPlane

open Lib Method Net

structure OwnershipEntry where
  overlayIP : String := ""
  owningMaster : String := ""
  lastReassignedAt : Time := 0
  previousOwner : String := ""
  reason : String := ""
  version : Nat := 0
  deriving DecidableEq

inductive LedgerError where
  | overlayInvalid (overlayIP : String)
  | emptyMaster
  | notFound
  | ownerChanged (overlayIP owner expected : String)
  deriving DecidableEq

def LedgerError.message (quote : String → String) : LedgerError → String
  | .overlayInvalid overlayIP => "ledger: overlay_ip is not a valid IP: " ++ quote overlayIP
  | .emptyMaster => "ledger: owning_master must be non-empty"
  | .notFound => "ledger: overlay_ip not found"
  | .ownerChanged overlayIP owner expected =>
    "ledger: overlay owner changed: overlay_ip " ++ overlayIP ++ " owned by " ++ owner ++
      ", expected " ++ expected

structure Ledger where
  entries : OMap String OwnershipEntry := ∅
  version : Nat := 0
  deriving DecidableEq

namespace Ledger

def write (l : Ledger) (now : Time) (overlayIP : String) (entry : OwnershipEntry)
    (newOwner reason : String) : Ledger × Nat :=
  let entry := { entry with
    owningMaster := newOwner
    reason := reason
    lastReassignedAt := now
    version := entry.version + 1 }
  ({ entries := l.entries.insert overlayIP entry, version := l.version + 1 }, entry.version)

def reassign (l : Ledger) (now : Time) (overlayIP expectedOwner newOwner reason : String)
    (checkOwner : Bool) : Except LedgerError (Ledger × Nat) :=
  if newOwner = "" then .error .emptyMaster
  else if !isIPv4 overlayIP then .error (.overlayInvalid overlayIP)
  else match l.entries[overlayIP]? with
    | some entry =>
      if checkOwner && entry.owningMaster ≠ expectedOwner then
        .error (.ownerChanged overlayIP entry.owningMaster expectedOwner)
      else .ok (l.write now overlayIP { entry with previousOwner := entry.owningMaster }
        newOwner reason)
    | none =>
      if checkOwner then .error .notFound
      else .ok (l.write now overlayIP { overlayIP := overlayIP } newOwner reason)

def lookup (l : Ledger) (overlayIP : String) : Option OwnershipEntry := l.entries[overlayIP]?

def remove (l : Ledger) (overlayIP : String) : Except LedgerError Ledger :=
  match l.entries[overlayIP]? with
  | none => .error .notFound
  | some _ => .ok { entries := l.entries.erase overlayIP, version := l.version + 1 }

def snapshot (l : Ledger) : List OwnershipEntry := l.entries.vals

def ownedBy (l : Ledger) (master : String) : List OwnershipEntry :=
  l.entries.vals.filter fun e => e.owningMaster = master

end Ledger

/-! ## What the ledger methods do -/

namespace Ledger

variable {l l' : Ledger} {now : Time} {overlayIP : String}

def assigned (l : Ledger) (now : Time) (overlayIP newOwner reason : String) : OwnershipEntry :=
  match l.entries[overlayIP]? with
  | some entry =>
    { entry with
      owningMaster := newOwner
      lastReassignedAt := now
      previousOwner := entry.owningMaster
      reason := reason
      version := entry.version + 1 }
  | none =>
    { overlayIP := overlayIP
      owningMaster := newOwner
      lastReassignedAt := now
      reason := reason
      version := 1 }

def assign (l : Ledger) (now : Time) (overlayIP newOwner reason : String) : Ledger :=
  { entries := l.entries.insert overlayIP (l.assigned now overlayIP newOwner reason)
    version := l.version + 1 }

variable {newOwner reason : String}

@[simp] theorem assigned_owningMaster :
    (l.assigned now overlayIP newOwner reason).owningMaster = newOwner := by
  unfold assigned; split <;> rfl

@[simp] theorem assign_version :
    (l.assign now overlayIP newOwner reason).version = l.version + 1 := rfl

theorem assign_getElem? {newOwner reason k : String} :
    (l.assign now overlayIP newOwner reason).entries[k]? =
      if overlayIP = k then some (l.assigned now overlayIP newOwner reason)
      else l.entries[k]? :=
  OMap.getElem?_insert _ _ _ _

theorem getElem?_ne_assigned :
    l.entries[overlayIP]? ≠ some (l.assigned now overlayIP newOwner reason) := by
  intro h
  unfold assigned at h
  split at h
  · next entry hentry =>
      rw [hentry] at h
      have := congrArg OwnershipEntry.version (Option.some.inj h)
      simp at this
  · next hnone => rw [hnone] at h; cases h

/-! ## `reassign` refuses or assigns -/

variable {expectedOwner : String} {checkOwner : Bool}

theorem reassign_ok {v : Nat}
    (h : l.reassign now overlayIP expectedOwner newOwner reason checkOwner = .ok (l', v)) :
    newOwner ≠ "" ∧ isIPv4 overlayIP = true ∧ l' = l.assign now overlayIP newOwner reason := by
  unfold reassign at h
  split at h
  · cases h
  next hown =>
  split at h
  · cases h
  next hip =>
  refine ⟨hown, by simpa using hip, ?_⟩
  split at h
  · next entry hentry =>
      split at h
      · cases h
      · cases h
        rw [assign, assigned, hentry]
  · next hnone =>
      split at h
      · cases h
      · cases h
        rw [assign, assigned, hnone]

theorem reassign_eq_ok (hown : newOwner ≠ "") (hip : isIPv4 overlayIP = true) :
    ∃ v, l.reassign now overlayIP expectedOwner newOwner reason false =
      .ok (l.assign now overlayIP newOwner reason, v) := by
  unfold reassign assign assigned write
  rw [if_neg hown, hip]
  cases l.entries[overlayIP]? with
  | none => exact ⟨1, rfl⟩
  | some entry => exact ⟨entry.version + 1, rfl⟩

theorem reassign_eq_error
    (hown : newOwner ≠ "") (hip : isIPv4 overlayIP = false) :
    l.reassign now overlayIP expectedOwner newOwner reason checkOwner =
      .error (.overlayInvalid overlayIP) := by
  unfold reassign
  rw [if_neg hown, hip]
  rfl

theorem reassign_checked_eq_ok {entry : OwnershipEntry}
    (hown : newOwner ≠ "") (hip : isIPv4 overlayIP = true)
    (hentry : l.entries[overlayIP]? = some entry) (hexp : entry.owningMaster = expectedOwner) :
    l.reassign now overlayIP expectedOwner newOwner reason true =
      .ok (l.assign now overlayIP newOwner reason, entry.version + 1) := by
  unfold reassign assign assigned write
  rw [if_neg hown, hip, hentry]
  simp [hexp]

theorem entry_of_reassign_checked {out : Ledger × Nat}
    (h : l.reassign now overlayIP expectedOwner newOwner reason true = .ok out) :
    ∃ entry, l.entries[overlayIP]? = some entry ∧ entry.owningMaster = expectedOwner := by
  unfold reassign at h
  split at h
  · cases h
  split at h
  · cases h
  split at h
  · next entry hentry =>
      split at h
      · cases h
      · next hown => exact ⟨entry, hentry, by simpa using hown⟩
  · cases h

theorem remove_ok (h : l.remove overlayIP = .ok l') :
    (∃ entry, l.entries[overlayIP]? = some entry) ∧
      l' = { entries := l.entries.erase overlayIP, version := l.version + 1 } := by
  unfold remove at h
  split at h
  · cases h
  · next entry hentry => cases h; exact ⟨⟨entry, hentry⟩, rfl⟩

/-! ## The invariant -/

structure WF (l : Ledger) : Prop where
  keyed : ∀ {k : String} {e}, l.entries[k]? = some e → e.overlayIP = k
  ipv4 : ∀ {k : String} {e}, l.entries[k]? = some e → isIPv4 k = true
  owned : ∀ {k : String} {e}, l.entries[k]? = some e → e.owningMaster ≠ ""

theorem WF.empty : WF {} where
  keyed h := by simp at h
  ipv4 h := by simp at h
  owned h := by simp at h

theorem WF.assigned_overlayIP (hl : l.WF) :
    (l.assigned now overlayIP newOwner reason).overlayIP = overlayIP := by
  unfold assigned
  split
  · next entry hentry =>
      show entry.overlayIP = overlayIP
      exact hl.keyed hentry
  · rfl

theorem WF.assign (hl : l.WF) (hown : newOwner ≠ "")
    (hip : isIPv4 overlayIP = true) : (l.assign now overlayIP newOwner reason).WF := by
  constructor
  · intro k e he
    rw [assign_getElem?] at he
    split at he
    · next hk => cases he; exact hl.assigned_overlayIP.trans hk
    · exact hl.keyed he
  · intro k e he
    rw [assign_getElem?] at he
    split at he
    · next hk => exact hk ▸ hip
    · exact hl.ipv4 he
  · intro k e he
    rw [assign_getElem?] at he
    split at he
    · cases he; rw [assigned_owningMaster]; exact hown
    · exact hl.owned he

theorem WF.remove (hl : l.WF) (h : l.remove overlayIP = .ok l') : l'.WF := by
  obtain ⟨-, rfl⟩ := remove_ok h
  -- what is left after the removal was there before
  have hkept : ∀ {k : String} {e}, (l.entries.erase overlayIP)[k]? = some e →
      l.entries[k]? = some e := by
    intro k e he
    rw [OMap.getElem?_erase] at he
    split at he
    · cases he
    · exact he
  exact ⟨fun he => hl.keyed (hkept he), fun he => hl.ipv4 (hkept he), fun he => hl.owned (hkept he)⟩

variable {e : OwnershipEntry}

theorem mem_snapshot : e ∈ l.snapshot ↔ ∃ k : String, l.entries[k]? = some e := OMap.mem_vals

theorem WF.mem_snapshot (hl : l.WF) : e ∈ l.snapshot ↔ l.entries[e.overlayIP]? = some e := by
  rw [Ledger.mem_snapshot]
  constructor
  · rintro ⟨k, hk⟩
    rw [hl.keyed hk]
    exact hk
  · exact fun h => ⟨_, h⟩

theorem WF.nodup_ownedBy (hl : l.WF) (master : String) :
    ((l.ownedBy master).map (·.overlayIP)).Nodup :=
  (OMap.nodup_map_vals hl.keyed).sublist (List.filter_sublist.map _)

end Ledger

/-! ## Runs of the ledger -/

inductive LedgerOp where
  | reassign (overlayIP expectedOwner newOwner reason : String) (checkOwner : Bool)
  | remove (overlayIP : String)

structure LedgerStep where
  now : Time
  op : LedgerOp

namespace LedgerStep

def result (l : Ledger) (a : LedgerStep) : Except LedgerError Ledger :=
  match a.op with
  | .reassign overlayIP expectedOwner newOwner reason checkOwner =>
    (l.reassign a.now overlayIP expectedOwner newOwner reason checkOwner).map Prod.fst
  | .remove overlayIP => l.remove overlayIP

def after (l : Ledger) (a : LedgerStep) : Ledger :=
  match a.result l with
  | .ok l' => l'
  | .error _ => l

theorem result_ok {l l' : Ledger} {a : LedgerStep} (h : a.result l = .ok l') :
    (∃ overlayIP expectedOwner newOwner reason checkOwner,
        a.op = .reassign overlayIP expectedOwner newOwner reason checkOwner ∧ newOwner ≠ "" ∧
          isIPv4 overlayIP = true ∧ l' = l.assign a.now overlayIP newOwner reason) ∨
      ∃ overlayIP entry, a.op = .remove overlayIP ∧ l.entries[overlayIP]? = some entry ∧
        l' = { entries := l.entries.erase overlayIP, version := l.version + 1 } := by
  obtain ⟨now, op⟩ := a
  cases op with
  | reassign overlayIP expectedOwner newOwner reason checkOwner =>
    dsimp only [result] at h
    cases hres : l.reassign now overlayIP expectedOwner newOwner reason checkOwner with
    | error err => rw [hres] at h; cases h
    | ok out =>
      obtain ⟨l₁, v⟩ := out
      rw [hres] at h
      cases h
      obtain ⟨hown, hip, hl⟩ := Ledger.reassign_ok hres
      exact .inl ⟨_, _, _, _, _, rfl, hown, hip, hl⟩
  | remove overlayIP =>
    obtain ⟨⟨entry, hentry⟩, hl⟩ := Ledger.remove_ok h
    exact .inr ⟨_, _, rfl, hentry, hl⟩

theorem after_eq_or_result (l : Ledger) (a : LedgerStep) :
    a.after l = l ∨ a.result l = .ok (a.after l) := by
  unfold after
  cases a.result l with
  | error err => exact .inl rfl
  | ok l' => exact .inr rfl

theorem after_reassign {l : Ledger} {now : Time} {overlayIP expectedOwner newOwner reason : String}
    (hown : newOwner ≠ "") (hip : isIPv4 overlayIP = true) :
    after l ⟨now, .reassign overlayIP expectedOwner newOwner reason false⟩ =
      l.assign now overlayIP newOwner reason := by
  have hok : ∃ v, l.reassign now overlayIP expectedOwner newOwner reason false =
      .ok (l.assign now overlayIP newOwner reason, v) := Ledger.reassign_eq_ok hown hip
  obtain ⟨v, hres⟩ := hok
  dsimp only [after, result]
  rw [hres]
  rfl

end LedgerStep

def ledgerRuns : Machine Ledger LedgerStep where
  init := {}
  step l a := some (a.after l)

theorem Ledger.WF.after {l : Ledger} (hl : l.WF) (a : LedgerStep) : (a.after l).WF := by
  unfold LedgerStep.after
  cases hres : a.result l with
  | error err => exact hl
  | ok l' =>
    rcases LedgerStep.result_ok hres with
      ⟨overlayIP, _, newOwner, reason, _, _, hown, hip, rfl⟩ | ⟨overlayIP, entry, hop, -, -⟩
    · exact hl.assign hown hip
    · rw [LedgerStep.result, hop] at hres
      exact hl.remove hres

theorem Ledger.WF.of_reachable {l : Ledger} (h : ledgerRuns.Reachable l) : l.WF := by
  refine h.invariant Ledger.WF.empty ?_
  intro l a l' hl hstep
  cases hstep
  exact hl.after a

/-! ## The ledger methods, statement by statement -/

open Lib.Method (refuseIf find outcome Implements)

abbrev LedgerMethod := Method LedgerError Ledger

def Ledger.put (l : Ledger) (overlayIP : String) (entry : OwnershipEntry) : Ledger :=
  { l with entries := l.entries.insert overlayIP entry }

namespace LedgerMethod

def assign (overlayIP : String) (f : OwnershipEntry → OwnershipEntry) : LedgerMethod Unit :=
  modify fun l => match l.entries[overlayIP]? with
    | some entry => l.put overlayIP (f entry)
    | none => l

/-- The entry `reassign` is to write. -/
def enter (overlayIP expectedOwner : String) (checkOwner : Bool) : LedgerMethod Unit := do
  match (← get).entries[overlayIP]? with
  | some entry =>
    refuseIf (checkOwner && entry.owningMaster ≠ expectedOwner)
      (.ownerChanged overlayIP entry.owningMaster expectedOwner)
    assign overlayIP fun entry => { entry with previousOwner := entry.owningMaster }
  | none =>
    refuseIf checkOwner .notFound
    modify fun l => l.put overlayIP { overlayIP := overlayIP }

def reassign (now : Time) (overlayIP expectedOwner newOwner reason : String) (checkOwner : Bool) :
    LedgerMethod Nat := do
  refuseIf (newOwner = "") .emptyMaster
  refuseIf (!isIPv4 overlayIP) (.overlayInvalid overlayIP)
  enter overlayIP expectedOwner checkOwner
  assign overlayIP fun entry => { entry with owningMaster := newOwner }
  assign overlayIP fun entry => { entry with reason := reason }
  assign overlayIP fun entry => { entry with lastReassignedAt := now }
  assign overlayIP fun entry => { entry with version := entry.version + 1 }
  let entry ← find (fun l => l.entries[overlayIP]?) .notFound
  modify fun l => { l with version := l.version + 1 }
  pure entry.version

def remove (overlayIP : String) : LedgerMethod Unit := do
  let _ ← find (fun l => l.entries[overlayIP]?) .notFound
  modify fun l => { l with entries := l.entries.erase overlayIP }
  modify fun l => { l with version := l.version + 1 }

/-! ## The statements -/

section Statements

variable {l : Ledger} {overlayIP : String} {entry : OwnershipEntry}

@[simp] theorem put_getElem? (l : Ledger) (overlayIP : String) (entry : OwnershipEntry) :
    (l.put overlayIP entry).entries[overlayIP]? = some entry := by
  simp [Ledger.put]

@[simp] theorem put_put (l : Ledger) (overlayIP : String) (entry entry' : OwnershipEntry) :
    (l.put overlayIP entry).put overlayIP entry' = l.put overlayIP entry' := by
  simp only [Ledger.put, OMap.insert_insert_self]

theorem exec_assign (h : l.entries[overlayIP]? = some entry) (f : OwnershipEntry → OwnershipEntry) :
    exec (assign overlayIP f) l = (.ok (), l.put overlayIP (f entry)) := by
  simp [assign, h]

@[simp] theorem exec_assign_put_bind {β : Type} (f : OwnershipEntry → OwnershipEntry)
    (k : Unit → LedgerMethod β) :
    exec (assign overlayIP f >>= k) (l.put overlayIP entry) =
      exec (k ()) (l.put overlayIP (f entry)) := by
  rw [exec_bind_ok (exec_assign (put_getElem? ..) f), put_put]

end Statements

/-! ## The bodies -/

theorem exec_reassign (now : Time) (overlayIP expectedOwner newOwner reason : String)
    (checkOwner : Bool) (l : Ledger) :
    exec (reassign now overlayIP expectedOwner newOwner reason checkOwner) l =
      match l.reassign now overlayIP expectedOwner newOwner reason checkOwner with
      | .ok (l', v) => (.ok v, l')
      | .error err => (.error err, l) := by
  unfold reassign Ledger.reassign
  simp only [exec_refuseIf_bind, decide_eq_true_eq]
  split
  · rfl
  split
  · rfl
  unfold enter
  rw [bind_assoc, exec_get_bind]
  cases hentry : l.entries[overlayIP]? with
  | none =>
    simp only [bind_assoc, exec_refuseIf_bind]
    cases checkOwner with
    | true => rfl
    | false =>
      simp only [Bool.false_eq_true, if_false, exec_modify_bind]
      simp [Ledger.write]
      rfl
  | some entry =>
    simp only [bind_assoc, exec_refuseIf_bind]
    split
    · rfl
    · rw [exec_bind_ok (exec_assign hentry _)]
      simp [Ledger.write]
      rfl

theorem remove_implements (overlayIP : String) :
    Implements (remove overlayIP) (·.remove overlayIP) := by
  intro l
  unfold remove Ledger.remove
  simp only [exec_find_bind]
  cases l.entries[overlayIP]? <;> rfl

end LedgerMethod

def LedgerStep.body (a : LedgerStep) : LedgerMethod Unit :=
  match a.op with
  | .reassign overlayIP expectedOwner newOwner reason checkOwner => do
      let _ ← LedgerMethod.reassign a.now overlayIP expectedOwner newOwner reason checkOwner
  | .remove overlayIP => LedgerMethod.remove overlayIP

theorem LedgerStep.body_implements (a : LedgerStep) :
    Implements a.body (LedgerStep.result · a) := by
  obtain ⟨now, op⟩ := a
  cases op with
  | reassign overlayIP expectedOwner newOwner reason checkOwner =>
    intro l
    have hexec := LedgerMethod.exec_reassign now overlayIP expectedOwner newOwner reason
      checkOwner l
    dsimp only [body, result]
    cases hres : l.reassign now overlayIP expectedOwner newOwner reason checkOwner with
    | error err =>
      rw [hres] at hexec
      exact exec_bind_error hexec _
    | ok out =>
      rw [hres] at hexec
      exact exec_bind_ok hexec _
  | remove overlayIP => exact LedgerMethod.remove_implements overlayIP

end AwgMesh.ControlPlane
