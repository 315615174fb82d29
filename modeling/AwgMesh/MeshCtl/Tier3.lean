import AwgMesh.Strconv
import AwgMesh.Wg.Key
import Mathlib.Data.List.Nodup
import AwgMesh.Lib.Sweep

/-!
# Tier-3 rotation

`executeTier3Rotation` of `cmd/mesh-ctl/cmd/rotate.go`: a new keypair for an endpoint, brought to
four parties.
-/

namespace AwgMesh.MeshCtl

open Lib ByteText Wg Handler Function List

structure Cluster where
  endpoint : Key
  peer : String → Key
  admin : Option Bytes

def Cluster.adminKey (c : Cluster) : Bytes :=
  match c.admin with
  | none => []
  | some data => ByteText.trimSpace data

/-! ## What can go wrong -/

inductive Rpc where
  | ok
  | failed (applied : Bool) (err : String)

def Rpc.applied : Rpc → Bool
  | .ok => true
  | .failed applied _ => applied

def Rpc.error? : Rpc → Option String
  | .ok => none
  | .failed _ err => some err

structure MasterEnv where
  connect : Option String := none
  update : Rpc := .ok
  revertConnect : Option String := none
  revert : Rpc := .ok

structure Env where
  read : Option String := none
  keygen : Except String Key
  connectEndpoint : Option String := none
  rotate : Rpc := .ok
  endpointKey : Key
  master : Nat → MasterEnv := fun _ => {}
  commit : Option String := none

inductive Tier3Error where
  | read (err : String)
  | uninitialized
  | corrupt
  | wrongLength (length : Nat)
  | keygen (err : String)
  | connectEndpoint (err : String)
  | rotate (err : String)
  | mismatch
  | fanOut (failCount : Nat)
  | commit (err : String)

inductive Status where
  | rotated
  | failed
  | reverted
  | revertFailed
  deriving DecidableEq

structure MasterResult where
  name : String
  status : Status
  detail : String

structure Report where
  results : List MasterResult
  err : Option Tier3Error

/-! ## The remote calls -/

def rotateKeypair (env : Env) : Handler Cluster (Option String) :=
  .atomic fun c =>
    (if env.rotate.applied then { c with endpoint := env.endpointKey } else c, env.rotate.error?)

def updateTunnelPeer (master : String) (key : Key) (rpc : Rpc) : Handler Cluster (Option String) :=
  .atomic fun c =>
    (if rpc.applied then { c with peer := update c.peer master key } else c, rpc.error?)

def setPubkey (failure : Option String) (key : Bytes) : Handler Cluster (Option String) :=
  .atomic fun c =>
    (if failure.isNone then { c with admin := some (key ++ [lf]) } else c, failure)

/-! ## The command -/

def prepare (env : Env) (stored : Bytes) : Except Tier3Error (Key × Key) :=
  match env.read with
  | some err => .error (.read err)
  | none =>
    if ByteText.trimSpace stored = [] then .error .uninitialized
    else match hexDecode (ByteText.trimSpace stored) with
      | none => .error .corrupt
      | some oldBytes =>
        match Key.ofBytes oldBytes with
        | none => .error (.wrongLength oldBytes.length)
        | some oldKey =>
          match env.keygen with
          | .error err => .error (.keygen err)
          | .ok privateKey =>
            match env.connectEndpoint with
            | some err => .error (.connectEndpoint err)
            | none => .ok (oldKey, privateKey)

def fanOut (env : Env) (newKey : Key) : List String → (i : Nat) → (results : List MasterResult) →
    (rotated : List String) → (anyFailure : Bool) →
    Handler Cluster (List MasterResult × List String × Bool)
  | [], _, results, rotated, anyFailure => pure (results, rotated, anyFailure)
  | master :: rest, i, results, rotated, anyFailure =>
    match (env.master i).connect with
    | some err =>
      fanOut env newKey rest (i + 1) (results ++ [⟨master, .failed, "connect: " ++ err⟩])
        rotated true
    | none =>
      updateTunnelPeer master newKey (env.master i).update >>= fun rpcErr =>
        match rpcErr with
        | some err =>
          fanOut env newKey rest (i + 1) (results ++ [⟨master, .failed, err⟩]) rotated true
        | none =>
          fanOut env newKey rest (i + 1) (results ++ [⟨master, .rotated, ""⟩])
            (rotated ++ [master]) anyFailure

def revertOne (env : Env) (oldKey : Key) (rotated : List String) (result : MasterResult) (i : Nat) :
    Handler Cluster MasterResult :=
  if result.status ≠ .rotated then pure result
  else match rotated.find? (· = result.name) with
    | none =>
      pure { result with
        status := .revertFailed
        detail := "internal: master struct not found during rollback" }
    | some master =>
      match (env.master i).revertConnect with
      | some err =>
        pure { result with status := .revertFailed, detail := "revert connect: " ++ err }
      | none =>
        updateTunnelPeer master oldKey (env.master i).revert >>= fun revertErr =>
          match revertErr with
          | some err =>
            pure { result with status := .revertFailed, detail := "revert rpc: " ++ err }
          | none => pure { result with status := .reverted, detail := "" }

def rollback (env : Env) (oldKey : Key) (rotated : List String) : List MasterResult → (i : Nat) →
    Handler Cluster (List MasterResult)
  | [], _ => pure []
  | result :: rest, i =>
    revertOne env oldKey rotated result i >>= fun result =>
      rollback env oldKey rotated rest (i + 1) >>= fun rest => pure (result :: rest)

def failCount (results : List MasterResult) : Nat :=
  results.countP fun r => r.status = .failed || r.status = .revertFailed

def commitKey (env : Env) (newKey : Key) (results : List MasterResult) : Handler Cluster Report :=
  setPubkey env.commit newKey.hex >>= fun failure =>
    pure { results := results, err := failure.map .commit }

def distribute (env : Env) (oldKey newKey : Key) (masters : List String) : Handler Cluster Report :=
  fanOut env newKey masters 0 [] [] false >>= fun (results, rotated, anyFailure) =>
    if anyFailure then
      rollback env oldKey rotated results 0 >>= fun results =>
        pure { results := results, err := some (.fanOut (failCount results)) }
    else commitKey env newKey results

def executeTier3Rotation (derive : Key → Key) (env : Env) (masters : List String) :
    Handler Cluster Report :=
  read Cluster.adminKey >>= fun stored =>
    match prepare env stored with
    | .error err => pure { results := [], err := some err }
    | .ok (oldKey, privateKey) =>
      rotateKeypair env >>= fun rpcErr =>
        match rpcErr with
        | some err => pure { results := [], err := some (.rotate err) }
        | none =>
          if env.endpointKey ≠ derive privateKey then
            pure { results := [], err := some .mismatch }
          else distribute env oldKey (derive privateKey) masters

/-! ## One master -/

namespace MasterEnv

def fails (m : MasterEnv) : Bool := m.connect.isSome || m.update.error?.isSome

def updated (m : MasterEnv) : Bool := m.connect.isNone && m.update.applied

def takenBack (m : MasterEnv) : Bool := !m.fails && m.revertConnect.isNone && m.revert.applied

def reportsBack (m : MasterEnv) : Bool :=
  !m.fails && m.revertConnect.isNone && m.revert.error?.isNone

def fanResult (m : MasterEnv) (name : String) : MasterResult :=
  match m.connect, m.update.error? with
  | some err, _ => ⟨name, .failed, "connect: " ++ err⟩
  | none, some err => ⟨name, .failed, err⟩
  | none, none => ⟨name, .rotated, ""⟩

def finalResult (m : MasterEnv) (name : String) : MasterResult :=
  if m.fails then m.fanResult name
  else match m.revertConnect, m.revert.error? with
    | some err, _ => ⟨name, .revertFailed, "revert connect: " ++ err⟩
    | none, some err => ⟨name, .revertFailed, "revert rpc: " ++ err⟩
    | none, none => ⟨name, .reverted, ""⟩

@[simp] theorem fanResult_name (m : MasterEnv) (name : String) :
    (m.fanResult name).name = name := by
  unfold fanResult
  split <;> rfl

@[simp] theorem finalResult_name (m : MasterEnv) (name : String) :
    (m.finalResult name).name = name := by
  unfold finalResult
  split
  · exact m.fanResult_name name
  · split <;> rfl

theorem fanResult_status (m : MasterEnv) (name : String) :
    (m.fanResult name).status = if m.fails then .failed else .rotated := by
  unfold fanResult fails
  cases m.connect <;> cases m.update.error? <;> rfl

theorem finalResult_status (m : MasterEnv) (name : String) :
    (m.finalResult name).status =
      if m.fails then .failed else if m.reportsBack then .reverted else .revertFailed := by
  unfold finalResult reportsBack
  cases hfails : m.fails with
  | true => simp [fanResult_status, hfails]
  | false => cases m.revertConnect <;> cases m.revert.error? <;> simp

end MasterEnv

/-! ## All masters -/

def rows (env : Env) (f : MasterEnv → String → MasterResult) : List String → (i : Nat) →
    List MasterResult
  | [], _ => []
  | name :: rest, i => f (env.master i) name :: rows env f rest (i + 1)

def rotatedMasters (env : Env) : List String → (i : Nat) → List String
  | [], _ => []
  | name :: rest, i =>
    if (env.master i).fails then rotatedMasters env rest (i + 1)
    else name :: rotatedMasters env rest (i + 1)

def anyFails (env : Env) : List String → (i : Nat) → Bool
  | [], _ => false
  | _ :: rest, i => (env.master i).fails || anyFails env rest (i + 1)

def assign (key : Key) (p : Nat → Bool) : List String → (i : Nat) → (String → Key) → String → Key
  | [], _, peer => peer
  | name :: rest, i, peer =>
    assign key p rest (i + 1) (if p i then update peer name key else peer)

variable {key : Key} {p : Nat → Bool} {names : List String} {i : Nat} {peer : String → Key}
  {name : String}

theorem assign_of_notMem (h : name ∉ names) : assign key p names i peer name = peer name := by
  induction names generalizing i peer with
  | nil => rfl
  | cons n rest ih =>
    rw [mem_cons, not_or] at h
    rw [assign, ih h.2]
    split
    · rw [update_of_ne h.1]
    · rfl

theorem assign_getElem? {i k : Nat} (hnodup : names.Nodup) (hk : names[k]? = some name) :
    assign key p names i peer name = if p (i + k) then key else peer name := by
  induction names generalizing i k peer with
  | nil => cases hk
  | cons n rest ih =>
    obtain ⟨hnot, hrest⟩ := nodup_cons.mp hnodup
    rw [assign]
    cases k with
    | zero =>
      rw [getElem?_cons_zero, Option.some.injEq] at hk
      subst hk
      rw [assign_of_notMem hnot, Nat.add_zero]
      split
      · rw [update_self]
      · rfl
    | succ k =>
      rw [getElem?_cons_succ] at hk
      have hne : name ≠ n := by
        rintro rfl
        exact hnot (mem_of_getElem? hk)
      rw [ih hrest hk, show i + 1 + k = i + (k + 1) by omega]
      split
      · rfl
      · split
        · rw [update_of_ne hne]
        · rfl

variable {env : Env}

theorem anyFails_eq_false :
    anyFails env names i = false ↔ ∀ k < names.length, (env.master (i + k)).fails = false := by
  induction names generalizing i with
  | nil => simp [anyFails]
  | cons n rest ih =>
    rw [anyFails, Bool.or_eq_false_iff, ih]
    constructor
    · rintro ⟨hfirst, hrest⟩ k hk
      cases k with
      | zero => exact hfirst
      | succ k =>
        have hlt : k < rest.length := by simpa using hk
        rw [show i + (k + 1) = i + 1 + k by omega]
        exact hrest k hlt
    · intro h
      refine ⟨h 0 (by simp), ?_⟩
      intro k hk
      rw [show i + 1 + k = i + (k + 1) by omega]
      exact h (k + 1) (by simpa using hk)

theorem mem_rows {f : MasterEnv → String → MasterResult} {row : MasterResult} :
    row ∈ rows env f names i ↔
      ∃ k name, names[k]? = some name ∧ row = f (env.master (i + k)) name := by
  induction names generalizing i with
  | nil => simp [rows]
  | cons n rest ih =>
    rw [rows, mem_cons, ih]
    constructor
    · rintro (rfl | ⟨k, name, hk, rfl⟩)
      · exact ⟨0, n, rfl, rfl⟩
      · exact ⟨k + 1, name, hk, by rw [show i + (k + 1) = i + 1 + k by omega]⟩
    · rintro ⟨k, name, hk, rfl⟩
      cases k with
      | zero =>
        cases hk
        exact .inl rfl
      | succ k => exact .inr ⟨k, name, hk, by rw [show i + (k + 1) = i + 1 + k by omega]⟩

/-! ## Running the loops -/

theorem run_updateTunnelPeer (name : String) (key : Key) (rpc : Rpc) (c : Cluster) :
    (updateTunnelPeer name key rpc).run c =
      ({ c with peer := if rpc.applied then update c.peer name key else c.peer },
        rpc.error?) := by
  rw [updateTunnelPeer, run_atomic]
  cases rpc.applied <;> rfl

open MasterEnv

theorem run_fanOut (env : Env) (newKey : Key) (names : List String) (i : Nat)
    (results : List MasterResult) (rotated : List String) (anyFailure : Bool) (c : Cluster) :
    (fanOut env newKey names i results rotated anyFailure).run c =
      ({ c with peer := assign newKey (fun k => (env.master k).updated) names i c.peer },
        results ++ rows env fanResult names i, rotated ++ rotatedMasters env names i,
        anyFailure || anyFails env names i) := by
  induction names generalizing i results rotated anyFailure c with
  | nil => simp [fanOut, assign, rows, rotatedMasters, anyFails]
  | cons n rest ih =>
    rw [fanOut]
    cases hconnect : (env.master i).connect with
    | some err =>
      dsimp only
      rw [ih]
      simp [assign, rows, rotatedMasters, anyFails, updated, fails,
        fanResult, hconnect]
    | none =>
      dsimp only
      rw [run_bind, run_updateTunnelPeer]
      dsimp only
      cases herr : (env.master i).update.error? with
      | some err =>
        dsimp only
        rw [ih]
        simp [assign, rows, rotatedMasters, anyFails, updated,
          fails, fanResult, hconnect, herr]
      | none =>
        dsimp only
        rw [ih]
        simp [assign, rows, rotatedMasters, anyFails, updated,
          fails, fanResult, hconnect, herr]

theorem find?_eq_some_self (h : name ∈ names) : names.find? (· = name) = some name := by
  have hsome : (names.find? (· = name)).isSome := by
    rw [find?_isSome]
    exact ⟨name, h, by simp⟩
  obtain ⟨found, hfound⟩ := Option.isSome_iff_exists.mp hsome
  have heq : found = name := by simpa using find?_some hfound
  rw [hfound, heq]

variable {oldKey : Key} {rotated : List String}

theorem run_revertOne
    (h : (env.master i).fails = false → name ∈ rotated) (c : Cluster) :
    (revertOne env oldKey rotated ((env.master i).fanResult name) i).run c =
      ({ c with peer :=
          if (env.master i).takenBack then update c.peer name oldKey else c.peer },
        (env.master i).finalResult name) := by
  rw [revertOne, fanResult_status]
  cases hfails : (env.master i).fails with
  | true => simp [takenBack, finalResult, hfails]
  | false =>
    rw [fanResult_name, find?_eq_some_self (h hfails)]
    cases hconnect : (env.master i).revertConnect with
    | some err => simp [takenBack, finalResult, hfails, hconnect]
    | none =>
      cases herr : (env.master i).revert.error? <;>
        simp [takenBack, finalResult, hfails, hconnect, herr,
          run_updateTunnelPeer]

theorem run_rollback
    (h : rotatedMasters env names i ⊆ rotated) (c : Cluster) :
    (rollback env oldKey rotated (rows env fanResult names i) i).run c =
      ({ c with peer := assign oldKey (fun k => (env.master k).takenBack) names i c.peer },
        rows env finalResult names i) := by
  induction names generalizing i c with
  | nil => rfl
  | cons n rest ih =>
    have hhead : (env.master i).fails = false → n ∈ rotated := by
      intro hfails
      apply h
      simp [rotatedMasters, hfails]
    have htail : rotatedMasters env rest (i + 1) ⊆ rotated := by
      intro name hname
      apply h
      rw [rotatedMasters]
      split
      · exact hname
      · exact mem_cons_of_mem _ hname
    rw [rows, rollback, run_bind, run_revertOne hhead, run_bind, ih htail]
    rfl

def fannedOut (env : Env) (newKey : Key) (masters : List String) (peer : String → Key) :
    String → Key :=
  assign newKey (fun k => (env.master k).updated) masters 0 peer

def rolledBack (env : Env) (oldKey : Key) (masters : List String) (peer : String → Key) :
    String → Key :=
  assign oldKey (fun k => (env.master k).takenBack) masters 0 peer

variable {masters : List String}

theorem run_distribute_of_fails
    (h : anyFails env masters 0 = true) (oldKey newKey : Key) (c : Cluster) :
    (distribute env oldKey newKey masters).run c =
      ({ c with peer := rolledBack env oldKey masters (fannedOut env newKey masters c.peer) },
        { results := rows env finalResult masters 0,
          err := some (.fanOut (failCount (rows env finalResult masters 0))) }) := by
  rw [distribute, run_bind, run_fanOut, h]
  simp only [nil_append, Bool.or_true, if_true, run_bind, run_pure]
  rw [run_rollback (Subset.refl _)]
  rfl

theorem run_distribute_of_not_fails
    (h : anyFails env masters 0 = false) (oldKey newKey : Key) (c : Cluster) :
    (distribute env oldKey newKey masters).run c =
      ({ c with
          peer := fannedOut env newKey masters c.peer,
          admin := if env.commit.isNone then some (newKey.hex ++ [lf]) else c.admin },
        { results := rows env fanResult masters 0, err := env.commit.map .commit }) := by
  rw [distribute, run_bind, run_fanOut, h]
  simp only [nil_append, Bool.or_false, if_false, Bool.false_eq_true, commitKey,
    run_bind, run_pure, setPubkey, run_atomic]
  cases env.commit <;> rfl

/-! ## The outcome -/

theorem keygen_of_prepare {stored : Bytes} {oldKey privateKey : Key}
    (h : prepare env stored = .ok (oldKey, privateKey)) : env.keygen = .ok privateKey := by
  unfold prepare at h
  repeat' split at h
  all_goals cases h
  assumption

/-- The command gets as far as the masters. -/
def Distributes (derive : Key → Key) (env : Env) (c : Cluster) (oldKey privateKey : Key) : Prop :=
  prepare env c.adminKey = .ok (oldKey, privateKey) ∧ env.rotate.error? = none ∧
    env.endpointKey = derive privateKey

theorem run_executeTier3Rotation (derive : Key → Key) (env : Env) (masters : List String)
    (c : Cluster) :
    ((∀ oldKey privateKey, ¬ Distributes derive env c oldKey privateKey) ∧
      ∃ endpoint err, (executeTier3Rotation derive env masters).run c =
        ({ c with endpoint := endpoint }, { results := [], err := some err })) ∨
    ∃ oldKey privateKey, Distributes derive env c oldKey privateKey ∧
      (executeTier3Rotation derive env masters).run c =
        (distribute env oldKey (derive privateKey) masters).run
          { c with endpoint := derive privateKey } := by
  rw [executeTier3Rotation, run_bind, run_read]
  dsimp only
  cases hprepare : prepare env c.adminKey with
  | error err =>
    refine .inl ⟨?_, c.endpoint, err, rfl⟩
    rintro oldKey privateKey ⟨h, -⟩
    rw [hprepare] at h
    cases h
  | ok keys =>
    obtain ⟨oldKey, privateKey⟩ := keys
    have hkeys : ∀ {k p}, Distributes derive env c k p →
        k = oldKey ∧ p = privateKey := by
      intro k p h
      have heq := h.1
      rw [hprepare] at heq
      cases heq
      exact ⟨rfl, rfl⟩
    dsimp only
    rw [run_bind, rotateKeypair, run_atomic]
    cases hrotate : env.rotate with
    | failed applied err =>
      refine .inl ⟨fun k p h => ?_, ?_⟩
      · have herr := h.2.1
        rw [hrotate] at herr
        cases herr
      · cases applied with
        | true => exact ⟨env.endpointKey, .rotate err, rfl⟩
        | false => exact ⟨c.endpoint, .rotate err, rfl⟩
    | ok =>
      simp only [Rpc.applied, Rpc.error?, if_true]
      by_cases hkey : env.endpointKey = derive privateKey
      · refine .inr ⟨oldKey, privateKey, ⟨hprepare, by rw [hrotate]; rfl, hkey⟩, ?_⟩
        rw [if_neg (not_not.mpr hkey), hkey]
      · refine .inl ⟨fun k p h => ?_, env.endpointKey, .mismatch, ?_⟩
        · obtain ⟨rfl, rfl⟩ := hkeys h
          exact hkey h.2.2
        · rw [if_pos hkey]
          rfl

/-- What the report says of the masters and of the admin state is so. -/
structure Truthful (derive : Key → Key) (env : Env) (masters : List String) (c c' : Cluster)
    (report : Report) : Prop where
  complete : report.err = none → ∃ privateKey, env.keygen = .ok privateKey ∧
    c'.endpoint = derive privateKey ∧ (∀ master ∈ masters, c'.peer master = derive privateKey) ∧
      c'.admin = some ((derive privateKey).hex ++ [lf])
  admin_kept : report.err ≠ none → c'.admin = c.admin
  old_key : ∀ row ∈ report.results, row.status = .failed ∨ row.status = .reverted →
    c'.peer row.name = c.peer row.name
  new_key : ∀ row ∈ report.results, row.status = .rotated →
    ∃ privateKey, env.keygen = .ok privateKey ∧ c'.peer row.name = derive privateKey

/-- An update behind an error changes nothing; a master that is taken back had the old key. -/
def NoHiddenUpdate (derive : Key → Key) (env : Env) (masters : List String) (c : Cluster) : Prop :=
  ∀ oldKey privateKey, Distributes derive env c oldKey privateKey →
    ∀ i name, masters[i]? = some name →
      ((env.master i).connect = none → (∃ err, (env.master i).update = .failed true err) →
        c.peer name = derive privateKey) ∧
      (anyFails env masters 0 = true → (env.master i).reportsBack = true → c.peer name = oldKey)

section Distributed

variable {derive : Key → Key} {env : Env} {masters : List String} {c : Cluster}
  {oldKey privateKey : Key}

theorem Distributes.unique (h : Distributes derive env c oldKey privateKey) {k p : Key}
    (h' : Distributes derive env c k p) : k = oldKey ∧ p = privateKey := by
  have heq := h'.1
  rw [h.1] at heq
  cases heq
  exact ⟨rfl, rfl⟩

variable {m : MasterEnv}

theorem updated_of_not_fails (h : m.fails = false) : m.updated = true := by
  obtain ⟨hconnect, hupdate⟩ := Bool.or_eq_false_iff.mp h
  unfold updated
  cases hrpc : m.update with
  | ok => simp_all [Rpc.applied]
  | failed applied err => simp [hrpc, Rpc.error?] at hupdate

variable {name : String}

theorem fannedOut_of_not_fails (hnodup : masters.Nodup) (hfails : anyFails env masters 0 = false)
    (hname : name ∈ masters) (newKey : Key) (peer : String → Key) :
    fannedOut env newKey masters peer name = newKey := by
  obtain ⟨k, hk⟩ := List.mem_iff_getElem?.mp hname
  have hlt : k < masters.length := by
    obtain ⟨hlt, -⟩ := List.getElem?_eq_some_iff.mp hk
    exact hlt
  rw [fannedOut, assign_getElem? hnodup hk,
    updated_of_not_fails (anyFails_eq_false.mp hfails k hlt), if_pos rfl]

theorem truthful_of_not_fails (hnodup : masters.Nodup) (hfails : anyFails env masters 0 = false)
    (h : Distributes derive env c oldKey privateKey) :
    Truthful derive env masters c
      { c with
        endpoint := derive privateKey, peer := fannedOut env (derive privateKey) masters c.peer,
        admin := if env.commit.isNone then some ((derive privateKey).hex ++ [lf]) else c.admin }
      { results := rows env fanResult masters 0, err := env.commit.map .commit } where
  complete := by
    intro herr
    have hcommit : env.commit = none := Option.map_eq_none_iff.mp herr
    refine ⟨privateKey, keygen_of_prepare h.1, rfl, ?_, ?_⟩
    · intro master hmaster
      exact fannedOut_of_not_fails hnodup hfails hmaster _ _
    · simp [hcommit]
  admin_kept := by
    intro herr
    have hcommit : env.commit ≠ none := fun h => herr (Option.map_eq_none_iff.mpr h)
    simp [hcommit]
  old_key := by
    intro row hrow hstatus
    obtain ⟨k, name, hk, rfl⟩ := mem_rows.mp hrow
    obtain ⟨hlt, -⟩ := List.getElem?_eq_some_iff.mp hk
    have hmaster := anyFails_eq_false.mp hfails k hlt
    rw [fanResult_status, hmaster] at hstatus
    simp at hstatus
  new_key := by
    intro row hrow _
    obtain ⟨k, name, hk, rfl⟩ := mem_rows.mp hrow
    refine ⟨privateKey, keygen_of_prepare h.1, ?_⟩
    rw [fanResult_name]
    exact fannedOut_of_not_fails hnodup hfails (List.mem_of_getElem? hk) _ _

variable {newKey k₀ : Key}

theorem failed_row_iff (hfails : m.fails = true) :
    (if m.takenBack then oldKey else if m.updated then newKey else k₀) = k₀ ↔
      (m.connect = none → (∃ err, m.update = .failed true err) → k₀ = newKey) := by
  have hback : m.takenBack = false := by simp [takenBack, hfails]
  rw [hback]
  unfold fails at hfails
  unfold updated
  cases hconnect : m.connect with
  | some err => simp
  | none =>
    cases hupdate : m.update with
    | ok => simp [hconnect, hupdate, Rpc.error?] at hfails
    | failed applied err => cases applied <;> simp [Rpc.applied, eq_comm]

theorem reverted_row_iff (hback : m.reportsBack = true) :
    (if m.takenBack then oldKey else if m.updated then newKey else k₀) = k₀ ↔ k₀ = oldKey := by
  have htaken : m.takenBack = true := by
    unfold reportsBack at hback
    unfold takenBack
    cases hrevert : m.revert with
    | ok => simpa [hrevert, Rpc.error?, Rpc.applied] using hback
    | failed applied err => simp [hrevert, Rpc.error?] at hback
  rw [htaken, if_pos rfl, eq_comm]

theorem truthful_iff_of_fails (hnodup : masters.Nodup) (hfails : anyFails env masters 0 = true)
    (h : Distributes derive env c oldKey privateKey) {err : Tier3Error} :
    Truthful derive env masters c
        { c with
          endpoint := derive privateKey,
          peer := rolledBack env oldKey masters (fannedOut env (derive privateKey) masters c.peer) }
        { results := rows env finalResult masters 0, err := some err } ↔
      NoHiddenUpdate derive env masters c := by
  constructor
  · intro htrue k p hdist i name hi
    obtain ⟨rfl, rfl⟩ := h.unique hdist
    have hrow := htrue.old_key ((env.master i).finalResult name)
      (mem_rows.mpr ⟨i, name, hi, by rw [Nat.zero_add]⟩)
    dsimp only at hrow
    rw [finalResult_status, finalResult_name,
      rolledBack, assign_getElem? hnodup hi, fannedOut, assign_getElem? hnodup hi,
      Nat.zero_add] at hrow
    refine ⟨fun hconnect hupdate => ?_, fun _ hback => ?_⟩
    · obtain ⟨err, hupdate⟩ := hupdate
      have hmaster : (env.master i).fails = true := by
        simp [fails, hupdate, Rpc.error?]
      rw [hmaster] at hrow
      exact (failed_row_iff hmaster).mp (hrow (.inl rfl)) hconnect ⟨err, hupdate⟩
    · have hmaster : (env.master i).fails = false := by
        unfold reportsBack at hback
        cases hf : (env.master i).fails <;> simp_all
      rw [hmaster, hback] at hrow
      exact (reverted_row_iff hback).mp (hrow (.inr rfl))
  · intro hcond
    refine ⟨by simp, fun _ => rfl, ?_, ?_⟩
    · intro row hrow hstatus
      obtain ⟨k, name, hk, rfl⟩ := mem_rows.mp hrow
      rw [Nat.zero_add] at hstatus ⊢
      obtain ⟨hfailed, hreverted⟩ := hcond oldKey privateKey h k name hk
      rw [finalResult_status] at hstatus
      dsimp only
      rw [finalResult_name, rolledBack, assign_getElem? hnodup hk, fannedOut,
        assign_getElem? hnodup hk, Nat.zero_add]
      cases hmaster : (env.master k).fails with
      | true => exact (failed_row_iff hmaster).mpr hfailed
      | false =>
        cases hback : (env.master k).reportsBack with
        | true => exact (reverted_row_iff hback).mpr (hreverted hfails hback)
        | false => simp [hmaster, hback] at hstatus
    · intro row hrow hstatus
      obtain ⟨k, name, hk, rfl⟩ := mem_rows.mp hrow
      rw [finalResult_status] at hstatus
      repeat' split at hstatus
      all_goals cases hstatus

end Distributed

/-- **The outcome of a tier-3 rotation**. -/
theorem tier3_outcome_iff (derive : Key → Key) (env : Env) (masters : List String) (c : Cluster)
    (hnodup : masters.Nodup) :
    Truthful derive env masters c ((executeTier3Rotation derive env masters).run c).1
        ((executeTier3Rotation derive env masters).run c).2 ↔
      NoHiddenUpdate derive env masters c := by
  rcases run_executeTier3Rotation derive env masters c with
    ⟨hnone, endpoint, err, hrun⟩ | ⟨oldKey, privateKey, hdist, hrun⟩
  · rw [hrun]
    refine iff_of_true ?_ ?_
    · exact ⟨by simp, fun _ => rfl, by simp, by simp⟩
    · intro oldKey privateKey h
      exact absurd h (hnone oldKey privateKey)
  · rw [hrun]
    cases hfails : anyFails env masters 0 with
    | true =>
      rw [run_distribute_of_fails hfails]
      exact truthful_iff_of_fails hnodup hfails hdist
    | false =>
      rw [run_distribute_of_not_fails hfails]
      refine iff_of_true (truthful_of_not_fails hnodup hfails hdist) ?_
      intro k p _ i name hi
      obtain ⟨hlt, -⟩ := List.getElem?_eq_some_iff.mp hi
      have hmaster := anyFails_eq_false.mp hfails i hlt
      refine ⟨fun _ hupdate => ?_, fun h => absurd hfails (by simp [h])⟩
      obtain ⟨err, hupdate⟩ := hupdate
      rw [Nat.zero_add] at hmaster
      simp [fails, hupdate, Rpc.error?] at hmaster

def settled (key : Key) : Cluster :=
  { endpoint := key, peer := fun _ => key, admin := some (key.hex ++ [lf]) }

def lostAnswer (derive : Key → Key) : Env :=
  { keygen := .ok (.repeated 7)
    endpointKey := derive (.repeated 7)
    master := fun i => if i = 0 then { update := .failed true "deadline exceeded" } else {} }

theorem tier3_outcome_lostAnswer :
    ["m1", "m2"].Nodup ∧ (Truthful id (lostAnswer id) ["m1", "m2"] (settled (.repeated 1))
          ((executeTier3Rotation id (lostAnswer id) ["m1", "m2"]).run (settled (.repeated 1))).1
          ((executeTier3Rotation id (lostAnswer id) ["m1", "m2"]).run (settled (.repeated 1))).2 ↔
        NoHiddenUpdate id (lostAnswer id) ["m1", "m2"] (settled (.repeated 1))) :=
  ⟨by decide, tier3_outcome_iff id (lostAnswer id) ["m1", "m2"] (settled (.repeated 1)) (by decide)⟩

/-- **A lost answer** hides an update. -/
theorem lostAnswer_not_truthful :
    ¬ ∃ derive : Key → Key, ∀ (env : Env) (masters : List String) (c : Cluster), masters.Nodup →
      Truthful derive env masters c ((executeTier3Rotation derive env masters).run c).1
        ((executeTier3Rotation derive env masters).run c).2 := by
  rintro ⟨derive, h⟩
  obtain ⟨b, hb, hprepare⟩ : ∃ b, derive (.repeated 7) ≠ .repeated b ∧
      prepare (lostAnswer derive) (settled (.repeated b)).adminKey =
        .ok (.repeated b, .repeated 7) := by
    by_cases hone : derive (.repeated 7) = .repeated 1
    · exact ⟨2, by rw [hone]; decide, rfl⟩
    · exact ⟨1, hone, rfl⟩
  have hdist : Distributes derive (lostAnswer derive) (settled (.repeated b)) (.repeated b)
      (.repeated 7) := ⟨hprepare, rfl, rfl⟩
  have htrue := h (lostAnswer derive) ["m1", "m2"] (settled (.repeated b)) (by decide)
  rcases run_executeTier3Rotation derive (lostAnswer derive) ["m1", "m2"]
      (settled (.repeated b)) with ⟨hnone, -⟩ | ⟨k, p, hkp, hrun⟩
  · exact hnone _ _ hdist
  · obtain ⟨rfl, rfl⟩ := hdist.unique hkp
    rw [hrun, run_distribute_of_fails rfl] at htrue
    have hrow := htrue.old_key ⟨"m1", .failed, "deadline exceeded"⟩ mem_cons_self (.inl rfl)
    exact hb hrow

/-! ## Several tier-3 rotations at once -/

def smooth (derive : Key → Key) (privateKey : Key) : Env :=
  { keygen := .ok privateKey, endpointKey := derive privateKey }

def rotations (derive : Key → Key) (masters : List String) (c : Cluster) :
    Machine (Counted Cluster Key Report) (Event Key) :=
  handlers (fun privateKey => executeTier3Rotation derive (smooth derive privateKey) masters) c

inductive Party where
  | endpoint
  | master (name : String)
  | admin

def parties (masters : List String) : List Party := .endpoint :: (masters.map .master ++ [.admin])

def Cluster.Holds (c : Cluster) : Party → Key → Prop
  | .endpoint, key => c.endpoint = key
  | .master name, key => c.peer name = key
  | .admin, key => c.admin = some (key.hex ++ [lf])

/-- Once all runs have returned nil, there is one key everywhere. -/
def Converged (masters : List String) (s : Counted Cluster Key Report) : Prop :=
  s.pool.threads ≠ [] →
    (∀ t ∈ s.pool.threads, ∃ report : Report, t.program = .done report ∧ report.err = none) →
      ∃ key : Key, s.pool.shared.admin = some (key.hex ++ [lf]) ∧ s.pool.shared.endpoint = key ∧
        ∀ master ∈ masters, s.pool.shared.peer master = key

/-! ## The command as a sweep -/

def smoothRotation (derive : Key → Key) (masters : List String) (privateKey : Key)
    (stored : Bytes) : Handler Cluster Report :=
  match prepare (smooth derive privateKey) stored with
  | .error err => pure { results := [], err := some err }
  | .ok (oldKey, _) =>
    rotateKeypair (smooth derive privateKey) >>= fun _ =>
      distribute (smooth derive privateKey) oldKey (derive privateKey) masters

theorem executeTier3Rotation_smooth (derive : Key → Key) (masters : List String)
    (privateKey : Key) :
    executeTier3Rotation derive (smooth derive privateKey) masters =
      read Cluster.adminKey >>= smoothRotation derive masters privateKey := by
  unfold executeTier3Rotation
  congr 1
  funext stored
  unfold smoothRotation
  cases hprepare : prepare (smooth derive privateKey) stored with
  | error err => rfl
  | ok keys =>
    obtain ⟨oldKey, key⟩ := keys
    have hkey : privateKey = key := by
      have hgen := keygen_of_prepare hprepare
      cases hgen
      rfl
    subst hkey
    show call _ _ = call _ _
    congr 1
    funext c
    exact if_neg (not_not.mpr rfl)

section Sweeps

variable {derive : Key → Key} {privateKey : Key} {masters : List String}

theorem writes_endpoint (c : Cluster) (key : Key) :
    Writes Cluster.Holds .endpoint key c { c with endpoint := key } := by
  refine ⟨rfl, ?_⟩
  intro party hne key' h
  cases party with
  | endpoint => exact absurd rfl hne
  | master name => exact h
  | admin => exact h

theorem writes_master (c : Cluster) (name : String) (key : Key) :
    Writes Cluster.Holds (.master name) key c
      { c with peer := update c.peer name key } := by
  refine ⟨update_self .., ?_⟩
  intro party hne key' h
  cases party with
  | endpoint => exact h
  | master other =>
    have hother : other ≠ name := fun heq => hne (congrArg Party.master heq)
    exact (update_of_ne hother ..).trans h
  | admin => exact h

theorem writes_admin (c : Cluster) (key : Key) :
    Writes Cluster.Holds .admin key c { c with admin := some (key.hex ++ [lf]) } := by
  refine ⟨rfl, ?_⟩
  intro party hne key' h
  cases party with
  | endpoint => exact h
  | master name => exact h
  | admin => exact absurd rfl hne

theorem sweeps_fanOut (key : Key)
    {k : List MasterResult × List String × Bool → Handler Cluster Report} (hk : ∀ results rotated,
      Sweeps Cluster.Holds (·.err = none) key (k (results, rotated, false)) 0 [.admin])
    (i : Nat) (results : List MasterResult) (rotated : List String) :
    Sweeps Cluster.Holds (·.err = none) key
      (fanOut (smooth derive privateKey) key masters i results rotated false >>= k) 0
      (masters.map .master ++ [.admin]) := by
  induction masters generalizing i results rotated with
  | nil => exact hk results rotated
  | cons name rest ih =>
    intro c
    exact .inr ⟨writes_master c name key, ih (i + 1) _ _⟩

theorem sweeps_smoothRotation (stored : Bytes) :
    Sweeps Cluster.Holds (fun report : Report => report.err = none) (derive privateKey)
      (smoothRotation derive masters privateKey stored) 0 (parties masters) := by
  unfold smoothRotation
  cases prepare (smooth derive privateKey) stored with
  | error err => exact fun herr => nomatch herr
  | ok keys =>
    intro c
    refine .inr ⟨writes_endpoint c (derive privateKey), ?_⟩
    refine sweeps_fanOut (derive privateKey) ?_ 0 [] []
    intro results rotated c
    exact .inr ⟨writes_admin c (derive privateKey), fun _ => rfl⟩

theorem sweeps_executeTier3Rotation (privateKey : Key) :
    Sweeps Cluster.Holds (fun report : Report => report.err = none) (derive privateKey)
      (executeTier3Rotation derive (smooth derive privateKey) masters) 1 (parties masters) := by
  rw [executeTier3Rotation_smooth]
  intro c
  exact ⟨fun _ _ h => h, sweeps_smoothRotation c.adminKey⟩

end Sweeps

/-! ## Any number of runs -/

abbrev NoOverlap (masters : List String) : Counted Cluster Key Report → Event Key → Prop :=
  Exclusive 1 fun _ => parties masters

theorem converged_of_agree {masters : List String} {s : Counted Cluster Key Report}
    (h : Agree Cluster.Holds (fun report : Report => report.err = none) (parties masters) s) :
    Converged masters s := by
  intro hne hall
  obtain ⟨key, hkey⟩ := h hne hall
  refine ⟨key, hkey .admin (by simp [parties]), hkey .endpoint (by simp [parties]), ?_⟩
  intro master hmaster
  exact hkey (.master master) (by simp [parties, hmaster])

/-- **Rotations that do not overlap converge**. -/
theorem rotations_converge (derive : Key → Key) (masters : List String) (c : Cluster)
    (ls : List (Event Key)) (hexcl : (rotations derive masters c).Along (NoOverlap masters)
      (rotations derive masters c).init ls) :
    (rotations derive masters c).Throughout (Converged masters) (rotations derive masters c).init
      ls := by
  refine Machine.Throughout.imp (fun s => converged_of_agree) ?_
  exact agree_of_exclusive (fun _ _ h => h)
    (fun privateKey => sweeps_executeTier3Rotation privateKey) c ls hexcl

def oneAfterTheOther : List (Event Key) :=
  [.start (.repeated 7), .start (.repeated 8), .next 0, .next 1, .next 0, .next 0, .next 0, .next 1,
    .next 1, .next 1]

theorem rotations_converge_oneAfterTheOther :
    (rotations id ["m1"] (settled (.repeated 1))).Along (NoOverlap ["m1"])
        (rotations id ["m1"] (settled (.repeated 1))).init oneAfterTheOther ∧
      (rotations id ["m1"] (settled (.repeated 1))).Throughout (Converged ["m1"])
        (rotations id ["m1"] (settled (.repeated 1))).init oneAfterTheOther :=
  ⟨by decide, rotations_converge id ["m1"] (settled (.repeated 1)) oneAfterTheOther (by decide)⟩

theorem smoothRotation_settled (derive : Key → Key) (masters : List String) (privateKey : Key) :
    smoothRotation derive masters privateKey (settled (.repeated 1)).adminKey =
      rotateKeypair (smooth derive privateKey) >>= fun _ =>
        distribute (smooth derive privateKey) (.repeated 1) (derive privateKey) masters := by
  have hprepare : prepare (smooth derive privateKey) (settled (.repeated 1)).adminKey =
      .ok (.repeated 1, privateKey) := rfl
  unfold smoothRotation
  rw [hprepare]

theorem exec_reads (derive : Key → Key) (masters : List String) (c : Cluster) (a b : Key) :
    ∃ made, (rotations derive masters c).exec (rotations derive masters c).init
        [.start a, .start b, .next 0, .next 1] =
      some { pool :=
               { shared := c
                 threads :=
                   [⟨a, smoothRotation derive masters a c.adminKey⟩,
                    ⟨b, smoothRotation derive masters b c.adminKey⟩] }
             made := made } := by
  unfold rotations
  simp only [executeTier3Rotation_smooth]
  exact ⟨_, rfl⟩

def crossed : List (Event Key) :=
  [.start (.repeated 7), .start (.repeated 8), .next 0, .next 1] ++
    [.next 0, .next 1, .next 1, .next 1, .next 0, .next 0]

theorem exec_crossed (derive : Key → Key) :
    ∃ s report, (rotations derive ["m1"] (settled (.repeated 1))).exec
        (rotations derive ["m1"] (settled (.repeated 1))).init crossed = some s ∧
      s.pool.threads = [⟨.repeated 7, .done report⟩, ⟨.repeated 8, .done report⟩] ∧
      report.err = none ∧ s.pool.shared.endpoint = derive (.repeated 8) ∧
      s.pool.shared.peer "m1" = derive (.repeated 7) := by
  obtain ⟨made, hreads⟩ :=
    exec_reads derive ["m1"] (settled (.repeated 1)) (.repeated 7) (.repeated 8)
  rw [crossed, Machine.exec_append, hreads, smoothRotation_settled, smoothRotation_settled]
  exact ⟨_, _, rfl, rfl, rfl, rfl, rfl⟩

/-- **Rotations that overlap need not converge**. -/
theorem overlapping_rotations_diverge :
    ¬ ∃ derive : Key → Key, derive (.repeated 7) ≠ derive (.repeated 8) ∧
      ∀ (masters : List String) (c : Cluster) (ls : List (Event Key)),
        (rotations derive masters c).Throughout (Converged masters)
          (rotations derive masters c).init ls := by
  rintro ⟨derive, hne, h⟩
  obtain ⟨s, report, hexec, hthreads, hnil, hendpoint, hpeer⟩ := exec_crossed derive
  have hconv := (h ["m1"] (settled (.repeated 1)) crossed).last hexec
  obtain ⟨key, -, hkey, hmaster⟩ := hconv (by simp [hthreads]) (by simp [hthreads, hnil])
  rw [hendpoint] at hkey
  exact hne (hpeer.symm.trans ((hmaster "m1" (by simp)).trans hkey.symm))

end AwgMesh.MeshCtl
