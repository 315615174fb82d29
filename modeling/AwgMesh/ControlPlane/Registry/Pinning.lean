import AwgMesh.ControlPlane.Registry.Basic
import AwgMesh.Lib.Machine
import AwgMesh.Lib.Method

/-! # Identity pinning -/

namespace AwgMesh.ControlPlane

open Lib Method Registry

/-! ## The registry on its own -/

inductive RegistryOp where
  | register (node : RegisteredNode)
  | allowCertRollover (name : String) (certPEM : Bytes) (overlapUntil : Time)
  | clearCertRollover (name : String) (certPEM : Bytes)
  | heartbeat (name : String) (health : Option (OMap String String)) (pubkey : Bytes)
      (endpointHost protocol : String)
  | remove (name : String)

def RegistryOp.name : RegistryOp → String
  | .register node => node.name
  | .allowCertRollover name _ _ => name
  | .clearCertRollover name _ => name
  | .heartbeat name _ _ _ _ => name
  | .remove name => name

structure RegistryStep where
  now : Time
  op : RegistryOp

namespace RegistryStep

def result (r : Registry) (a : RegistryStep) : Except RegistryError Registry :=
  match a.op with
  | .register node => r.register a.now node
  | .allowCertRollover name certPEM overlapUntil =>
    r.allowCertRollover a.now name certPEM overlapUntil
  | .clearCertRollover name certPEM => r.clearCertRollover name certPEM
  | .heartbeat name health pubkey endpointHost protocol =>
    r.heartbeat a.now name health pubkey endpointHost protocol
  | .remove name => r.remove name

def after (r : Registry) (a : RegistryStep) : Registry :=
  match a.result r with
  | .ok r' => r'
  | .error _ => r

end RegistryStep

def registryRuns : Machine Registry RegistryStep where
  init := {}
  step r a := some (a.after r)

/-! ## History -/

def Unpins (name : String) (r : Registry) (a : RegistryStep) : Prop :=
  (∃ r', a.result r = .ok r') ∧
    match a.op with
    | .register node =>
      node.name = name ∧ ∃ prev, r.byName[name]? = some prev ∧ prev.nodeCertPEM ≠ node.nodeCertPEM
    | .allowCertRollover n _ _ => n = name
    | .clearCertRollover n certPEM =>
      n = name ∧ (certPEM = [] ∨ ∃ prev, r.byName[name]? = some prev ∧
        prev.pendingCertPEM = certPEM)
    | .heartbeat .. => False
    | .remove n => n = name

/-- `certPEM` has been pinned for `name` in the run, and nothing has unpinned it. -/
def PinnedIn (ls : List RegistryStep) (name : String) (certPEM : Bytes) (overlapUntil : Time) :
    Prop :=
  ∃ pre now post r r', ls = pre ++ ⟨now, .allowCertRollover name certPEM overlapUntil⟩ :: post ∧
    registryRuns.exec registryRuns.init pre = some r ∧
      r.allowCertRollover now name certPEM overlapUntil = .ok r' ∧
        registryRuns.Along (fun r a => ¬ Unpins name r a) r' post

/-! ## One call -/

section Step

variable {r : Registry} {a : RegistryStep} {name : String} {x y : RegisteredNode}

variable {r' : Registry}

theorem RegistryStep.after_ok (h : a.result r = .ok r') : a.after r = r' := by
  unfold RegistryStep.after
  rw [h]

theorem RegistryStep.after_error {err : RegistryError} (h : a.result r = .error err) :
    a.after r = r := by
  unfold RegistryStep.after
  rw [h]

inductive RecordOutcome (name : String) (r r' : Registry) (a : RegistryStep) : Prop where
  | other (hop : a.op.name ≠ name) (h : r'.byName[name]? = r.byName[name]?)
  | registered (node : RegisteredNode) (hop : a.op = .register node) (hname : node.name = name)
      (had : r.Admits a.now node) (h : r'.byName[name]? = some (r.recorded a.now node))
  | pinned (certPEM : Bytes) (overlapUntil : Time) (x : RegisteredNode)
      (hop : a.op = .allowCertRollover name certPEM overlapUntil) (hx : r.byName[name]? = some x)
      (hactive : hasActivePendingCert x a.now = true → x.pendingCertPEM = certPEM)
      (h : r'.byName[name]? =
        some { x with pendingCertPEM := certPEM, certOverlapUntil := overlapUntil })
  | notCleared (certPEM : Bytes) (x : RegisteredNode)
      (hop : a.op = .clearCertRollover name certPEM) (hx : r.byName[name]? = some x)
      (hne : certPEM ≠ []) (hother : x.pendingCertPEM ≠ certPEM)
      (h : r'.byName[name]? = some x)
  | cleared (certPEM : Bytes) (x : RegisteredNode) (hop : a.op = .clearCertRollover name certPEM)
      (hx : r.byName[name]? = some x) (hclear : certPEM = [] ∨ x.pendingCertPEM = certPEM)
      (h : r'.byName[name]? = some { x with pendingCertPEM := [], certOverlapUntil := 0 })
  | beaten (x y : RegisteredNode) (hop : ∃ health pubkey endpointHost protocol,
        a.op = .heartbeat name health pubkey endpointHost protocol ∧
          y = beat x a.now health pubkey endpointHost protocol)
      (hx : r.byName[name]? = some x) (h : r'.byName[name]? = some y)
  | removed (hop : a.op = .remove name) (h : r'.byName[name]? = none)

theorem RegistryStep.recordOutcome (name : String) (h : a.result r = .ok r') :
    RecordOutcome name r r' a := by
  obtain ⟨now, op⟩ := a
  by_cases hname : op.name = name
  · subst hname
    cases op with
    | register node =>
      obtain ⟨had, rfl⟩ := register_eq_ok_iff.mp h
      exact .registered node rfl rfl had store_recorded_byName_self
    | allowCertRollover n certPEM overlapUntil =>
      obtain ⟨-, -, -, x, hx, hactive, rfl⟩ := allowCertRollover_ok h
      exact .pinned certPEM overlapUntil x rfl hx hactive modify_byName_self
    | clearCertRollover n certPEM =>
      obtain ⟨x, hx, ⟨hne, hother, rfl⟩ | ⟨hclear, rfl⟩⟩ := clearCertRollover_ok h
      · exact .notCleared certPEM x rfl hx hne hother hx
      · exact .cleared certPEM x rfl hx hclear modify_byName_self
    | heartbeat n health pubkey endpointHost protocol =>
      obtain ⟨x, hx, rfl⟩ := heartbeat_ok h
      exact .beaten x _ ⟨health, pubkey, endpointHost, protocol, rfl, rfl⟩ hx
        modify_byName_self
    | remove n =>
      obtain ⟨x, hx, rfl⟩ := remove_ok h
      refine .removed rfl ?_
      rw [OMap.getElem?_erase]
      exact if_pos rfl
  · refine .other hname ?_
    cases op with
    | register node =>
      obtain ⟨-, rfl⟩ := register_eq_ok_iff.mp h
      rw [store_byName_getElem?, recorded_name]
      exact if_neg hname
    | allowCertRollover n certPEM overlapUntil =>
      obtain ⟨-, -, -, x, -, -, rfl⟩ := allowCertRollover_ok h
      rw [modify_byName_getElem?]
      exact if_neg hname
    | clearCertRollover n certPEM =>
      obtain ⟨x, -, ⟨-, -, rfl⟩ | ⟨-, rfl⟩⟩ := clearCertRollover_ok h
      · rfl
      · rw [modify_byName_getElem?]
        exact if_neg hname
    | heartbeat n health pubkey endpointHost protocol =>
      obtain ⟨x, -, rfl⟩ := heartbeat_ok h
      rw [modify_byName_getElem?]
      exact if_neg hname
    | remove n =>
      obtain ⟨x, -, rfl⟩ := remove_ok h
      exact OMap.getElem?_erase_of_ne _ hname

theorem Unpins.name_eq (h : Unpins name r a) : a.op.name = name := by
  obtain ⟨now, op⟩ := a
  cases op with
  | register node => exact h.2.1
  | allowCertRollover n certPEM overlapUntil => exact h.2
  | clearCertRollover n certPEM => exact h.2.1
  | heartbeat n health pubkey endpointHost protocol => exact h.2.elim
  | remove n => exact h.2

theorem pending_after (hy : (a.after r).byName[name]? = some y) (hp : y.pendingCertPEM ≠ []) :
    (a.op = .allowCertRollover name y.pendingCertPEM y.certOverlapUntil ∧
        a.result r = .ok (a.after r)) ∨
      ∃ x, r.byName[name]? = some x ∧ x.pendingCertPEM = y.pendingCertPEM ∧
        x.certOverlapUntil = y.certOverlapUntil ∧ ¬ Unpins name r a := by
  cases hres : a.result r with
  | error err =>
    rw [a.after_error hres] at hy
    refine .inr ⟨y, hy, rfl, rfl, ?_⟩
    rintro ⟨⟨r', hok⟩, -⟩
    rw [hres] at hok
    cases hok
  | ok r' =>
    rw [a.after_ok hres] at hy ⊢
    cases a.recordOutcome name hres with
    | other hop h => exact .inr ⟨y, h.symm.trans hy, rfl, rfl, fun hun => hop hun.name_eq⟩
    | registered node hop hname had h =>
      right
      subst hname
      rw [h] at hy
      cases hy
      cases hprev : r.byName[node.name]? with
      | none => exact absurd (by rw [recorded, hprev]) hp
      | some prev =>
        obtain ⟨hpending, huntil⟩ := recorded_pending a.now hprev
        by_cases hcert : prev.nodeCertPEM = node.nodeCertPEM
        · rw [if_pos hcert] at hpending huntil
          refine ⟨prev, rfl, hpending.symm, huntil.symm, ?_⟩
          unfold Unpins
          rw [hop]
          rintro ⟨-, -, prev', hprev', hne⟩
          rw [hprev] at hprev'
          cases hprev'
          exact hne hcert
        · -- a promotion leaves nothing pending
          rw [if_neg hcert] at hpending
          exact absurd hpending hp
    | pinned certPEM overlapUntil x hop hx hactive h =>
      rw [h] at hy
      cases hy
      exact .inl ⟨hop, rfl⟩
    | notCleared certPEM x hop hx hne hother h =>
      rw [h] at hy
      cases hy
      refine .inr ⟨y, hx, rfl, rfl, ?_⟩
      unfold Unpins
      rw [hop]
      rintro ⟨-, -, hempty | ⟨prev, hprev, hsame⟩⟩
      · exact hne hempty
      · rw [hx] at hprev
        cases hprev
        exact hother hsame
    | cleared certPEM x hop hx hclear h =>
      rw [h] at hy
      cases hy
      exact absurd rfl hp
    | beaten x z hop hx h =>
      obtain ⟨health, pubkey, endpointHost, protocol, hop, rfl⟩ := hop
      rw [h] at hy
      cases hy
      refine .inr ⟨x, hx, rfl, rfl, ?_⟩
      unfold Unpins
      rw [hop]
      exact And.right
    | removed hop h =>
      rw [h] at hy
      cases hy

theorem certificate_after (hop : ∀ n, a.op ≠ .remove n) (hx : r.byName[name]? = some x)
    (hy : (a.after r).byName[name]? = some y) (hne : x.nodeCertPEM ≠ y.nodeCertPEM) :
    ∃ node, a.op = .register node ∧ node.name = name ∧ a.result r = .ok (a.after r) ∧
      y.nodeCertPEM = node.nodeCertPEM ∧
        canPromotePendingCert x node.nodeCertPEM a.now = true := by
  cases hres : a.result r with
  | error err =>
    rw [a.after_error hres, hx] at hy
    cases hy
    exact absurd rfl hne
  | ok r' =>
    rw [a.after_ok hres] at hy ⊢
    -- all but a registration leave the certificate of every node as it is
    have hsame : ∀ {x' y'}, r.byName[name]? = some x' → r'.byName[name]? = some y' →
        y'.nodeCertPEM = x'.nodeCertPEM → False := by
      intro x' y' hx' hy' heq
      rw [hx] at hx'
      rw [hy] at hy'
      cases hx'
      cases hy'
      exact hne heq.symm
    cases a.recordOutcome name hres with
    | other hother h => exact (hsame hx (h.trans hx) rfl).elim
    | registered node hreg hname had h =>
      subst hname
      rw [h] at hy
      cases hy
      rw [recorded_nodeCertPEM] at hne
      exact ⟨node, hreg, rfl, rfl, recorded_nodeCertPEM,
        (had.pinned x hx).1.resolve_left hne⟩
    | pinned certPEM overlapUntil x' _ hx' _ h => exact (hsame hx' h rfl).elim
    | notCleared certPEM x' _ hx' _ _ h => exact (hsame hx' h rfl).elim
    | cleared certPEM x' _ hx' _ h => exact (hsame hx' h rfl).elim
    | beaten x' y' hbeat hx' h =>
      obtain ⟨_, _, _, _, -, rfl⟩ := hbeat
      exact (hsame hx' h rfl).elim
    | removed hrem h => exact absurd hrem (hop name)

end Step

/-! ## Runs -/

variable {ls : List RegistryStep} {r : Registry} {name : String}

theorem PinnedIn.concat {a : RegistryStep} {certPEM : Bytes} {overlapUntil : Time}
    (hrun : registryRuns.exec registryRuns.init ls = some r)
    (h : PinnedIn ls name certPEM overlapUntil) (ha : ¬ Unpins name r a) :
    PinnedIn (ls ++ [a]) name certPEM overlapUntil := by
  obtain ⟨pre, now, post, r₀, r₁, rfl, hpre, hallow, halong⟩ := h
  refine ⟨pre, now, post ++ [a], r₀, r₁, ?_, hpre, hallow, ?_⟩
  · rw [List.append_assoc, List.cons_append]
  · have hstep : registryRuns.step r₀ ⟨now, .allowCertRollover name certPEM overlapUntil⟩ =
        some r₁ := congrArg some (RegistryStep.after_ok hallow)
    rw [Machine.exec_append, hpre, Option.bind_some, Machine.exec_cons, hstep,
      Option.bind_some] at hrun
    exact (Machine.along_concat_iff hrun).mpr ⟨halong, ha⟩

theorem pending_pinned
    (hrun : registryRuns.exec registryRuns.init ls = some r) {x : RegisteredNode}
    (hx : r.byName[name]? = some x) (hp : x.pendingCertPEM ≠ []) :
    PinnedIn ls name x.pendingCertPEM x.certOverlapUntil := by
  refine Machine.exec_invariant (I := fun ls (r : Registry) => ∀ (name : String) x,
    r.byName[name]? = some x → x.pendingCertPEM ≠ [] →
      PinnedIn ls name x.pendingCertPEM x.certOverlapUntil) ?_ ?_ hrun name x hx hp
  · intro name x hx
    simp [registryRuns] at hx
  · intro ls r a r' hrun ih hstep name y hy hp
    cases hstep
    rcases pending_after hy hp with ⟨hop, hres⟩ | ⟨x, hx, hpending, huntil, hkeep⟩
    · obtain ⟨now, op⟩ := a
      cases hop
      exact ⟨ls, now, [], r, _, rfl, hrun, hres, trivial⟩
    · rw [← hpending, ← huntil]
      rw [← hpending] at hp
      exact (ih name x hx hp).concat hrun hkeep

/-- **Identity pinning.** -/
theorem certificate_pinned (ls : List RegistryStep) (r r' : Registry) (a : RegistryStep)
    (hrun : registryRuns.exec registryRuns.init ls = some r)
    (hstep : registryRuns.step r a = some r') :
    ((∀ n, a.op ≠ .remove n) → ∀ (name : String) (x y : RegisteredNode),
      r.byName[name]? = some x → r'.byName[name]? = some y → x.nodeCertPEM ≠ y.nodeCertPEM →
        ∃ node overlapUntil, a.op = .register node ∧ node.name = name ∧
          r.register a.now node = .ok r' ∧ y.nodeCertPEM = node.nodeCertPEM ∧
            PinnedIn ls name node.nodeCertPEM overlapUntil ∧ a.now < overlapUntil) ∧
      ∀ (now : Time) (node : RegisteredNode) (certPEM : Bytes) (overlapUntil : Time),
        r.register now { node with pendingCertPEM := certPEM, certOverlapUntil := overlapUntil } =
          r.register now node := by
  refine ⟨?_, fun _ _ _ _ => rfl⟩
  intro hop name x y hx hy hne
  cases hstep
  obtain ⟨node, hreg, hname, hres, hcert, hpromote⟩ := certificate_after hop hx hy hne
  obtain ⟨hp, hsame, -, huntil⟩ := canPromotePendingCert_iff.mp hpromote
  refine ⟨node, x.certOverlapUntil, hreg, hname, ?_, hcert, ?_, huntil⟩
  · rw [RegistryStep.result, hreg] at hres
    exact hres
  · rw [← hsame]
    exact pending_pinned hrun hx hp

def clientWith (certPEM : Bytes) : RegisteredNode :=
  { name := "c", roles := [.client], overlayIP := "10.0.0.2", nodeCertPEM := certPEM }

def pinningRun : List RegistryStep :=
  [⟨1, .register (clientWith [1])⟩, ⟨5, .allowCertRollover "c" [2] 100⟩,
    ⟨6, .register (clientWith [1])⟩]

def promotion : RegistryStep := ⟨10, .register (clientWith [2])⟩

/-- The theorem at the promotion of the pinned certificate. -/
theorem certificate_pinned_promotion :
    ∃ overlapUntil, PinnedIn pinningRun "c" [2] overlapUntil ∧ 10 < overlapUntil := by
  let r := pinningRun.foldl RegistryStep.after {}
  have hx : (r.byName["c"]?).map (·.nodeCertPEM) = some [1] := by decide
  have hy : ((promotion.after r).byName["c"]?).map (·.nodeCertPEM) = some [2] := by decide
  obtain ⟨x, hx, hold⟩ := Option.map_eq_some_iff.mp hx
  obtain ⟨y, hy, hnew⟩ := Option.map_eq_some_iff.mp hy
  obtain ⟨node, overlapUntil, hop, -, -, -, hpinned, huntil⟩ :=
    (certificate_pinned pinningRun r _ promotion rfl rfl).1 (fun n h => by cases h) "c" x y hx hy
      (by rw [hold, hnew]; decide)
  cases hop
  exact ⟨overlapUntil, hpinned, huntil⟩

/-! ## The registry methods, statement by statement -/

open Lib.Method (attempt refuseIf find outcome Implements)

abbrev RegistryMethod := Method RegistryError Registry

namespace RegistryMethod

def assign (name : String) (f : RegisteredNode → RegisteredNode) : RegistryMethod Unit :=
  modify fun r => match r.byName[name]? with
    | some node => r.modify name (f node)
    | none => r

def assignIf (c : Bool) (name : String) (f : RegisteredNode → RegisteredNode) :
    RegistryMethod Unit :=
  if c then assign name f else pure ()

def checkOverlay (node : RegisteredNode) : RegistryMethod Unit := do
  match (← get).byOverlay[node.overlayIP]? with
  | some existing => refuseIf (existing ≠ node.name) (.overlayDup node.overlayIP existing)
  | none => pure ()

def register (now : Time) (node : RegisteredNode) : RegistryMethod Unit := do
  attempt (validate node)
  let node := { node with pendingCertPEM := [], certOverlapUntil := 0 }
  checkOverlay node
  let stored ← attempt ((← get).accept now node)
  modify fun r => { r with byName := r.byName.insert stored.name stored }
  modify fun r => { r with byOverlay := r.byOverlay.insert stored.overlayIP stored.name }

def allowCertRollover (now : Time) (name : String) (certPEM : Bytes) (overlapUntil : Time) :
    RegistryMethod Unit := do
  refuseIf (name = "") .emptyName
  refuseIf (certPEM = []) .noCert
  refuseIf (overlapUntil.isZero || !(overlapUntil > now)) .overlap
  let node ← find (fun r => r.byName[name]?) .notFound
  refuseIf (hasActivePendingCert node now && !certBytesEqual node.pendingCertPEM certPEM)
    .pendingCert
  assign name fun node => { node with pendingCertPEM := certPEM }
  assign name fun node => { node with certOverlapUntil := overlapUntil }

def clearCertRollover (name : String) (certPEM : Bytes) : RegistryMethod Unit := do
  refuseIf (name = "") .emptyName
  let node ← find (fun r => r.byName[name]?) .notFound
  if certPEM ≠ [] && !certBytesEqual node.pendingCertPEM certPEM then return
  assign name fun node => { node with pendingCertPEM := [] }
  assign name fun node => { node with certOverlapUntil := 0 }

def heartbeat (now : Time) (name : String) (health : Option (OMap String String)) (pubkey : Bytes)
    (endpointHost protocol : String) : RegistryMethod Unit := do
  let _ ← find (fun r => r.byName[name]?) .notFound
  assign name fun n => { n with lastHeartbeatAt := now }
  assignIf health.isSome name fun n => { n with healthIndicators := health }
  assignIf (pubkey ≠ []) name fun n => { n with pubkey := pubkey }
  assignIf (endpointHost ≠ "") name fun n => { n with endpointHost := endpointHost }
  assignIf (protocol ≠ "") name fun n => { n with protocol := protocol }

def remove (name : String) : RegistryMethod Unit := do
  let n ← find (fun r => r.byName[name]?) .notFound
  modify fun r => { r with byOverlay := r.byOverlay.erase n.overlayIP }
  modify fun r => { r with byName := r.byName.erase name }

/-! ## The statements -/

section Statements

variable {r : Registry} {name : String} {node : RegisteredNode}

@[simp] theorem modify_getElem? (r : Registry) (name : String) (node : RegisteredNode) :
    (r.modify name node).byName[name]? = some node := by
  simp [Registry.modify]

@[simp] theorem modify_modify (r : Registry) (name : String) (node node' : RegisteredNode) :
    (r.modify name node).modify name node' = r.modify name node' := by
  simp only [Registry.modify, OMap.insert_insert_self]

theorem exec_assign (h : r.byName[name]? = some node) (f : RegisteredNode → RegisteredNode) :
    exec (assign name f) r = (.ok (), r.modify name (f node)) := by
  simp [assign, h]

@[simp] theorem exec_assignIf (c : Bool) (f : RegisteredNode → RegisteredNode) :
    exec (assignIf c name f) (r.modify name node) =
      (.ok (), r.modify name (if c then f node else node)) := by
  cases c with
  | false => rfl
  | true => simp [assignIf, exec_assign (modify_getElem? r name node)]

theorem exec_checkOverlay_bind {β : Type} (k : Unit → RegistryMethod β) :
    exec (checkOverlay node >>= k) r =
      match r.byOverlay[node.overlayIP]? with
      | some existing =>
        if existing ≠ node.name then (.error (.overlayDup node.overlayIP existing), r)
        else exec (k ()) r
      | none => exec (k ()) r := by
  unfold checkOverlay
  rw [bind_assoc, exec_get_bind]
  cases r.byOverlay[node.overlayIP]? with
  | none => rfl
  | some existing => simp

theorem exec_store (x : Except RegistryError RegisteredNode) :
    exec (do
      let stored ← attempt x
      modify fun r : Registry => { r with byName := r.byName.insert stored.name stored }
      modify fun r => { r with byOverlay := r.byOverlay.insert stored.overlayIP stored.name }) r =
      outcome r (x.map r.store) := by
  cases x <;> rfl

end Statements

/-! ## The bodies -/

theorem register_implements (now : Time) (node : RegisteredNode) :
    Implements (register now node) (·.register now node) := by
  intro r
  unfold register Registry.register
  cases Registry.validate node with
  | error err => rfl
  | ok u =>
    rw [exec_attempt_bind]
    dsimp only
    rw [exec_checkOverlay_bind]
    cases r.byOverlay[node.overlayIP]? with
    | none => exact exec_store _
    | some existing =>
      dsimp only
      split
      · rfl
      · exact exec_store _

theorem allowCertRollover_implements (now : Time) (name : String) (certPEM : Bytes)
    (overlapUntil : Time) :
    Implements (allowCertRollover now name certPEM overlapUntil)
      (·.allowCertRollover now name certPEM overlapUntil) := by
  intro r
  unfold allowCertRollover Registry.allowCertRollover
  simp only [exec_refuseIf_bind, exec_find_bind, decide_eq_true_eq]
  split
  · rfl
  split
  · rfl
  split
  · rfl
  cases hn : r.byName[name]? with
  | none => rfl
  | some node =>
    dsimp only
    split
    · rfl
    · rw [exec_bind_ok (exec_assign hn _), exec_assign (modify_getElem? ..), modify_modify]
      rfl

theorem clearCertRollover_implements (name : String) (certPEM : Bytes) :
    Implements (clearCertRollover name certPEM) (·.clearCertRollover name certPEM) := by
  intro r
  unfold clearCertRollover Registry.clearCertRollover
  simp only [exec_refuseIf_bind, exec_find_bind, decide_eq_true_eq]
  split
  · rfl
  cases hn : r.byName[name]? with
  | none => rfl
  | some node =>
    dsimp only
    split
    · rfl
    · rw [exec_bind_ok (exec_assign hn _), exec_assign (modify_getElem? ..), modify_modify]
      rfl

theorem heartbeat_implements (now : Time) (name : String) (health : Option (OMap String String))
    (pubkey : Bytes) (endpointHost protocol : String) :
    Implements (heartbeat now name health pubkey endpointHost protocol)
      (·.heartbeat now name health pubkey endpointHost protocol) := by
  intro r
  unfold heartbeat Registry.heartbeat
  simp only [exec_find_bind]
  cases hn : r.byName[name]? with
  | none => rfl
  | some node =>
    -- the record after each assignment is the one `beat` builds, as far as it has got
    dsimp only
    rw [exec_bind_ok (exec_assign hn _), exec_bind_ok (exec_assignIf ..),
      exec_bind_ok (exec_assignIf ..), exec_bind_ok (exec_assignIf ..), exec_assignIf]
    simp only [outcome, Registry.beat]
    grind

theorem remove_implements (name : String) : Implements (remove name) (·.remove name) := by
  intro r
  unfold remove Registry.remove
  simp only [exec_find_bind]
  cases r.byName[name]? <;> rfl

end RegistryMethod

/-! ## Sequences of calls -/

open RegistryMethod

def RegistryStep.body (a : RegistryStep) : RegistryMethod Unit :=
  match a.op with
  | .register node => register a.now node
  | .allowCertRollover name certPEM overlapUntil =>
    allowCertRollover a.now name certPEM overlapUntil
  | .clearCertRollover name certPEM => clearCertRollover name certPEM
  | .heartbeat name health pubkey endpointHost protocol =>
    heartbeat a.now name health pubkey endpointHost protocol
  | .remove name => remove name

theorem RegistryStep.body_implements (a : RegistryStep) :
    Implements a.body (RegistryStep.result · a) := by
  obtain ⟨now, op⟩ := a
  cases op with
  | register node => exact register_implements now node
  | allowCertRollover name certPEM overlapUntil =>
    exact allowCertRollover_implements now name certPEM overlapUntil
  | clearCertRollover name certPEM =>
    exact clearCertRollover_implements name certPEM
  | heartbeat name health pubkey endpointHost protocol =>
    exact heartbeat_implements now name health pubkey endpointHost protocol
  | remove name => exact remove_implements name

def registryCalls : Machine Registry RegistryStep where
  init := {}
  step r a := some (exec a.body r).2

theorem Registry.WF.result {r r' : Registry} (hr : r.WF) {a : RegistryStep}
    (h : a.result r = .ok r') : r'.WF := by
  obtain ⟨now, op⟩ := a
  cases op with
  | register node => exact hr.register h
  | allowCertRollover name certPEM overlapUntil => exact hr.allowCertRollover h
  | clearCertRollover name certPEM => exact hr.clearCertRollover h
  | heartbeat name health pubkey endpointHost protocol => exact hr.heartbeat h
  | remove name => exact hr.remove h

theorem Registry.WF.exec_body {r : Registry} (hr : r.WF) (a : RegistryStep) :
    (exec a.body r).2.WF := by
  rw [a.body_implements r]
  dsimp only
  cases hres : a.result r with
  | error err => exact hr
  | ok r' => exact hr.result hres

theorem Registry.WF.of_calls {r : Registry} (h : registryCalls.Reachable r) : r.WF := by
  refine h.invariant WF.empty ?_
  intro r a r' hr hstep
  cases hstep
  exact hr.exec_body a

/-- **The two maps are inverse to each other** after any sequence of calls. -/
theorem index_consistent {r : Registry} (h : registryCalls.Reachable r) :
    (∀ overlayIP name : String, r.byOverlay[overlayIP]? = some name ↔
        ∃ node, r.byName[name]? = some node ∧ node.overlayIP = overlayIP) ∧
      (∀ (m n : String) a b, r.byName[m]? = some a → r.byName[n]? = some b →
        a.overlayIP = b.overlayIP → m = n) ∧
      ∀ (call : RegistryStep) err r', exec call.body r = (.error err, r') → r' = r := by
  have hr := WF.of_calls h
  refine ⟨?_, ?_, ?_⟩
  · intro overlayIP name
    constructor
    · exact hr.backed
    · rintro ⟨node, hnode, rfl⟩
      exact hr.indexed hnode
  · intro m n a b ha hb
    exact hr.overlay_inj ha hb
  · intro call err r'
    exact call.body_implements.error

def moveAttempt : List RegistryStep :=
  let node (name overlayIP : String) : RegistryOp :=
    .register { name := name, roles := [.egress], overlayIP := overlayIP, nodeCertPEM := [1] }
  [⟨1, node "a" "10.0.0.1"⟩, ⟨2, node "b" "10.0.0.2"⟩, ⟨3, node "b" "10.0.0.1"⟩]

/-- The attempt fails and `10.0.0.1` still belongs to `a`. -/
theorem index_consistent_moveAttempt :
    ∃ r, registryCalls.exec registryCalls.init moveAttempt = some r ∧
      (∃ node, r.byName["a"]? = some node ∧ node.overlayIP = "10.0.0.1") := by
  have hrun : (registryCalls.exec registryCalls.init moveAttempt).map
      (fun r => r.byOverlay["10.0.0.1"]?) = some (some "a") := by decide
  obtain ⟨r, hr, ha⟩ := Option.map_eq_some_iff.mp hrun
  exact ⟨r, hr, ((index_consistent ⟨moveAttempt, hr⟩).1 "10.0.0.1" "a").mp ha⟩

end AwgMesh.ControlPlane
