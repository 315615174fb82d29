import AwgMesh.Clock
import AwgMesh.Lib.Map
import AwgMesh.Role
import AwgMesh.Strconv
import AwgMesh.Text
import Mathlib.Data.List.Sort
import Mathlib.Data.List.Nodup
import Mathlib.Data.String.Basic
import AwgMesh.Lib.Sweep

/-!
# Mesh-wide rotation

`pkg/rotation/orchestrator.go`: the orchestrator checks a request and makes a plan of it, applies
the plan to one target after the other, and records the outcome.
-/

namespace AwgMesh.Rotation

open Lib List

/-! ## Requests and plans -/

inductive Tier where
  | tier1
  | tier2
  | tier3
  deriving DecidableEq, Inhabited

def Tier.text : Tier → String
  | .tier1 => "tier1"
  | .tier2 => "tier2"
  | .tier3 => "tier3"

structure Params where
  jc : Int := 0
  jmin : Int := 0
  jmax : Int := 0
  s1 : Int := 0
  s2 : Int := 0
  h1 : Nat := 0
  h2 : Nat := 0
  h3 : Nat := 0
  h4 : Nat := 0
  i1 : Bytes := []
  i2 : Bytes := []
  i3 : Bytes := []
  i4 : Bytes := []
  i5 : Bytes := []
  deriving DecidableEq, Inhabited

structure Target where
  name : String
  roles : List Role
  overlayIP : String
  deriving DecidableEq

structure Request where
  tier : String
  params : Option Params
  applyAt : Time
  rotationID : String
  reason : String
  targets : List Target

structure Plan where
  tier : Tier
  params : Params
  applyAt : Time
  rotationID : String
  reason : String
  targets : List Target
  deriving DecidableEq, Inhabited

inductive PlanError where
  | unsupportedTier (tier : String)
  | noParams
  | noTargets
  | past (applyAt : Time)

def lowerChar (c : Char) : Char :=
  if 'A' ≤ c ∧ c ≤ 'Z' then Char.ofNat (c.toNat + 32)
  else if c.toNat = 0x130 then 'i'
  else if c.toNat = 0x212a then 'k'
  else c

def normalizeTier (tier : String) : Except PlanError Tier :=
  let lower := String.ofList ((trimSpace tier).toList.map lowerChar)
  if lower = "1" ∨ lower = "tier1" then .ok .tier1
  else if lower = "2" ∨ lower = "tier2" then .ok .tier2
  else if lower = "3" ∨ lower = "tier3" then .ok .tier3
  else .error (.unsupportedTier tier)

def isMeshInternal (roles : List Role) : Bool :=
  roles.any fun r => r = .master || r = .egress || r = .ingress || r = .balancer

def meshInternalTargets (nodes : List Target) : List Target :=
  (nodes.filter fun node => isMeshInternal node.roles).insertionSort fun a b => a.name ≤ b.name

def unixMicro (t : Time) : Int := t / 1000 - Time.zeroToUnix * 1000000

structure Orchestrator where
  lead : Duration

def newOrchestrator (applyLeadTime : Duration) : Orchestrator :=
  { lead := if applyLeadTime ≤ 0 then 30 * 1000000000 else applyLeadTime }

def Orchestrator.applyTime (o : Orchestrator) (now requested : Time) : Time :=
  if requested.isZero then now + o.lead else requested

def rotationIdentifier (tier : Tier) (now : Time) (requested : String) : String :=
  if trimSpace requested = "" then tier.text ++ "-" ++ itoa (unixMicro now) else trimSpace requested

def Orchestrator.plan (o : Orchestrator) (now : Time) (req : Request) : Except PlanError Plan :=
  match normalizeTier req.tier with
  | .error err => .error err
  | .ok tier =>
    match req.params with
    | none => .error .noParams
    | some params =>
      if meshInternalTargets req.targets = [] then .error .noTargets
      else if o.applyTime now req.applyAt < now then
        .error (.past (o.applyTime now req.applyAt))
      else .ok
        { tier := tier
          params := params
          applyAt := o.applyTime now req.applyAt
          rotationID := rotationIdentifier tier now req.rotationID
          reason := trimSpace req.reason
          targets := meshInternalTargets req.targets }

open Orchestrator

theorem Orchestrator.plan_targets {o : Orchestrator} {now : Time} {req : Request} {p : Plan}
    (h : o.plan now req = .ok p) : p.targets = meshInternalTargets req.targets := by
  unfold plan at h
  repeat' split at h
  all_goals cases h
  rfl

/-! ## Applying a plan -/

structure Result where
  target : Target
  ack : Bool
  error : String

inductive Status where
  | succeeded
  | partialFailed
  deriving DecidableEq

structure Execution where
  plan : Plan
  results : List Result
  status : Status

structure Record extends Execution where
  createdAt : Time

structure State where
  applied : OMap String Plan := {}
  failures : OMap String String := {}
  history : List Record := []

/-- What `MemoryApplier.ApplyRotation` does. -/
def State.apply (s : State) (ctxErr : Option String) (target : Target) (plan : Plan) :
    State × Option String :=
  match ctxErr with
  | some err => (s, some err)
  | none =>
    match s.failures[target.name]? with
    | some err => (s, some err)
    | none => ({ s with applied := s.applied.insert target.name plan }, none)

theorem State.apply_eq (s : State) (ctxErr : Option String) (target : Target) (plan : Plan) :
    s.apply ctxErr target plan = match ctxErr.or s.failures[target.name]? with
      | some err => (s, some err)
      | none => ({ s with applied := s.applied.insert target.name plan }, none) := by
  cases ctxErr <;> rfl

def applyRotation (ctxErr : Option String) (target : Target) (plan : Plan) :
    Handler State (Option String) :=
  .atomic fun s => s.apply ctxErr target plan

theorem run_applyRotation (s : State) (ctxErr : Option String) (target : Target) (plan : Plan) :
    (applyRotation ctxErr target plan).run s = s.apply ctxErr target plan := rfl

def appendHistory (record : Record) : Handler State Unit :=
  .atomic fun s => ({ s with history := s.history ++ [record] }, ())

inductive ExecuteError where
  | noContext
  | plan (err : PlanError)
  | partialApply (rotationID : String)

/-- One call of `Execute`, its clock and its context. -/
structure Call where
  request : Request
  hasContext : Bool := true
  ctxErr : Nat → Option String := fun _ => none
  planned : Time
  recorded : Time

structure Outcome where
  execution : Option Execution
  err : Option ExecuteError

def resultOf (target : Target) (applyErr : Option String) : Result :=
  { target := target, ack := applyErr.isNone, error := applyErr.getD "" }

def Status.after (status : Status) (applyErr : Option String) : Status :=
  if applyErr.isSome then .partialFailed else status

def applyAll (call : Call) (plan : Plan) : List Target → (i : Nat) → (results : List Result) →
    (status : Status) → Handler State (List Result × Status)
  | [], _, results, status => pure (results, status)
  | target :: rest, i, results, status =>
    applyRotation (call.ctxErr i) target plan >>= fun applyErr =>
      applyAll call plan rest (i + 1) (results ++ [resultOf target applyErr])
        (status.after applyErr)

def conclude (call : Call) (plan : Plan) (loop : List Result × Status) : Handler State Outcome :=
  let execution : Execution := { plan := plan, results := loop.1, status := loop.2 }
  appendHistory { execution with createdAt := call.recorded } >>= fun _ =>
    pure
      { execution := some execution
        err := if loop.2 = .partialFailed then some (.partialApply plan.rotationID) else none }

def Orchestrator.execute (o : Orchestrator) (call : Call) : Handler State Outcome :=
  if !call.hasContext then pure { execution := none, err := some .noContext }
  else match o.plan call.planned call.request with
    | .error err => pure { execution := none, err := some (.plan err) }
    | .ok plan =>
      applyAll call plan plan.targets 0 [] .succeeded >>= conclude call plan

/-! ## The targets of a plan -/

theorem isMeshInternal_iff (roles : List Role) :
    isMeshInternal roles = true ↔
      .master ∈ roles ∨ .egress ∈ roles ∨ .ingress ∈ roles ∨ .balancer ∈ roles := by
  induction roles with
  | nil => simp [isMeshInternal]
  | cons role roles ih =>
    simp only [isMeshInternal, any_cons, Bool.or_eq_true, decide_eq_true_eq,
      mem_cons] at ih ⊢
    rw [ih]
    grind

theorem meshInternalTargets_perm (nodes : List Target) :
    (meshInternalTargets nodes).Perm (nodes.filter fun node => isMeshInternal node.roles) :=
  perm_insertionSort _ _

theorem meshInternalTargets_increasing {nodes : List Target} (h : (nodes.map (·.name)).Nodup) :
    (meshInternalTargets nodes).Pairwise fun a b => a.name < b.name := by
  have hsorted : (meshInternalTargets nodes).Pairwise fun a b => a.name ≤ b.name := by
    have : Std.Total (fun a b : Target => a.name ≤ b.name) := ⟨fun a b => le_total a.name b.name⟩
    have : IsTrans Target (fun a b => a.name ≤ b.name) := ⟨fun a b c => le_trans⟩
    exact pairwise_insertionSort _ _
  have hnodup : ((meshInternalTargets nodes).map (·.name)).Nodup := by
    rw [((meshInternalTargets_perm nodes).map _).nodup_iff]
    exact h.sublist (filter_sublist.map _)
  rw [nodup_iff_pairwise_ne, pairwise_map] at hnodup
  exact (hsorted.and hnodup).imp fun h => lt_of_le_of_ne h.1 h.2

/-! ## The loop -/

structure Applied (call : Call) (plan : Plan) (i : Nat) (targets : List Target)
    (before after : State) (rs : List Result) : Prop where
  results_eq : rs = (targets.zipIdx i).map fun x =>
    resultOf x.1 ((call.ctxErr x.2).or before.failures[x.1.name]?)
  acknowledged : ∀ r ∈ rs, r.ack = true → after.applied[r.target.name]? = some plan
  others : ∀ name, (∀ r ∈ rs, r.ack = true → r.target.name ≠ name) →
    after.applied[name]? = before.applied[name]?
  history_eq : after.history = before.history

theorem Applied.nil (call : Call) (plan : Plan) (i : Nat) (s : State) :
    Applied call plan i [] s s [] where
  results_eq := rfl
  acknowledged := nofun
  others := fun _ _ => rfl
  history_eq := rfl

variable {call : Call} {plan : Plan} {i : Nat} {target : Target} {targets : List Target}
  {before after : State} {rs : List Result}

theorem Applied.targets_eq (h : Applied call plan i targets before after rs) :
    rs.map (·.target) = targets := by
  rw [h.results_eq, map_map]
  exact zipIdx_map_fst i targets

theorem Applied.failed (h : Applied call plan (i + 1) targets before after rs) {err : String}
    (herr : (call.ctxErr i).or before.failures[target.name]? = some err) :
    Applied call plan i (target :: targets) before after (resultOf target (some err) :: rs) where
  results_eq := by
    rw [zipIdx_cons, map_cons, herr, ← h.results_eq]
  acknowledged := by
    intro r hr hack
    rcases mem_cons.mp hr with rfl | hr
    · cases hack
    · exact h.acknowledged r hr hack
  others := fun name hname => h.others name fun r hr => hname r (mem_cons_of_mem _ hr)
  history_eq := h.history_eq

theorem Applied.stored (h : Applied call plan (i + 1) targets
      { before with applied := before.applied.insert target.name plan } after rs)
    (hnone : (call.ctxErr i).or before.failures[target.name]? = none) :
    Applied call plan i (target :: targets) before after (resultOf target none :: rs) where
  results_eq := by
    rw [zipIdx_cons, map_cons, hnone, h.results_eq]
  acknowledged := by
    intro r hr hack
    rcases mem_cons.mp hr with rfl | hr
    · show after.applied[target.name]? = some plan
      by_cases hagain : ∃ r ∈ rs, r.ack = true ∧ r.target.name = target.name
      · obtain ⟨r, hr, hack, hname⟩ := hagain
        rw [← hname]
        exact h.acknowledged r hr hack
      · push Not at hagain
        rw [h.others target.name hagain]
        exact (OMap.getElem?_insert ..).trans (if_pos rfl)
    · exact h.acknowledged r hr hack
  others := by
    intro name hname
    have hne : target.name ≠ name := hname _ mem_cons_self rfl
    rw [h.others name fun r hr => hname r (mem_cons_of_mem _ hr)]
    exact (OMap.getElem?_insert ..).trans (if_neg hne)
  history_eq := h.history_eq

theorem Applied.ack_iff (h : Applied call plan 0 targets before after rs) (k : Nat) (r : Result)
    (hr : rs[k]? = some r) :
    r.ack = true ↔ call.ctxErr k = none ∧ before.failures[r.target.name]? = none := by
  rw [h.results_eq, getElem?_map, getElem?_zipIdx, Option.map_map, zero_add] at hr
  obtain ⟨target, -, rfl⟩ := Option.map_eq_some_iff.mp hr
  exact Option.isNone_iff_eq_none.trans Option.or_eq_none_iff

def Status.afterAll (status : Status) (rs : List Result) : Status :=
  if rs.all (·.ack) then status else .partialFailed

theorem Status.after_afterAll (status : Status) (target : Target) (applyErr : Option String)
    (rs : List Result) :
    (status.after applyErr).afterAll rs = status.afterAll (resultOf target applyErr :: rs) := by
  cases applyErr with
  | none => rfl
  | some err => exact ite_self _

theorem run_applyAll (call : Call) (plan : Plan) (targets : List Target) (i : Nat)
    (results : List Result) (status : Status) (s : State) :
    ∃ s' rs, Applied call plan i targets s s' rs ∧
      (applyAll call plan targets i results status).run s =
        (s', results ++ rs, status.afterAll rs) := by
  induction targets generalizing i results status s with
  | nil => exact ⟨s, [], .nil call plan i s, by rw [append_nil]; rfl⟩
  | cons target rest ih =>
    rw [applyAll, Handler.run_bind, run_applyRotation, State.apply_eq]
    cases herr : (call.ctxErr i).or s.failures[target.name]? with
    | some err =>
      obtain ⟨s', rs, happlied, hrun⟩ :=
        ih (i + 1) (results ++ [resultOf target (some err)]) (status.after (some err)) s
      refine ⟨s', resultOf target (some err) :: rs, happlied.failed herr, ?_⟩
      rw [hrun, Status.after_afterAll status target, append_assoc]
      rfl
    | none =>
      obtain ⟨s', rs, happlied, hrun⟩ :=
        ih (i + 1) (results ++ [resultOf target none]) (status.after none)
          { s with applied := s.applied.insert target.name plan }
      refine ⟨s', resultOf target none :: rs, happlied.stored herr, ?_⟩
      rw [hrun, Status.after_afterAll status target, append_assoc]
      rfl

/-! ## The whole call -/

def Target.InMesh (target : Target) : Prop :=
  .master ∈ target.roles ∨ .egress ∈ target.roles ∨ .ingress ∈ target.roles ∨
    .balancer ∈ target.roles

instance (target : Target) : Decidable target.InMesh :=
  inferInstanceAs (Decidable (_ ∨ _ ∨ _ ∨ _))

/-- One result for each target inside the mesh, by name; acknowledged are those which neither the
context nor a configured failure stops, and these have the plan afterwards, the others what they
had. -/
structure Execution.Exact (e : Execution) (call : Call) (plan : Plan) (before after : State) :
    Prop where
  plan_eq : e.plan = plan
  results_perm : (e.results.map (·.target)).Perm (call.request.targets.filter (·.InMesh))
  increasing : e.results.Pairwise fun a b => a.target.name < b.target.name
  became : ∀ r ∈ e.results, r.ack = true → after.applied[r.target.name]? = some plan
  unchanged : ∀ name, (∀ r ∈ e.results, r.ack = true → r.target.name ≠ name) →
    after.applied[name]? = before.applied[name]?
  ack_iff : ∀ r ∈ e.results, before.applied[r.target.name]? ≠ some plan →
    (r.ack = true ↔ after.applied[r.target.name]? = some plan)
  acknowledged_iff : ∀ k (r : Result), e.results[k]? = some r →
    (r.ack = true ↔ call.ctxErr k = none ∧ before.failures[r.target.name]? = none)
  succeeded_iff : e.status = .succeeded ↔ ∀ r ∈ e.results, r.ack = true
  recorded : after.history = before.history ++ [{ e with createdAt := call.recorded }]

/-- **The report is exact.** -/
theorem execute_report_exact (o : Orchestrator) (call : Call) (plan : Plan) (before : State)
    (hctx : call.hasContext = true) (hplan : o.plan call.planned call.request = .ok plan)
    (hnames : (call.request.targets.map (·.name)).Nodup) :
    ∃ e : Execution, ((o.execute call).run before).2.execution = some e ∧
      (((o.execute call).run before).2.err = none ↔ ∀ r ∈ e.results, r.ack = true) ∧
      e.Exact call plan before ((o.execute call).run before).1 := by
  obtain ⟨after, rs, happlied, hloop⟩ :=
    run_applyAll call plan plan.targets 0 [] .succeeded before
  have hrun : (o.execute call).run before =
      (conclude call plan (rs, Status.afterAll .succeeded rs)).run after := by
    simp only [execute, hctx, hplan, Bool.not_true, Bool.false_eq_true, if_false,
      Handler.run_bind, hloop, nil_append]
  have htargets : rs.map (·.target) = meshInternalTargets call.request.targets :=
    happlied.targets_eq.trans (plan_targets hplan)
  have hincreasing : rs.Pairwise fun a b => a.target.name < b.target.name := by
    have h := meshInternalTargets_increasing hnames
    rwa [← htargets, pairwise_map] at h
  have hsucceeded : Status.afterAll .succeeded rs = .succeeded ↔ ∀ r ∈ rs, r.ack = true := by
    simp [Status.afterAll]
  rw [hrun]
  refine ⟨⟨plan, rs, Status.afterAll .succeeded rs⟩, rfl, ?_, ?_⟩
  · rw [← hsucceeded]
    show (if Status.afterAll .succeeded rs = .partialFailed then _ else none) = none ↔ _
    cases Status.afterAll .succeeded rs <;> simp
  · exact
      { plan_eq := rfl
        results_perm := by
          show (rs.map (·.target)).Perm _
          rw [htargets]
          have hfilter :
              (fun node : Target => isMeshInternal node.roles) = fun t => decide t.InMesh :=
            funext fun node => Bool.eq_iff_iff.mpr
              ((isMeshInternal_iff node.roles).trans decide_eq_true_iff.symm)
          rw [← hfilter]
          exact meshInternalTargets_perm _
        increasing := hincreasing
        became := happlied.acknowledged
        unchanged := happlied.others
        ack_iff := by
          intro r hr hold
          refine ⟨happlied.acknowledged r hr, ?_⟩
          intro hnew
          by_contra hack
          refine hold ((happlied.others _ ?_).symm.trans hnew)
          intro r' hr' hack' hname
          -- the names are distinct, as they increase
          have hnodup := hincreasing.imp ne_of_lt
          rw [← pairwise_map, ← nodup_iff_pairwise_ne] at hnodup
          exact hack (inj_on_of_nodup_map hnodup hr' hr hname ▸ hack')
        acknowledged_iff := happlied.ack_iff
        succeeded_iff := hsucceeded
        recorded := by
          show after.history ++ _ = _
          rw [happlied.history_eq] }

def sampleRotation : Call where
  request :=
    { tier := " Tier2 ", params := some { jc := 4 }, applyAt := 0, rotationID := "r7", reason := "",
      targets := [⟨"master-01", [.master], "172.21.92.2"⟩, ⟨"phone", [.client], "172.21.92.9"⟩,
        ⟨"egress-01", [.egress, .ingress], "172.21.92.3"⟩, ⟨"spare", [.unknown "relay"], ""⟩] }
  planned := 1000
  recorded := 2000

def sampleFailure : State where
  failures := ({} : OMap String String).insert "master-01" "unreachable"

theorem execute_report_exact_sample :
    ∃ plan : Plan,
      (newOrchestrator 0).plan sampleRotation.planned sampleRotation.request = .ok plan ∧
      ∃ e : Execution,
        (((newOrchestrator 0).execute sampleRotation).run sampleFailure).2.execution = some e ∧
        e.results.map (fun r => (r.target.name, r.ack, r.error)) =
          [("egress-01", true, ""), ("master-01", false, "unreachable")] ∧
        e.Exact sampleRotation plan sampleFailure
          (((newOrchestrator 0).execute sampleRotation).run sampleFailure).1 := by
  have hacks : (((newOrchestrator 0).execute sampleRotation).run sampleFailure).2.execution.map
      (·.results.map fun r => (r.target.name, r.ack, r.error)) =
      some [("egress-01", true, ""), ("master-01", false, "unreachable")] := by decide
  obtain ⟨e, he, _, hexact⟩ :=
    execute_report_exact (newOrchestrator 0) sampleRotation _ sampleFailure rfl rfl (by decide)
  rw [he] at hacks
  exact ⟨_, rfl, e, he, Option.some.inj hacks, hexact⟩

/-! ## Several mesh-wide rotations at once -/

structure Job (targets : List Target) where
  call : Call
  perm : (meshInternalTargets call.request.targets).Perm targets

def executes (o : Orchestrator) (targets : List Target) (s : State) :
    Machine (Counted State (Job targets) Outcome) (Event (Job targets)) :=
  handlers (fun job => o.execute job.call) s

/-- Once all calls have succeeded, all targets have one plan. -/
def OnePlan {targets : List Target} (s : Counted State (Job targets) Outcome) : Prop :=
  s.pool.threads ≠ [] →
    (∀ t ∈ s.pool.threads, ∃ outcome : Outcome, t.program = .done outcome ∧ outcome.err = none) →
      ∃ plan : Plan, ∀ target ∈ targets, s.pool.shared.applied[target.name]? = some plan

/-! ## `Execute` as a sweep -/

def State.Holds (s : State) (name : String) (plan : Option Plan) : Prop :=
  plan ≠ none ∧ s.applied[name]? = plan

def Job.order {targets : List Target} (job : Job targets) : List String :=
  (meshInternalTargets job.call.request.targets).map (·.name)

theorem writes_applied (s : State) (name : String) (plan : Plan) :
    Writes State.Holds name (some plan) s { s with applied := s.applied.insert name plan } := by
  refine ⟨⟨nofun, ?_⟩, ?_⟩
  · exact (OMap.getElem?_insert ..).trans (if_pos rfl)
  · intro name' hne plan' h
    exact ⟨h.1, (OMap.getElem?_insert ..).trans ((if_neg (Ne.symm hne)).trans h.2)⟩

section Sweeps

variable {call : Call} {plan : Plan}

theorem spoiled_applyAll (targets : List Target) (i : Nat) (results : List Result) :
    Spoiled (fun outcome : Outcome => outcome.err = none)
      (applyAll call plan targets i results .partialFailed >>= conclude call plan) := by
  induction targets generalizing i results with
  | nil => exact fun _ _ => ⟨trivial, fun _ => nofun⟩
  | cons target rest ih =>
    intro s _
    refine ⟨trivial, fun _ => ?_⟩
    show Spoiled _ (applyAll call plan rest (i + 1) _ (Status.after .partialFailed _) >>= _)
    rw [show ∀ applyErr, Status.after .partialFailed applyErr = .partialFailed by
      intro applyErr
      exact ite_self _]
    exact ih (i + 1) _

theorem sweeps_applyAll (targets : List Target) (i : Nat) (results : List Result) :
    Sweeps State.Holds (fun outcome : Outcome => outcome.err = none) (some plan)
      (applyAll call plan targets i results .succeeded >>= conclude call plan) 0
      (targets.map (·.name)) := by
  induction targets generalizing i results with
  | nil => exact fun s => ⟨fun _ _ h => h, fun _ => rfl⟩
  | cons target rest ih =>
    intro s
    show Spoiled _ (applyAll call plan rest (i + 1)
          (results ++ [resultOf target (s.apply (call.ctxErr i) target plan).2])
          (Status.after .succeeded (s.apply (call.ctxErr i) target plan).2) >>= _) ∨
      Writes _ _ _ _ (s.apply (call.ctxErr i) target plan).1 ∧
        Sweeps _ _ _ (applyAll call plan rest (i + 1)
          (results ++ [resultOf target (s.apply (call.ctxErr i) target plan).2])
          (Status.after .succeeded (s.apply (call.ctxErr i) target plan).2) >>= _) 0 _
    rw [State.apply_eq]
    cases (call.ctxErr i).or s.failures[target.name]? with
    | some err => exact .inl (spoiled_applyAll rest (i + 1) _)
    | none => exact .inr ⟨writes_applied s target.name plan, ih (i + 1) _⟩

end Sweeps

theorem sweeps_execute (o : Orchestrator) {targets : List Target} (job : Job targets) :
    Sweeps State.Holds (fun outcome : Outcome => outcome.err = none)
      (o.plan job.call.planned job.call.request).toOption (o.execute job.call) 0 job.order := by
  unfold execute
  split
  · exact nofun
  · cases hplan : o.plan job.call.planned job.call.request with
    | error err => exact nofun
    | ok plan =>
      have horder : job.order = plan.targets.map (·.name) := by
        rw [Job.order, plan_targets hplan]
      rw [horder]
      exact sweeps_applyAll plan.targets 0 []

/-! ## Any number of calls -/

abbrev NoOverlap (targets : List Target) :
    Counted State (Job targets) Outcome → Event (Job targets) → Prop :=
  Exclusive 0 Job.order

theorem onePlan_of_agree {targets : List Target} {s : Counted State (Job targets) Outcome}
    (h : Agree State.Holds (fun outcome : Outcome => outcome.err = none) (targets.map (·.name)) s) :
    OnePlan s := by
  intro hne hall
  obtain ⟨v, hv⟩ := h hne hall
  have hv : ∀ target ∈ targets, State.Holds s.pool.shared target.name v :=
    fun target htarget => hv _ (mem_map_of_mem htarget)
  cases v with
  | some plan => exact ⟨plan, fun target htarget => (hv target htarget).2⟩
  | none =>
    -- no target has been given anything, so there is none
    have hnil : targets = [] := by
      apply eq_nil_iff_forall_not_mem.mpr
      intro target htarget
      exact (hv target htarget).1 rfl
    exact ⟨default, by simp [hnil]⟩

/-- **Rotations that do not overlap agree**. -/
theorem executes_agree (o : Orchestrator) (targets : List Target) (s : State)
    (ls : List (Event (Job targets)))
    (hexcl : (executes o targets s).Along (NoOverlap targets) (executes o targets s).init ls) :
    (executes o targets s).Throughout OnePlan (executes o targets s).init ls := by
  refine Machine.Throughout.imp (fun s => onePlan_of_agree) ?_
  refine agree_of_exclusive ?_ (sweeps_execute o) s ls hexcl
  intro job name hname
  obtain ⟨target, htarget, rfl⟩ := mem_map.mp hname
  exact mem_map_of_mem (job.perm.mem_iff.mpr htarget)

def twoNodes : List Target :=
  [⟨"egress-01", [.egress], "172.21.92.3"⟩, ⟨"master-01", [.master], "172.21.92.2"⟩]

def rotateTo (rotationID : String) (jc : Int) : Job twoNodes where
  call :=
    { request :=
        { tier := "1", params := some { jc := jc }, applyAt := 0, rotationID := rotationID,
          reason := "control-plane", targets := twoNodes }
      planned := 1000
      recorded := 2000 }
  perm := Perm.refl _

def oneAfterTheOther : List (Event (Job twoNodes)) :=
  [.start (rotateTo "r1" 4), .start (rotateTo "r2" 5), .next 0, .next 0, .next 1, .next 1, .next 1,
    .next 0]

theorem executes_agree_oneAfterTheOther :
    (executes (newOrchestrator 0) twoNodes {}).Along (NoOverlap twoNodes)
        (executes (newOrchestrator 0) twoNodes {}).init oneAfterTheOther ∧
      (executes (newOrchestrator 0) twoNodes {}).Throughout OnePlan
        (executes (newOrchestrator 0) twoNodes {}).init oneAfterTheOther :=
  ⟨by decide, executes_agree (newOrchestrator 0) twoNodes {} oneAfterTheOther (by decide)⟩

def crossed : List (Event (Job twoNodes)) :=
  [.start (rotateTo "r1" 4), .start (rotateTo "r2" 5), .next 0, .next 1, .next 1, .next 0, .next 0,
    .next 1]

/-- **Rotations that overlap need not agree**. -/
theorem overlapping_executes_disagree :
    ¬ (executes (newOrchestrator 0) twoNodes {}).Throughout OnePlan
      (executes (newOrchestrator 0) twoNodes {}).init crossed := by
  intro h
  obtain ⟨s, a, b, hexec, hthreads, ha, hb, hegress, hmaster⟩ : ∃ s a b,
      (executes (newOrchestrator 0) twoNodes {}).exec
        (executes (newOrchestrator 0) twoNodes {}).init crossed = some s ∧
      s.pool.threads = [⟨rotateTo "r1" 4, .done a⟩, ⟨rotateTo "r2" 5, .done b⟩] ∧
      a.err = none ∧ b.err = none ∧
      s.pool.shared.applied["egress-01"]?.map (·.rotationID) = some "r2" ∧
      s.pool.shared.applied["master-01"]?.map (·.rotationID) = some "r1" :=
    ⟨_, _, _, rfl, rfl, rfl, rfl, by decide, by decide⟩
  obtain ⟨plan, hplan⟩ := h.last hexec (by simp [hthreads]) (by simp [hthreads, ha, hb])
  rw [hplan ⟨"egress-01", [.egress], "172.21.92.3"⟩ (by decide)] at hegress
  rw [hplan ⟨"master-01", [.master], "172.21.92.2"⟩ (by decide)] at hmaster
  have heq : some "r2" = some "r1" := hegress.symm.trans hmaster
  exact absurd heq (by decide)

end AwgMesh.Rotation
