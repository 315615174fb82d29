import AwgMesh.Lib.Machine

/-!
# The coordination listener of a master

`MasterCoordination` of `pkg/node/master_coordination.go`, with as much of `Daemon.Run` of
`pkg/control_plane/daemon.go` as it can see.
-/

namespace AwgMesh.Node.MasterCoordination

open Lib Machine List Option

/-! ## Goroutines -/

inductive Place where
  | listening
  | bound (addr : String)
  | serving
  | returned (err : Option String)
  | unmarked (err : Option String)
  | sent
  | ended
  deriving DecidableEq

/-- `Daemon.Run` has returned. -/
def Place.over : Place → Bool
  | .unmarked _ | .sent | .ended => true
  | _ => false

structure Run where
  place : Place := .listening
  bound : Bool := false
  done : Option (Option String) := none

structure Shared where
  done : Option Nat := none
  started : Bool := false
  listener : Option String := none

def Shared.listenerAddr (s : Shared) : String := s.listener.getD ""

def Shared.setStarted (started : Bool) (s : Shared) : Shared := { s with started := started }

def Shared.clearDone (s : Shared) : Shared := { s with done := none }

inductive Progress where
  | listen (answer : Except String String)
  | finish (err : Option String)
  | next

/-! ## Calls -/

inductive StartError where
  | run (err : String)
  | stoppedEarly
  | context (err : String)
  | timeout
  deriving DecidableEq

structure Snapshot where
  enabled : Bool
  listenAddr : String
  boundAddr : String
  started : Bool
  deriving DecidableEq

inductive Stopping where
  | entered
  | shuttingDown (stopped : Option Nat)
  | awaiting (stopped : Nat)
  | unmarking
  | clearing
  deriving DecidableEq

inductive Starting where
  | entered
  | checking (run : Nat)
  | marking (run : Nat)
  | selecting (run : Nat)
  | clearing (run : Nat) (err : Option String)
  | stopping (run : Nat) (err : StartError) (stop : Stopping)
  | returned (run : Option Nat) (err : Option StartError)
  deriving DecidableEq

inductive Looking where
  | entered
  | locating (started : Bool)
  | returned (snapshot : Snapshot)
  deriving DecidableEq

inductive Call where
  | start (phase : Starting)
  | stop (phase : Option Stopping)
  | snapshot (phase : Looking)
  deriving DecidableEq

def Call.returned : Call → Bool
  | .start (.returned _ _) => true
  | .stop none => true
  | .snapshot (.returned _) => true
  | _ => false

inductive Case where
  | next
  | done
  | context (err : String)
  | timer
  | tick

structure State where
  shared : Shared := {}
  runs : List Run := []
  calls : List Call := []

/-! ## Steps -/

section Steps

variable (listenAddr : String)

def Run.move (run : Run) (shared : Shared) : Progress → Option (Run × Shared)
  | .listen answer =>
    match run.place, answer with
    | .listening, .ok addr => some ({ run with place := .bound addr, bound := true }, shared)
    | .listening, .error err =>
      let text := "daemon: listen " ++ listenAddr ++ ": " ++ err
      some ({ run with place := .returned (some text) }, shared)
    | _, _ => none
  | .finish err =>
    match run.place with
    | .serving =>
      some ({ run with place := .returned (err.map ("daemon: serve: " ++ ·)) }, shared)
    | _ => none
  | .next =>
    match run.place with
    | .bound addr => some ({ run with place := .serving }, { shared with listener := some addr })
    | .returned err => some ({ run with place := .unmarked err }, shared.setStarted false)
    | .unmarked err => some ({ run with place := .sent, done := some err }, shared)
    | .sent => some ({ run with place := .ended }, shared)
    | _ => none

variable (s : State)

def Stopping.move : Stopping → Case → Option (Shared × Option Stopping)
  | .entered, .next => some (s.shared, some (.shuttingDown s.shared.done))
  | .shuttingDown none, .next => some (s.shared, some .unmarking)
  | .shuttingDown (some run), .next => some (s.shared, some (.awaiting run))
  | .awaiting run, .done =>
    if (s.runs[run]?).any (·.place = .ended) then some (s.shared, some .unmarking) else none
  | .awaiting _, .timer => some (s.shared, some .unmarking)
  | .unmarking, .next => some (s.shared.setStarted false, some .clearing)
  | .clearing, .next => some (s.shared.clearDone, none)
  | _, _ => none

def begin : State × Starting :=
  match s.shared.done with
  | some _ => (s, .returned none none)
  | none =>
    ({ s with shared := { s.shared with done := some s.runs.length }, runs := s.runs ++ [{}] },
      .checking s.runs.length)

def receive (run : Nat) : Option (State × Starting) :=
  (s.runs[run]?).bind fun found => found.done.map fun err =>
    ({ s with runs := s.runs.set run { found with done := none } }, .clearing run err)

def Starting.move : Starting → Case → Option (State × Starting)
  | .entered, .next => some (begin s)
  | .checking run, .next =>
    some (s, if s.shared.listenerAddr ≠ "" then .marking run else .selecting run)
  | .marking run, .next =>
    some ({ s with shared := s.shared.setStarted true }, .returned (some run) none)
  | .selecting run, .done => receive s run
  | .selecting run, .context err => some (s, .stopping run (.context err) .entered)
  | .selecting run, .timer => some (s, .stopping run .timeout .entered)
  | .selecting run, .tick => some (s, .checking run)
  | .clearing run err, .next =>
    some ({ s with shared := s.shared.clearDone },
      .returned (some run) (some ((err.map .run).getD .stoppedEarly)))
  | .stopping run err stop, case =>
    (stop.move s case).map fun (shared, next) =>
      ({ s with shared := shared },
        match next with
        | some stop => .stopping run err stop
        | none => .returned (some run) (some err))
  | _, _ => none

def snapshot (shared : Shared) : Snapshot where
  enabled := true
  listenAddr := listenAddr
  boundAddr := if shared.started then shared.listenerAddr else ""
  started := shared.started

def Looking.move : Looking → Case → Option Looking
  | .entered, .next => some (.locating s.shared.started)
  | .locating started, .next =>
    some (.returned (snapshot listenAddr { s.shared with started := started }))
  | _, _ => none

def Call.move : Call → Case → Option (State × Call)
  | .start phase, case => (phase.move s case).map fun (t, next) => (t, .start next)
  | .stop phase, case =>
    phase.bind fun stop => (stop.move s case).map fun (shared, next) =>
      ({ s with shared := shared }, .stop next)
  | .snapshot phase, case => (phase.move listenAddr s case).map fun next => (s, .snapshot next)

end Steps

inductive Kind where
  | start
  | stop
  | snapshot

def Kind.call : Kind → Call
  | .start => .start .entered
  | .stop => .stop (some .entered)
  | .snapshot => .snapshot .entered

inductive Event where
  | enter (kind : Kind)
  | run (i : Nat) (progress : Progress)
  | call (i : Nat) (case : Case)

def State.step (listenAddr : String) (s : State) : Event → Option State
  | .enter kind => some { s with calls := s.calls ++ [kind.call] }
  | .run i progress =>
    (s.runs[i]?).bind fun run => (run.move listenAddr s.shared progress).map fun (run, shared) =>
      { s with shared := shared, runs := s.runs.set i run }
  | .call i case =>
    (s.calls[i]?).bind fun call => (call.move listenAddr s case).map fun (t, call) =>
      { t with calls := s.calls.set i call }

open State

def machine (listenAddr : String) : Machine State Event :=
  { init := {}, step := step listenAddr }

/-! ## The truth -/

def State.isBound (s : State) (run : Nat) : Bool := (s.runs[run]?).any (·.bound)

def State.isLive (s : State) (run : Nat) : Bool := (s.runs[run]?).any (!·.place.over)

/-- `Snapshot` does not say started once all is over, and nil means bound. -/
structure Truthful (listenAddr : String) (s : State) : Prop where
  stopped : (∀ run ∈ s.runs, run.place.over = true) → (∀ call ∈ s.calls, call.returned = true) →
    (snapshot listenAddr s.shared).started = false
  bound : ∀ {run : Nat}, Call.start (.returned (some run) none) ∈ s.calls → s.isBound run = true

def Call.pending : Call → Option Nat
  | .start (.checking run) | .start (.selecting run) | .start (.marking run) => some run
  | _ => none

def Place.Orderly (s : State) (i : Nat) (bound : Bool) : Place → Prop
  | .bound addr => addr ≠ "" → ∀ call ∈ s.calls, ∀ run ∈ call.pending, s.isBound run = true
  | .returned _ => bound = true → ∀ call ∈ s.calls, call.pending ≠ some i
  | _ => True

/-- `Start` finds no old address, and no run disturbs a call that waits. -/
def Event.Orderly (s : State) : Event → Prop
  | .enter _ => True
  | .call i _ =>
    s.calls[i]? = some (.start .entered) → s.shared.done = none → s.shared.listenerAddr = ""
  | .run i _ => ∀ run ∈ s.runs[i]?, run.place.Orderly s i run.bound

instance decidablePlaceOrderly (s : State) (i : Nat) (bound : Bool) :
    (place : Place) → Decidable (place.Orderly s i bound)
  | .bound addr => inferInstanceAs
      (Decidable (addr ≠ "" → ∀ call ∈ s.calls, ∀ run ∈ call.pending, s.isBound run = true))
  | .returned _ => inferInstanceAs
      (Decidable (bound = true → ∀ call ∈ s.calls, call.pending ≠ some i))
  | .listening | .serving | .unmarked _ | .sent | .ended => isTrue trivial

instance decidableOrderly (s : State) : (event : Event) → Decidable (event.Orderly s)
  | .enter _ => isTrue trivial
  | .call i _ => inferInstanceAs (Decidable
      (s.calls[i]? = some (.start .entered) → s.shared.done = none → s.shared.listenerAddr = ""))
  | .run i _ => inferInstanceAs
      (Decidable (∀ run ∈ s.runs[i]?, run.place.Orderly s i run.bound))

/-! ## What a step does -/

section Spec

variable {listenAddr : String} {s t : State} {i j : Nat}

variable {run : Run}

theorem any_set {runs : List Run} (hi : runs[i]? = some run) (run' : Run) (p : Run → Bool) :
    ((runs.set i run')[j]?).any p = if i = j then p run' else (runs[j]?).any p := by
  rw [List.getElem?_set]
  split
  · obtain ⟨hlt, -⟩ := List.getElem?_eq_some_iff.mp hi
    rw [if_pos hlt]
    rfl
  · rfl

theorem isBound_eq (hi : s.runs[i]? = some run) : s.isBound i = run.bound := by
  rw [isBound, hi, any_some]

theorem isLive_eq (hi : s.runs[i]? = some run) : s.isLive i = !run.place.over := by
  rw [isLive, hi, any_some]

theorem isLive_iff {run : Nat} :
    s.isLive run = true ↔ ∃ found, s.runs[run]? = some found ∧ found.place.over = false := by
  unfold isLive
  cases s.runs[run]? with
  | none => exact ⟨nofun, nofun⟩
  | some found => simp

theorem Run.move_cases {run run' : Run} {shared shared' : Shared} {progress : Progress}
    (h : run.move listenAddr shared progress = some (run', shared')) :
    shared' = shared ∧ run'.place.over = run.place.over ∧
        (run'.bound = run.bound ∨ run'.bound = true ∧ run'.place.over = false) ∨
      (∃ addr, run.place = .bound addr ∧ run' = { run with place := .serving } ∧
        shared' = { shared with listener := some addr }) ∨
      ∃ err, run.place = .returned err ∧ run' = { run with place := .unmarked err } ∧
        shared' = shared.setStarted false := by
  obtain ⟨place, bound, done⟩ := run
  cases progress with
  | listen answer =>
    cases place <;> cases answer <;> cases h
    · exact .inl ⟨rfl, rfl, .inl rfl⟩
    · exact .inl ⟨rfl, rfl, .inr ⟨rfl, rfl⟩⟩
  | finish err =>
    cases place <;> cases h
    exact .inl ⟨rfl, rfl, .inl rfl⟩
  | next =>
    cases place <;> cases h
    · exact .inr (.inl ⟨_, rfl, rfl, rfl⟩)
    · exact .inr (.inr ⟨_, rfl, rfl, rfl⟩)
    · exact .inl ⟨rfl, rfl, .inl rfl⟩
    · exact .inl ⟨rfl, rfl, .inl rfl⟩

structure CallStep (s t : State) (call call' : Call) : Prop where
  isBound : ∀ run, t.isBound run = s.isBound run
  isLive : ∀ run, s.isLive run = true → t.isLive run = true
  listener : t.shared.listener = s.shared.listener
  started : t.shared.started = true → s.shared.started = true ∨ ∃ run, call = .start (.marking run)
  pending : ∀ run, call'.pending = some run → call.pending = some run ∨
    call = .start .entered ∧ s.shared.done = none ∧ s.isBound run = false
  marking : ∀ run, call' = .start (.marking run) →
    call = .start (.checking run) ∧ s.shared.listenerAddr ≠ ""
  returned : ∀ run, call' = .start (.returned (some run) none) → call = .start (.marking run)

variable {call call' : Call} {shared : Shared}

theorem CallStep.of_shared
    (hlistener : shared.listener = s.shared.listener) (hstarted : shared.started = true →
      s.shared.started = true ∨ ∃ run, call = .start (.marking run))
    (hpending : ∀ run, call'.pending = some run → call.pending = some run)
    (hmarking : ∀ run, call' = .start (.marking run) →
      call = .start (.checking run) ∧ s.shared.listenerAddr ≠ "")
    (hreturned : ∀ run, call' = .start (.returned (some run) none) →
      call = .start (.marking run)) : CallStep s { s with shared := shared } call call' where
  isBound _ := rfl
  isLive _ h := h
  listener := hlistener
  started := hstarted
  pending run h := .inl (hpending run h)
  marking := hmarking
  returned := hreturned

variable {case : Case}

theorem Stopping.move_shared {stop : Stopping}
    {next : Option Stopping} (h : stop.move s case = some (shared, next)) :
    shared.listener = s.shared.listener ∧
      (shared.started = true → s.shared.started = true) := by
  cases stop with
  | shuttingDown stopped => cases stopped <;> cases case <;> cases h <;> exact ⟨rfl, id⟩
  | awaiting stopped =>
    cases case with
    | done =>
      simp only [Stopping.move] at h
      split at h <;> cases h
      exact ⟨rfl, id⟩
    | timer =>
      cases h
      exact ⟨rfl, id⟩
    | next => cases h
    | context err => cases h
    | tick => cases h
  | unmarking =>
    cases case <;> cases h
    exact ⟨rfl, fun h => by cases h⟩
  | entered =>
    cases case <;> cases h
    exact ⟨rfl, id⟩
  | clearing =>
    cases case <;> cases h
    exact ⟨rfl, id⟩

theorem begin_spec : CallStep s (begin s).1 (.start .entered) (.start (begin s).2) := by
  unfold begin
  split
  · exact .of_shared rfl .inl nofun nofun nofun
  · next hdone =>
      refine ⟨?_, ?_, rfl, .inl, ?_, nofun, nofun⟩
      · intro run
        unfold isBound
        rw [getElem?_append]
        split
        · rfl
        · next hle =>
            rw [getElem?_eq_none (Nat.le_of_not_lt hle), getElem?_singleton]
            split <;> rfl
      · intro run hlive
        unfold isLive at hlive ⊢
        rw [getElem?_append_left]
        · exact hlive
        · by_contra hle
          rw [getElem?_eq_none (Nat.le_of_not_lt hle)] at hlive
          cases hlive
      · rintro run ⟨⟩
        refine .inr ⟨rfl, hdone, ?_⟩
        unfold isBound
        rw [getElem?_eq_none (Nat.le_refl _)]
        rfl

theorem receive_spec {run : Nat} {phase : Starting} (h : receive s run = some (t, phase)) :
    CallStep s t (.start (.selecting run)) (.start phase) := by
  obtain ⟨found, hfound, h⟩ := bind_eq_some_iff.mp h
  obtain ⟨err, -, ⟨⟩⟩ := map_eq_some_iff.mp h
  refine ⟨?_, ?_, rfl, .inl, nofun, nofun, nofun⟩
  · intro j
    unfold isBound
    rw [any_set hfound]
    split
    · next hj => rw [← hj, hfound]; rfl
    · rfl
  · intro j hlive
    unfold isLive at hlive ⊢
    rw [any_set hfound]
    split
    · next hj => rwa [← hj, hfound] at hlive
    · exact hlive

theorem Starting.move_spec {phase phase' : Starting}
    (h : phase.move s case = some (t, phase')) : CallStep s t (.start phase) (.start phase') := by
  cases phase with
  | entered =>
    cases case with
    | next =>
      have hspec := begin_spec (s := s)
      rwa [some.inj h] at hspec
    | _ => cases h
  | checking run =>
    cases case <;> cases h
    refine .of_shared rfl .inl ?_ ?_ ?_
    · intro r hr
      split at hr <;> exact hr
    · intro r hr
      split at hr
      · next haddr =>
          cases hr
          exact ⟨rfl, haddr⟩
      · cases hr
    · intro r hr
      split at hr <;> cases hr
  | marking run =>
    cases case <;> cases h
    refine .of_shared rfl (fun _ => .inr ⟨run, rfl⟩) nofun nofun ?_
    rintro r ⟨⟩
    rfl
  | selecting run =>
    cases case with
    | next => cases h
    | done => exact receive_spec h
    | context err =>
      cases h
      exact .of_shared rfl .inl nofun nofun nofun
    | timer =>
      cases h
      exact .of_shared rfl .inl nofun nofun nofun
    | tick =>
      cases h
      exact .of_shared rfl .inl (fun _ h => h) nofun nofun
  | clearing run err =>
    cases case <;> cases h
    exact .of_shared rfl .inl nofun nofun nofun
  | stopping run err stop =>
    obtain ⟨⟨shared, next⟩, hmove, ⟨⟩⟩ := map_eq_some_iff.mp h
    obtain ⟨hlistener, hstarted⟩ := Stopping.move_shared hmove
    refine .of_shared hlistener (fun h => .inl (hstarted h)) ?_ ?_ ?_
    all_goals cases next <;> nofun
  | returned run err => cases h

theorem Call.move_spec
    (h : call.move listenAddr s case = some (t, call')) : CallStep s t call call' := by
  cases call with
  | snapshot phase =>
    obtain ⟨next, -, ⟨⟩⟩ := map_eq_some_iff.mp h
    exact .of_shared rfl .inl nofun nofun nofun
  | stop phase =>
    obtain ⟨stop, rfl, h⟩ := bind_eq_some_iff.mp h
    obtain ⟨⟨shared, next⟩, hmove, ⟨⟩⟩ := map_eq_some_iff.mp h
    obtain ⟨hlistener, hstarted⟩ := Stopping.move_shared hmove
    exact .of_shared hlistener (fun h => .inl (hstarted h)) nofun nofun nofun
  | start phase =>
    obtain ⟨⟨t', next⟩, hmove, ⟨⟩⟩ := map_eq_some_iff.mp h
    exact Starting.move_spec hmove

end Spec

/-! ## Orderly runs -/

structure Kept (s : State) : Prop where
  own : ∀ call ∈ s.calls, ∀ run, call.pending = some run → s.shared.listenerAddr ≠ "" →
    s.isBound run = true
  live : ∀ call ∈ s.calls, ∀ run, call.pending = some run → s.isBound run = true →
    s.isLive run = true
  marking : ∀ run, Call.start (.marking run) ∈ s.calls → s.isBound run = true
  returned : ∀ run, Call.start (.returned (some run) none) ∈ s.calls → s.isBound run = true
  started : s.shared.started = true → ∃ run, s.isLive run = true

section Orderly

variable {listenAddr : String} {s t : State} {i : Nat}

theorem Kept.truthful (h : Kept s) : Truthful listenAddr s where
  stopped hover _ := by
    change s.shared.started = false
    rw [← Bool.not_eq_true]
    intro hstarted
    obtain ⟨run, hlive⟩ := h.started hstarted
    obtain ⟨found, hfound, hplace⟩ := isLive_iff.mp hlive
    cases hplace.symm.trans (hover found (mem_of_getElem? hfound))
  bound hmem := h.returned _ hmem

theorem Kept.enter (h : Kept s) (kind : Kind) :
    Kept { s with calls := s.calls ++ [kind.call] } := by
  have hpending : ∀ run, kind.call.pending ≠ some run := by cases kind <;> nofun
  refine ⟨?_, ?_, ?_, ?_, h.started⟩
  · intro call hcall run hrun
    rcases mem_append.mp hcall with hcall | hcall
    · exact h.own call hcall run hrun
    · rw [mem_singleton.mp hcall] at hrun
      exact absurd hrun (hpending run)
  · intro call hcall run hrun
    rcases mem_append.mp hcall with hcall | hcall
    · exact h.live call hcall run hrun
    · rw [mem_singleton.mp hcall] at hrun
      exact absurd hrun (hpending run)
  · intro run hrun
    rcases mem_append.mp hrun with hrun | hrun
    · exact h.marking run hrun
    · cases kind <;> cases mem_singleton.mp hrun
  · intro run hrun
    rcases mem_append.mp hrun with hrun | hrun
    · exact h.returned run hrun
    · cases kind <;> cases mem_singleton.mp hrun

theorem Kept.call (h : Kept s) {call call' : Call} (hi : s.calls[i]? = some call)
    (hstep : CallStep s t call call')
    (horderly : call = .start .entered → s.shared.done = none → s.shared.listenerAddr = "") :
    Kept { t with calls := s.calls.set i call' } := by
  have hcall : call ∈ s.calls := mem_of_getElem? hi
  have haddr : t.shared.listenerAddr = s.shared.listenerAddr := by
    unfold Shared.listenerAddr
    rw [hstep.listener]
  refine ⟨?_, ?_, ?_, ?_, ?_⟩
  · intro c hc run hrun hne
    change t.shared.listenerAddr ≠ "" at hne
    change t.isBound run = true
    rw [haddr] at hne
    rw [hstep.isBound]
    rcases mem_or_eq_of_mem_set hc with hc | rfl
    · exact h.own c hc run hrun hne
    · rcases hstep.pending run hrun with hrun | ⟨hentered, hdone, -⟩
      · exact h.own call hcall run hrun hne
      · exact absurd (horderly hentered hdone) hne
  · intro c hc run hrun hbound
    change t.isBound run = true at hbound
    change t.isLive run = true
    rw [hstep.isBound] at hbound
    refine hstep.isLive run ?_
    rcases mem_or_eq_of_mem_set hc with hc | rfl
    · exact h.live c hc run hrun hbound
    · rcases hstep.pending run hrun with hrun | ⟨-, -, hunbound⟩
      · exact h.live call hcall run hrun hbound
      · cases hbound.symm.trans hunbound
  · intro run hrun
    change t.isBound run = true
    rw [hstep.isBound]
    rcases mem_or_eq_of_mem_set hrun with hrun | hrun
    · exact h.marking run hrun
    · obtain ⟨rfl, hne⟩ := hstep.marking run hrun.symm
      exact h.own _ hcall run rfl hne
  · intro run hrun
    change t.isBound run = true
    rw [hstep.isBound]
    rcases mem_or_eq_of_mem_set hrun with hrun | hrun
    · exact h.returned run hrun
    · cases hstep.returned run hrun.symm
      exact h.marking run hcall
  · intro hstarted
    rcases hstep.started hstarted with hstarted | ⟨run, rfl⟩
    · obtain ⟨run, hlive⟩ := h.started hstarted
      exact ⟨run, hstep.isLive run hlive⟩
    · exact ⟨run, hstep.isLive run (h.live _ hcall run rfl (h.marking run hcall))⟩

theorem Kept.of_runs (h : Kept s) (hcalls : t.calls = s.calls)
    (hbound : ∀ run, s.isBound run = true → t.isBound run = true)
    (haddr : t.shared.listenerAddr ≠ "" → s.shared.listenerAddr ≠ "" ∨
      ∀ call ∈ s.calls, ∀ run ∈ call.pending, s.isBound run = true)
    (hlive : ∀ call ∈ s.calls, ∀ run, call.pending = some run → t.isBound run = true →
      t.isLive run = true)
    (hstarted : t.shared.started = true → ∃ run, t.isLive run = true) : Kept t := by
  refine ⟨?_, ?_, ?_, ?_, hstarted⟩
  · intro call hcall run hrun hne
    rw [hcalls] at hcall
    apply hbound
    rcases haddr hne with hne | hall
    · exact h.own call hcall run hrun hne
    · exact hall call hcall run hrun
  · exact fun call hcall => hlive call (hcalls ▸ hcall)
  · exact fun run hrun => hbound run (h.marking run (hcalls ▸ hrun))
  · exact fun run hrun => hbound run (h.returned run (hcalls ▸ hrun))

section Moved

variable {run run' : Run} (hi : s.runs[i]? = some run) (hruns : t.runs = s.runs.set i run')
include hi hruns

theorem isBound_moved (j : Nat) : t.isBound j = if i = j then run'.bound else s.isBound j := by
  rw [isBound, hruns, any_set hi]
  rfl

theorem isLive_moved (j : Nat) : t.isLive j = if i = j then !run'.place.over else s.isLive j := by
  rw [isLive, hruns, any_set hi]
  rfl

theorem isBound_of_moved (hbound : run.bound = true → run'.bound = true) (j : Nat)
    (hj : s.isBound j = true) : t.isBound j = true := by
  rw [isBound_moved hi hruns]
  split
  · next hij =>
      subst hij
      exact hbound ((isBound_eq hi).symm.trans hj)
  · exact hj

theorem isLive_of_moved (hover : run'.place.over = run.place.over) (j : Nat) :
    t.isLive j = s.isLive j := by
  rw [isLive_moved hi hruns]
  split
  · next hij =>
      subst hij
      rw [isLive_eq hi, hover]
  · rfl

end Moved

variable {run run' : Run}

theorem Kept.goOn (h : Kept s) (hi : s.runs[i]? = some run)
    (hover : run'.place.over = run.place.over)
    (hbound : run'.bound = run.bound ∨ run'.bound = true ∧ run'.place.over = false) :
    Kept { s with runs := s.runs.set i run' } := by
  have hlive := isLive_of_moved (t := { s with runs := s.runs.set i run' }) hi rfl hover
  refine h.of_runs rfl (isBound_of_moved hi rfl ?_) .inl ?_ ?_
  · intro hrun
    rcases hbound with hsame | ⟨hnew, -⟩
    · exact hsame.trans hrun
    · exact hnew
  · intro call hcall j hj hjBound
    rw [isBound_moved hi rfl] at hjBound
    by_cases hij : i = j
    · subst hij
      rw [if_pos rfl] at hjBound
      rcases hbound with hsame | ⟨-, hplace⟩
      · rw [hlive]
        exact h.live call hcall i hj ((isBound_eq hi).trans (hsame.symm.trans hjBound))
      · rw [isLive_moved hi rfl, if_pos rfl, hplace]
        rfl
    · rw [if_neg hij] at hjBound
      rw [hlive]
      exact h.live call hcall j hj hjBound
  · intro hstarted
    obtain ⟨j, hj⟩ := h.started hstarted
    exact ⟨j, (hlive j).trans hj⟩

theorem Kept.publish (h : Kept s) {addr : String} (hi : s.runs[i]? = some run)
    (hover : run'.place.over = run.place.over) (hbound : run'.bound = run.bound)
    (hall : addr ≠ "" → ∀ call ∈ s.calls, ∀ run ∈ call.pending, s.isBound run = true) :
    Kept { s with
      shared := { s.shared with listener := some addr }
      runs := s.runs.set i run' } := by
  have hmoved := h.goOn hi hover (.inl hbound)
  refine hmoved.of_runs rfl (fun _ hj => hj) ?_ hmoved.live hmoved.started
  intro hne
  refine .inr fun call hcall j hj => ?_
  exact isBound_of_moved hi rfl hbound.trans j (hall hne call hcall j hj)

theorem Kept.step (h : Kept s) {event : Event} (horderly : event.Orderly s)
    (hstep : (machine listenAddr).step s event = some t) : Kept t := by
  cases event with
  | enter kind =>
    cases hstep
    exact h.enter kind
  | call i case =>
    obtain ⟨call, hi, hstep⟩ := bind_eq_some_iff.mp hstep
    obtain ⟨⟨t', call'⟩, hmove, rfl⟩ := map_eq_some_iff.mp hstep
    refine h.call hi (Call.move_spec hmove) ?_
    rintro rfl
    exact horderly hi
  | run i progress =>
    obtain ⟨run, hi, hstep⟩ := bind_eq_some_iff.mp hstep
    obtain ⟨⟨run', shared⟩, hmove, rfl⟩ := map_eq_some_iff.mp hstep
    have hplaceOrderly := horderly run hi
    rcases Run.move_cases hmove with
      ⟨rfl, hover, hbound⟩ | ⟨addr, hplace, rfl, rfl⟩ | ⟨err, hplace, rfl, rfl⟩
    · exact h.goOn hi hover hbound
    · rw [hplace] at hplaceOrderly
      refine h.publish hi ?_ rfl hplaceOrderly
      rw [hplace]
      rfl
    · rw [hplace] at hplaceOrderly
      refine h.of_runs rfl (isBound_of_moved hi rfl id) .inl ?_ nofun
      intro call hcall j hj hjBound
      rw [isBound_moved hi rfl] at hjBound
      rw [isLive_moved hi rfl]
      by_cases hij : i = j
      · subst hij
        rw [if_pos rfl] at hjBound
        exact absurd hj (hplaceOrderly hjBound call hcall)
      · rw [if_neg hij] at hjBound ⊢
        exact h.live call hcall j hj hjBound

theorem Kept.init : Kept (machine listenAddr).init where
  own := nofun
  live := nofun
  marking := nofun
  returned := nofun
  started := nofun

/-- **The coordination tells the truth** in every state of a run whose steps are orderly. -/
theorem coordination_truthful (listenAddr : String) (events : List Event)
    (h : (machine listenAddr).Along (fun s event => event.Orderly s) (machine listenAddr).init
      events) :
    (machine listenAddr).Throughout (Truthful listenAddr) (machine listenAddr).init events := by
  have hkept : (machine listenAddr).Throughout Kept (machine listenAddr).init events :=
    throughout_of_along (J := fun _ => True) (fun _ _ => trivial)
      (fun _ hkept horderly hstep => hkept.step horderly hstep) trivial Kept.init h
  exact hkept.imp fun _ hs => hs.truthful

end Orderly

def sampleEvents : List Event :=
  [.enter .start, .call 0 .next, .run 0 (.listen (.ok "127.0.0.1:7443")), .call 0 .next,
    .run 0 .next, .call 0 .tick, .call 0 .next, .call 0 .next, .enter .snapshot, .call 1 .next,
    .call 1 .next, .enter .stop, .call 2 .next, .call 2 .next, .run 0 (.finish none),
    .run 0 .next, .run 0 .next, .run 0 .next, .call 2 .done, .call 2 .next, .call 2 .next]

theorem coordination_truthful_sample :
    ((machine "127.0.0.1:0").exec (machine "127.0.0.1:0").init sampleEvents).isSome = true ∧
      (machine "127.0.0.1:0").Throughout (Truthful "127.0.0.1:0") (machine "127.0.0.1:0").init
        sampleEvents :=
  ⟨by decide, coordination_truthful _ _ (by decide)⟩

/-! ## What disorder leads to -/

section Disorder

variable (listenAddr : String) {s : State}

variable {i run : Nat}

theorem exec_check (hcall : s.calls[i]? = some (.start (.checking run)))
    (haddr : s.shared.listenerAddr ≠ "") :
    (machine listenAddr).exec s [.call i .next, .call i .next] =
      some { s with
        shared := s.shared.setStarted true
        calls := s.calls.set i (.start (.returned (some run) none)) } := by
  obtain ⟨hlt, -⟩ := List.getElem?_eq_some_iff.mp hcall
  have hcheck : (machine listenAddr).step s (.call i .next) =
      some { s with calls := s.calls.set i (.start (.marking run)) } := by
    simp only [machine, State.step, hcall, bind_some, Call.move, Starting.move,
      map_some, if_pos haddr]
  have hset : (s.calls.set i (.start (.marking run)))[i]? = some (.start (.marking run)) := by
    rw [List.getElem?_set_self hlt]
  rw [exec_cons, hcheck, bind_some, exec_cons]
  simp only [machine, State.step, hset, bind_some, Call.move, Starting.move,
    map_some, List.set_set, exec_nil]

theorem not_truthful (hcall : s.calls[i]? = some (.start (.returned (some run) none)))
    (hbound : s.isBound run = false) : ¬ Truthful listenAddr s := by
  intro h
  cases hbound.symm.trans (h.bound (mem_of_getElem? hcall))

theorem restart_lies (hdone : s.shared.done = none) (haddr : s.shared.listenerAddr ≠ "") :
    ∃ t, (machine listenAddr).exec s
        [.enter .start, .call s.calls.length .next, .call s.calls.length .next,
          .call s.calls.length .next] = some t ∧ ¬ Truthful listenAddr t := by
  have hentered : (s.calls ++ [Call.start .entered])[s.calls.length]? = some (.start .entered) :=
    getElem?_concat_length
  have hlt : s.calls.length < (s.calls ++ [Call.start .entered]).length := by simp
  have hbegin : (machine listenAddr).step { s with calls := s.calls ++ [.start .entered] }
      (.call s.calls.length .next) = some
        { shared := { s.shared with done := some s.runs.length }
          runs := s.runs ++ [{}]
          calls := (s.calls ++ [Call.start .entered]).set s.calls.length
            (.start (.checking s.runs.length)) } := by
    simp only [machine, State.step, hentered, bind_some, Call.move, Starting.move, begin,
      hdone, map_some]
  refine ⟨_, exec_of_step rfl (exec_of_step hbegin
    (exec_check listenAddr (getElem?_set_self hlt) haddr)), ?_⟩
  refine not_truthful listenAddr (i := s.calls.length) (getElem?_set_self ?_) ?_
  · rw [length_set]
    exact hlt
  · rw [State.isBound, getElem?_concat_length]
    rfl

theorem overlap_lies {i r run : Nat} {other : Run} {addr : String}
    (hother : s.runs[r]? = some other) (hplace : other.place = .bound addr) (haddr : addr ≠ "")
    (hcall : s.calls[i]? = some (.start (.checking run))) (hbound : s.isBound run = false) :
    ∃ t, (machine listenAddr).exec s [.run r .next, .call i .next, .call i .next] = some t ∧
      ¬ Truthful listenAddr t := by
  obtain ⟨hlt, -⟩ := List.getElem?_eq_some_iff.mp hcall
  have hpublish : (machine listenAddr).step s (.run r .next) = some
      { s with
        shared := { s.shared with listener := some addr }
        runs := s.runs.set r { other with place := .serving } } := by
    simp only [machine, State.step, hother, bind_some, Run.move, hplace, map_some]
  refine ⟨_, exec_of_step hpublish (exec_check listenAddr hcall haddr), ?_⟩
  refine not_truthful listenAddr (i := i) (List.getElem?_set_self hlt) ?_
  rw [isBound_moved hother rfl]
  split
  · next hij =>
      subst hij
      exact (isBound_eq hother).symm.trans hbound
  · exact hbound

theorem earlyEnd_lies {i r : Nat} {run : Run} {err : Option String}
    (hrun : s.runs[r]? = some run) (hplace : run.place = .returned err)
    (hruns : ∀ j run, s.runs[j]? = some run → j ≠ r → run.place.over = true)
    (hcall : s.calls[i]? = some (.start (.checking r)))
    (hcalls : ∀ j call, s.calls[j]? = some call → j ≠ i → call.returned = true)
    (haddr : s.shared.listenerAddr ≠ "") :
    ∃ t, (machine listenAddr).exec s [.run r .next, .call i .next, .call i .next] = some t ∧
      ¬ Truthful listenAddr t := by
  have hunmark : (machine listenAddr).step s (.run r .next) = some
      { s with
        shared := s.shared.setStarted false
        runs := s.runs.set r { run with place := .unmarked err } } := by
    simp only [machine, State.step, hrun, bind_some, Run.move, hplace, map_some]
  refine ⟨_, exec_of_step hunmark (exec_check listenAddr hcall haddr), ?_⟩
  intro h
  have hstarted := h.stopped ?_ ?_
  · cases hstarted
  · intro found hfound
    obtain ⟨j, hj⟩ := mem_iff_getElem?.mp hfound
    rw [getElem?_set] at hj
    split at hj
    · split at hj <;> cases hj
      rfl
    · next hne => exact hruns j found hj (Ne.symm hne)
  · intro call hmem
    obtain ⟨j, hj⟩ := mem_iff_getElem?.mp hmem
    rw [getElem?_set] at hj
    split at hj
    · split at hj <;> cases hj
      rfl
    · next hne => exact hcalls j call hj (Ne.symm hne)

end Disorder

def earlyEnd : List Event :=
  [.enter .start, .call 0 .next, .run 0 (.listen (.ok "127.0.0.1:7443")), .run 0 .next,
    .run 0 (.finish (some "accept: closed")), .run 0 .next, .run 0 .next, .run 0 .next,
    .call 0 .next, .call 0 .next]

/-- Another `Start` after a `Stop`. -/
def restart : List Event :=
  sampleEvents ++ [.enter .start, .call 3 .next, .call 3 .next, .call 3 .next]

/-- **The coordination lies**. -/
theorem coordination_lies :
    (∃ s, (machine "127.0.0.1:0").exec (machine "127.0.0.1:0").init earlyEnd = some s ∧
        ¬ Truthful "127.0.0.1:0" s) ∧
      ∃ s, (machine "127.0.0.1:0").exec (machine "127.0.0.1:0").init restart = some s ∧
        ¬ Truthful "127.0.0.1:0" s := by
  refine ⟨⟨_, rfl, ?_⟩, _, rfl, not_truthful _ (i := 3) rfl rfl⟩
  intro h
  cases h.stopped (by decide) (by decide)

end AwgMesh.Node.MasterCoordination
