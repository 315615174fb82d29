import AwgMesh.Clientd.State
import AwgMesh.Lib.Newest

/-!
# The agent's loop and its state cache

`Agent.Run` of `pkg/clientd/agent.go`, restarted any number of times, as a machine.
-/

namespace AwgMesh.Clientd

open Lib List

structure StreamUpdate where
  peers : Option PeerListMessage := none
  ownership : Option OwnershipMessage := none
  cert : Option Unit := none
  err : Option String := none

structure Loop where
  state : State
  peerSnapshotSeen : Bool := false
  ownershipSnapshotSeen : Bool := false
  deriving DecidableEq

namespace Loop

def absorbPeers (l : Loop) : Option PeerListMessage → Loop × Bool
  | none => (l, false)
  | some update =>
    if !l.peerSnapshotSeen then
      let out := l.state.withPeerListSnapshot update
      ({ l with state := out.1, peerSnapshotSeen := true }, out.2)
    else
      let out := l.state.withPeerList update
      ({ l with state := out.1 }, out.2)

def absorbOwnership (l : Loop) (changed : Bool) : Option OwnershipMessage → Loop × Bool
  | none => (l, changed)
  | some update =>
    if !l.ownershipSnapshotSeen then
      let out := l.state.withOwnershipSnapshot update
      ({ l with state := out.1, ownershipSnapshotSeen := true }, out.2)
    else
      let out := l.state.withOwnership update
      ({ l with state := out.1 }, out.2)

def absorb (l : Loop) (update : StreamUpdate) : Loop × Bool :=
  let (l, changed) := l.absorbPeers update.peers
  l.absorbOwnership changed update.ownership

end Loop

/-- The steps of `StateCache.Save` that can fail. -/
inductive SaveFault where
  | mkdir
  | encode
  | createTemp
  | write
  | close
  | rename

def save (file : Option State) (state : State) : Option SaveFault → Option State × Option SaveFault
  | some fault => (file, some fault)
  | none => (some state, none)

def load (file : Option State) : State := file.getD {}

inductive Phase where
  | stopped
  | loaded (state : State)
  | restoring (state : State)
  | connecting (state : State)
  | listening (loop : Loop)
  | saved (loop : Loop)
  deriving DecidableEq

structure World where
  phase : Phase := .stopped
  file : Option State := none
  applied : List State := []
  deriving DecidableEq

inductive Event where
  | start (readErr : Bool)
  | register (ok : Bool)
  | apply (ok : Bool)
  | openStreams (ok : Bool)
  | receive (update : StreamUpdate) (certOk : Bool) (fault : Option SaveFault)
  | cancel
  | crash

namespace World

def receive (w : World) (loop : Loop) (update : StreamUpdate) (certOk : Bool)
    (fault : Option SaveFault) : World :=
  if update.err.isSome then { w with phase := .stopped }
  else
    let (loop, changed) := loop.absorb update
    if update.cert.isSome then { w with phase := if certOk then .listening loop else .stopped }
    else if !changed then { w with phase := .listening loop }
    else match save w.file loop.state fault with
      | (file, some _) => { w with file := file, phase := .stopped }
      | (file, none) => { w with file := file, phase := .saved loop }

def step (w : World) : Event → Option World
  | .start readErr =>
    match w.phase with
    | .stopped => some (if readErr then w else { w with phase := .loaded (load w.file) })
    | _ => none
  | .register ok =>
    match w.phase with
    | .loaded state =>
      some { w with
        phase := if !ok then .stopped
          else if !state.isZero then .restoring state else .connecting state }
    | _ => none
  | .apply ok =>
    match w.phase with
    | .restoring state =>
      some (if ok then { w with phase := .connecting state, applied := state :: w.applied }
        else { w with phase := .stopped })
    | .saved loop =>
      some (if ok then { w with phase := .listening loop, applied := loop.state :: w.applied }
        else { w with phase := .stopped })
    | _ => none
  | .openStreams ok =>
    match w.phase with
    | .connecting state =>
      some { w with phase := if ok then .listening { state := state } else .stopped }
    | _ => none
  | .receive update certOk fault =>
    match w.phase with
    | .listening loop => some (w.receive loop update certOk fault)
    | _ => none
  | .cancel =>
    match w.phase with
    | .listening _ => some { w with phase := .stopped }
    | _ => none
  | .crash => some { w with phase := .stopped }

end World

open World

def agent : Machine World Event where
  init := {}
  step := step

/-! ## Last known good -/

/-- What the cache file holds has been applied. -/
def LastKnownGood (w : World) : Prop := ∀ state, w.file = some state → state ∈ w.applied

def Event.saves (w : World) : Event → Option State
  | .receive update _ fault =>
    match w.phase with
    | .listening loop =>
      if fault.isNone && update.err.isNone && update.cert.isNone && (loop.absorb update).2 then
        some (loop.absorb update).1.state
      else none
    | _ => none
  | _ => none

def Phase.isFresh : Phase → Bool
  | .loaded state => state.isZero
  | .restoring _ => false
  | .saved _ => false
  | _ => true

theorem World.step_receive {w t : World} {update : StreamUpdate} {certOk : Bool}
    {fault : Option SaveFault} (h : w.step (.receive update certOk fault) = some t) :
    t.applied = w.applied ∧
      (∀ state, Event.saves w (.receive update certOk fault) = some state → t.file = some state) ∧
      (Event.saves w (.receive update certOk fault) = none →
        t.file = w.file ∧ t.phase.isFresh = true) := by
  dsimp only [step, Event.saves] at h ⊢
  split at h
  · next loop hphase =>
      cases h
      unfold receive
      cases update.err with
      | some err => simp [Phase.isFresh]
      | none =>
        cases update.cert with
        | some cert => cases certOk <;> simp [Phase.isFresh]
        | none =>
          cases hchanged : (loop.absorb update).2 with
          | false => simp [hchanged, Phase.isFresh]
          | true => cases fault <;> simp [hchanged, save, Phase.isFresh]
  · cases h

theorem World.step_saves {w t : World} {e : Event} {state : State} (h : w.step e = some t)
    (hsaves : e.saves w = some state) : t.file = some state ∧ t.applied = w.applied := by
  cases e with
  | receive update certOk fault =>
    obtain ⟨happlied, hfile, -⟩ := step_receive h
    exact ⟨hfile state hsaves, happlied⟩
  | start readErr | register ok | apply ok | openStreams ok | cancel | crash => cases hsaves

/-! ## A cache that was never written -/

structure Fresh (w : World) : Prop where
  file : w.file = none
  applied : w.applied = []
  phase : w.phase.isFresh = true

theorem Fresh.lastKnownGood {w : World} (h : Fresh w) : LastKnownGood w := by
  intro state hstate
  rw [h.file] at hstate
  cases hstate

theorem Fresh.step {w t : World} {e : Event} (hw : Fresh w) (h : w.step e = some t)
    (hsaves : e.saves w = none) : Fresh t := by
  cases e with
  | start readErr =>
    dsimp only [World.step] at h
    split at h
    · cases h
      split
      · exact hw
      · refine { hw with phase := ?_ }
        show (load w.file).isZero = true
        rw [hw.file]
        rfl
    · cases h
  | register ok =>
    dsimp only [World.step] at h
    split at h
    · next state hphase =>
        cases h
        have hzero : state.isZero = true := by
          have := hw.phase
          rwa [hphase] at this
        refine { hw with phase := ?_ }
        show (if !ok then Phase.stopped
          else if !state.isZero then .restoring state else .connecting state).isFresh = true
        rw [hzero]
        cases ok <;> rfl
    · cases h
  | apply ok =>
    dsimp only [World.step] at h
    have hphase := hw.phase
    split at h
    · next heq => rw [heq] at hphase; cases hphase
    · next heq => rw [heq] at hphase; cases hphase
    · cases h
  | openStreams ok =>
    dsimp only [World.step] at h
    split at h
    · cases h
      refine { hw with phase := ?_ }
      cases ok <;> rfl
    · cases h
  | receive update certOk fault =>
    obtain ⟨happlied, -, hkept⟩ := World.step_receive h
    obtain ⟨hfile, hphase⟩ := hkept hsaves
    exact ⟨hfile.trans hw.file, happlied.trans hw.applied, hphase⟩
  | cancel =>
    dsimp only [World.step] at h
    split at h
    · cases h
      exact { hw with phase := rfl }
    · cases h
  | crash =>
    cases h
    exact { hw with phase := rfl }

/-- **The cache is last known good throughout a run exactly as long as it is never written**. -/
theorem lastKnownGood_throughout_iff {events : List Event}
    (hrun : (agent.exec agent.init events).isSome) :
    agent.Throughout LastKnownGood agent.init events ↔
      agent.Along (fun w e => e.saves w = none) agent.init events := by
  have hinit : Fresh agent.init := ⟨rfl, rfl, rfl⟩
  have hfresh : agent.Throughout Fresh agent.init events ↔
      agent.Along (fun w e => e.saves w = none) agent.init events := by
    refine Machine.throughout_iff_along (J := fun _ => True) (fun _ _ => trivial) ?_ trivial hinit
      hrun
    intro w e t _ hw hstep
    refine ⟨fun ht => ?_, fun hsaves => hw.step hstep hsaves⟩
    cases hsaves : e.saves w with
    | none => rfl
    | some state => exact absurd ((step_saves hstep hsaves).1.symm.trans ht.file) (by simp)
  rw [← hfresh]
  refine ⟨Machine.Throughout.strengthen ?_ hinit,
    Machine.Throughout.imp fun w hw => hw.lastKnownGood⟩
  intro w e t hw hstep hgood
  cases hsaves : e.saves w with
  | none => exact hw.step hstep hsaves
  | some state =>
    -- the state saved would have to be among those applied, and there are none
    obtain ⟨hfile, happlied⟩ := step_saves hstep hsaves
    have hmem := hgood state hfile
    rw [happlied, hw.applied] at hmem
    cases hmem

def firstUpdate (update : StreamUpdate) : List Event :=
  [.start false, .register true, .openStreams true, .receive update true none]

/-- Certificate updates, a crash, a failed start and a lost stream leave the cache alone. -/
theorem lastKnownGood_certificate_update :
    agent.Throughout LastKnownGood agent.init
      (firstUpdate { cert := some () } ++ [.receive { cert := some () } true none, .crash,
        .start true] ++ firstUpdate { cert := some () } ++ [.cancel] ++
          firstUpdate { err := some "EOF" } ++ [.start false]) :=
  (lastKnownGood_throughout_iff (by decide)).mpr (by decide)

/-- An update that cannot be applied stays in the cache. -/
theorem cache_keeps_failed_update :
    ∃ w, agent.exec agent.init
        (firstUpdate { peers := some { peers := [some { peerName := "m" }], version := 1 } } ++
          [.apply false]) = some w ∧ w.phase = .stopped ∧ ¬ LastKnownGood w ∧
        agent.exec w [.start false, .register true, .apply false] = some w := by
  refine ⟨{ file := some { peers := [{ peerName := "m" }], peerListVersion := 1 } }, by decide, rfl,
    ?_, by decide⟩
  intro h
  cases h _ rfl

/-! ## How a client merges its streams -/

def updates (events : List Event) : List StreamUpdate :=
  events.filterMap fun
    | .receive update _ _ => some update
    | _ => none

def peerLists (events : List Event) : List PeerListMessage := (updates events).filterMap (·.peers)

def ownerships (events : List Event) : List OwnershipMessage :=
  (updates events).filterMap (·.ownership)

def Phase.loop? : Phase → Option Loop
  | .listening loop => some loop
  | .saved loop => some loop
  | _ => none

def Event.sameRun : Event → Bool
  | .start _ => false
  | _ => true

def Loop.absorbAll (l : Loop) (us : List StreamUpdate) : Loop :=
  us.foldl (fun l u => (l.absorb u).1) l

/-! ## One execution of `Run` -/

section Run

variable {w t : World} {e : Event} {events : List Event} {loop loop' : Loop}

theorem step_in_loop (hw : w.phase.loop? = some loop) (h : w.step e = some t) :
    t.phase = .stopped ∨ t.phase.loop? = some (loop.absorbAll (updates [e])) := by
  cases e with
  | start readErr | register ok | openStreams ok =>
    dsimp only [step] at h
    split at h
    · next hphase => rw [hphase] at hw; cases hw
    · cases h
  | apply ok =>
    dsimp only [step] at h
    split at h
    · next hphase => rw [hphase] at hw; cases hw
    · next hphase =>
        rw [hphase] at hw
        cases hw
        cases h
        cases ok with
        | false => exact .inl rfl
        | true => exact .inr rfl
    · cases h
  | receive update certOk fault =>
    dsimp only [step] at h
    split at h
    · next hphase =>
        rw [hphase] at hw
        cases hw
        cases h
        unfold receive
        dsimp only
        split
        · exact .inl rfl
        split
        · cases certOk with
          | false => exact .inl rfl
          | true => exact .inr rfl
        split
        · exact .inr rfl
        cases fault with
        | some fault => exact .inl rfl
        | none => exact .inr rfl
    · cases h
  | cancel =>
    dsimp only [step] at h
    split at h
    · cases h; exact .inl rfl
    · cases h
  | crash => cases h; exact .inl rfl

theorem stopped_step (hw : w.phase = .stopped) (he : e.sameRun = true) (h : w.step e = some t) :
    t.phase = .stopped := by
  cases e with
  | start readErr => cases he
  | crash => cases h; rfl
  | register ok | apply ok | openStreams ok | receive update certOk fault | cancel =>
    dsimp only [step] at h
    rw [hw] at h
    cases h

theorem updates_append (events events' : List Event) :
    updates (events ++ events') = updates events ++ updates events' := filterMap_append

theorem peerLists_append (events events' : List Event) :
    peerLists (events ++ events') = peerLists events ++ peerLists events' := by
  unfold peerLists
  rw [updates_append, filterMap_append]

theorem ownerships_append (events events' : List Event) :
    ownerships (events ++ events') = ownerships events ++ ownerships events' := by
  unfold ownerships
  rw [updates_append, filterMap_append]

theorem exec_in_loop (hw : w.phase.loop? = some loop) (hsame : ∀ e ∈ events, e.sameRun = true)
    (hexec : agent.exec w events = some t) (ht : t.phase.loop? = some loop') :
    loop' = loop.absorbAll (updates events) := by
  have hrun : (∀ e ∈ events, e.sameRun = true) →
      t.phase = .stopped ∨ t.phase.loop? = some (loop.absorbAll (updates events)) := by
    refine Machine.exec_invariant (I := fun events t => (∀ e ∈ events, e.sameRun = true) →
      t.phase = .stopped ∨ t.phase.loop? = some (loop.absorbAll (updates events))) ?_ ?_ hexec
    · exact fun _ => .inr hw
    · intro events u e v _ ih hstep hsame
      rw [forall_mem_append] at hsame
      rcases ih hsame.1 with hstopped | hloop
      · exact .inl (stopped_step hstopped (hsame.2 e mem_cons_self) hstep)
      · rw [updates_append, Loop.absorbAll, foldl_append]
        exact step_in_loop hloop hstep
  rcases hrun hsame with hstopped | hloop
  · rw [hstopped] at ht
    cases ht
  · rw [ht] at hloop
    cases hloop
    rfl

end Run

/-! ## The two halves of the state -/

namespace Loop

def peersOf (m : PeerListMessage) : List PeerEntry :=
  m.peers.filterMap fun p => p.map PeerEntry.ofProto

def ownershipOf (m : OwnershipMessage) : List OwnershipEntry :=
  m.entries.filterMap fun e => e.map OwnershipEntry.ofProto

def peerSlot (l : Loop) : Slot Int (List PeerEntry) :=
  { seen := l.peerSnapshotSeen, version := l.state.peerListVersion, value := l.state.peers }

def ownershipSlot (l : Loop) : Slot Int (List OwnershipEntry) :=
  { seen := l.ownershipSnapshotSeen, version := l.state.ownershipVersion
    value := l.state.ownership }

theorem absorbPeers_slots (l : Loop) (m : PeerListMessage) :
    (l.absorbPeers (some m)).1.peerSlot = l.peerSlot.receive (·.version) peersOf m ∧
      (l.absorbPeers (some m)).1.ownershipSlot = l.ownershipSlot := by
  unfold absorbPeers Slot.receive State.withPeerList peerSlot
  dsimp only
  cases l.peerSnapshotSeen with
  | false => exact ⟨rfl, rfl⟩
  | true =>
    rw [Bool.not_true, if_neg Bool.false_ne_true, if_neg Bool.false_ne_true]
    split <;> exact ⟨rfl, rfl⟩

theorem absorbOwnership_slots (l : Loop) (changed : Bool) (m : OwnershipMessage) :
    (l.absorbOwnership changed (some m)).1.ownershipSlot =
        l.ownershipSlot.receive (·.version) ownershipOf m ∧
      (l.absorbOwnership changed (some m)).1.peerSlot = l.peerSlot := by
  unfold absorbOwnership Slot.receive State.withOwnership ownershipSlot
  dsimp only
  cases l.ownershipSnapshotSeen with
  | false => exact ⟨rfl, rfl⟩
  | true =>
    rw [Bool.not_true, if_neg Bool.false_ne_true, if_neg Bool.false_ne_true]
    split <;> exact ⟨rfl, rfl⟩

theorem absorb_slots (l : Loop) (u : StreamUpdate) :
    (l.absorb u).1.peerSlot = u.peers.toList.foldl (Slot.receive (·.version) peersOf) l.peerSlot ∧
      (l.absorb u).1.ownershipSlot =
        u.ownership.toList.foldl (Slot.receive (·.version) ownershipOf) l.ownershipSlot := by
  unfold absorb
  cases u.peers with
  | none =>
    cases u.ownership with
    | none => exact ⟨rfl, rfl⟩
    | some o =>
      obtain ⟨hown, hpeers⟩ := l.absorbOwnership_slots false o
      exact ⟨hpeers, hown⟩
  | some m =>
    obtain ⟨hpeers, hown⟩ := l.absorbPeers_slots m
    cases u.ownership with
    | none => exact ⟨hpeers, hown⟩
    | some o =>
      obtain ⟨hown', hpeers'⟩ :=
        (l.absorbPeers (some m)).1.absorbOwnership_slots (l.absorbPeers (some m)).2 o
      exact ⟨hpeers'.trans hpeers, hown'.trans (by rw [hown]; rfl)⟩

theorem absorbAll_slots (l : Loop) (us : List StreamUpdate) :
    (l.absorbAll us).peerSlot =
        (us.filterMap (·.peers)).foldl (Slot.receive (·.version) peersOf) l.peerSlot ∧
      (l.absorbAll us).ownershipSlot =
        (us.filterMap (·.ownership)).foldl (Slot.receive (·.version) ownershipOf)
          l.ownershipSlot := by
  induction us generalizing l with
  | nil => exact ⟨rfl, rfl⟩
  | cons u rest ih =>
    obtain ⟨hpeers, hown⟩ := l.absorb_slots u
    obtain ⟨ihpeers, ihown⟩ := ih (l.absorb u).1
    constructor
    · refine ihpeers.trans ?_
      rw [hpeers]
      cases hu : u.peers with
      | none => rw [filterMap_cons_none hu]; rfl
      | some m => rw [filterMap_cons_some hu]; rfl
    · refine ihown.trans ?_
      rw [hown]
      cases hu : u.ownership with
      | none => rw [filterMap_cons_none hu]; rfl
      | some m => rw [filterMap_cons_some hu]; rfl

end Loop

/-! ## The merge over one execution of `Run` -/

section Merge

variable {w t : World} {events : List Event} {loop : Loop} {cached : State}

theorem slots_in_loop (hw : w.phase = .listening { state := cached })
    (hsame : ∀ e ∈ events, e.sameRun = true) (hexec : agent.exec w events = some t)
    (hloop : t.phase.loop? = some loop) :
    loop.peerSlot = (peerLists events).foldl (Slot.receive (·.version) Loop.peersOf)
        (Loop.peerSlot { state := cached }) ∧
      loop.ownershipSlot = (ownerships events).foldl (Slot.receive (·.version) Loop.ownershipOf)
        (Loop.ownershipSlot { state := cached }) := by
  have hstart : w.phase.loop? = some { state := cached } := by rw [hw]; rfl
  rw [exec_in_loop hstart hsame hexec hloop]
  exact Loop.absorbAll_slots _ _

end Merge

/-- **The merge is robust** over one execution of `Run`. -/
theorem client_merge_order_robust {w t : World} {cached : State} {events : List Event} {loop : Loop}
    (hw : w.phase = .listening { state := cached }) (hsame : ∀ e ∈ events, e.sameRun = true)
    (hexec : agent.exec w events = some t) (hloop : t.phase.loop? = some loop) :
    (∀ pre post u mid, events = pre ++ post → agent.exec w pre = some u → u.phase.loop? = some mid →
        (peerLists pre ≠ [] → mid.state.peerListVersion ≤ loop.state.peerListVersion) ∧
          (ownerships pre ≠ [] → mid.state.ownershipVersion ≤ loop.state.ownershipVersion)) ∧
      (peerLists events ≠ [] → ∃ m, EarliestNewest (·.version) (peerLists events) m ∧
        loop.state.peers = Loop.peersOf m ∧ loop.state.peerListVersion = m.version) ∧
      (ownerships events ≠ [] → ∃ m, EarliestNewest (·.version) (ownerships events) m ∧
        loop.state.ownership = Loop.ownershipOf m ∧ loop.state.ownershipVersion = m.version) ∧
      ∀ events' t' loop', (∀ e ∈ events', e.sameRun = true) → agent.exec w events' = some t' →
        t'.phase.loop? = some loop' →
        (peerLists events' = peerLists events → loop'.state.peers = loop.state.peers ∧
          loop'.state.peerListVersion = loop.state.peerListVersion) ∧
        (ownerships events' = ownerships events → loop'.state.ownership = loop.state.ownership ∧
          loop'.state.ownershipVersion = loop.state.ownershipVersion) := by
  obtain ⟨hpeers, hown⟩ := slots_in_loop hw hsame hexec hloop
  refine ⟨?_, ?_, ?_, ?_⟩
  · rintro pre post u mid rfl hpre hmid
    rw [forall_mem_append] at hsame
    obtain ⟨hpeers', hown'⟩ := slots_in_loop hw hsame.1 hpre hmid
    rw [peerLists_append] at hpeers
    rw [ownerships_append] at hown
    constructor
    · intro hne
      show mid.peerSlot.version ≤ loop.peerSlot.version
      rw [hpeers, hpeers']
      exact Slot.version_le_foldl_append rfl hne _
    · intro hne
      show mid.ownershipSlot.version ≤ loop.ownershipSlot.version
      rw [hown, hown']
      exact Slot.version_le_foldl_append rfl hne _
  · intro hne
    obtain ⟨m, hm, hslot⟩ :=
      Slot.foldl_receive_of_ne_nil (s := Loop.peerSlot { state := cached }) rfl hne
    rw [hslot] at hpeers
    exact ⟨m, hm, congrArg Slot.value hpeers, congrArg Slot.version hpeers⟩
  · intro hne
    obtain ⟨m, hm, hslot⟩ :=
      Slot.foldl_receive_of_ne_nil (s := Loop.ownershipSlot { state := cached }) rfl hne
    rw [hslot] at hown
    exact ⟨m, hm, congrArg Slot.value hown, congrArg Slot.version hown⟩
  · intro events' t' loop' hsame' hexec' hloop'
    obtain ⟨hpeers', hown'⟩ := slots_in_loop hw hsame' hexec' hloop'
    constructor
    · intro heq
      rw [heq, ← hpeers] at hpeers'
      exact ⟨congrArg Slot.value hpeers', congrArg Slot.version hpeers'⟩
    · intro heq
      rw [heq, ← hown] at hown'
      exact ⟨congrArg Slot.value hown', congrArg Slot.version hown'⟩

def sampleListening : World :=
  { phase := .listening { state := { peerListVersion := 9 } }
    file := some { peerListVersion := 9 } }

def sampleEvents : List Event :=
  [ .receive { peers := some { version := 2 } } true none, .apply true,
    .receive { peers := some { peers := [some { peerName := "m" }], version := 3 } } true none,
    .apply true, .receive { ownership := some { version := 1 } } true none, .apply true,
    .receive { peers := some { version := 2 } } true none ]

theorem client_merge_order_robust_stale :
    ∃ t loop, agent.exec sampleListening sampleEvents = some t ∧ t.phase.loop? = some loop ∧
      ∃ m, EarliestNewest (·.version) (peerLists sampleEvents) m ∧
        loop.state.peers = Loop.peersOf m ∧ loop.state.peerListVersion = m.version := by
  refine ⟨_, _, by rfl, by rfl, ?_⟩
  exact (client_merge_order_robust rfl (by decide)
    (Eq.refl (agent.exec sampleListening sampleEvents)) rfl).2.1 (by decide)

end AwgMesh.Clientd
