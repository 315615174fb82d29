import AwgMesh.ByteText
import AwgMesh.Lib.Machine

/-! # The admin-state store -/

namespace AwgMesh.AdminState

open Lib ByteText List

inductive SetError where
  | ensureDir
  | lockOpen
  | lockHeld
  | read
  | callback (oldKey : Bytes)
  | emptyKey
  | openTmp
  | write
  | fsync
  | close
  | rename

structure Txn where
  oldKey : Bytes
  newKey : Bytes
  deriving DecidableEq

inductive Phase where
  -- `SetPubkey`, in the order of its statements
  | start
  | ensureDir
  | lock
  | read
  | callback (oldKey : Bytes)
  | openTmp (t : Txn)
  | write (t : Txn)
  | fsync (t : Txn)
  | close (t : Txn)
  | rename (t : Txn)
  -- the deferred calls, in the order in which they run
  | release (result : Except SetError Bytes)
  | unlock (result : Except SetError Bytes)
  | returned (result : Except SetError Bytes)
  -- `GetPubkey`
  | get
  | got (result : Option Bytes)

structure Call where
  store : Nat
  phase : Phase

structure Commit extends Txn where
  call : Nat

structure System where
  pubkey : Option Bytes := none
  tmp : Option Bytes := none
  lock : Option Nat := none
  mutex : Nat → Bool := fun _ => false
  calls : List Call := []
  log : List Commit := []

inductive Effect where
  | ok
  | fail (written : Bytes) (removed : Bool)

inductive Event where
  | setPubkey (store : Nat)
  | getPubkey (store : Nat)
  | step (i : Nat) (effect : Effect)
  | reply (i : Nat) (result : Option Bytes)

namespace System

def goto (s : System) (i : Nat) (c : Call) (p : Phase) : System :=
  { s with calls := s.calls.set i { c with phase := p } }

def readPubkey (s : System) : Effect → Option Bytes
  | .fail _ _ => none
  | .ok => some (match s.pubkey with
      | none => []
      | some data => trimSpace data)

def discard (s : System) (removed : Bool) : System :=
  { s with tmp := if removed then none else s.tmp }

def afterCallback (oldKey : Bytes) : Option Bytes → Phase
  | none => .release (.error (.callback oldKey))
  | some newKey =>
    if newKey = [] then .release (.error .emptyKey) else .openTmp ⟨oldKey, newKey⟩

def advance (s : System) (i : Nat) (c : Call) (effect : Effect) : Option System :=
  match c.phase, effect with
  | .start, _ =>
    if s.mutex c.store then none
    else some ({ s with mutex := Function.update s.mutex c.store true }.goto i c .ensureDir)
  | .ensureDir, .ok => some (s.goto i c .lock)
  | .ensureDir, .fail _ _ => some (s.goto i c (.unlock (.error .ensureDir)))
  | .lock, .ok =>
    if s.lock.isSome then some (s.goto i c (.unlock (.error .lockHeld)))
    else some ({ s with lock := some i }.goto i c .read)
  | .lock, .fail _ _ => some (s.goto i c (.unlock (.error .lockOpen)))
  | .read, effect =>
    match s.readPubkey effect with
    | none => some (s.goto i c (.release (.error .read)))
    | some oldKey => some (s.goto i c (.callback oldKey))
  | .callback _, _ => none
  | .openTmp t, .ok => some ({ s with tmp := some [] }.goto i c (.write t))
  | .openTmp _, .fail _ _ => some (s.goto i c (.release (.error .openTmp)))
  | .write t, .ok => some ({ s with tmp := some (t.newKey ++ [lf]) }.goto i c (.fsync t))
  | .write _, .fail written removed =>
    some (({ s with tmp := some written }.discard removed).goto i c (.release (.error .write)))
  | .fsync t, .ok => some (s.goto i c (.close t))
  | .fsync _, .fail _ removed => some ((s.discard removed).goto i c (.release (.error .fsync)))
  | .close t, .ok => some (s.goto i c (.rename t))
  | .close _, .fail _ removed => some ((s.discard removed).goto i c (.release (.error .close)))
  | .rename t, .ok =>
    match s.tmp with
    | some data =>
      some ({ s with
        pubkey := some data, tmp := none, log := s.log ++ [Commit.mk t i] }.goto i c
          (.release (.ok t.newKey)))
    | none => some (s.goto i c (.release (.error .rename)))
  | .rename _, .fail _ removed => some ((s.discard removed).goto i c (.release (.error .rename)))
  | .release result, _ => some ({ s with lock := none }.goto i c (.unlock result))
  | .unlock result, _ =>
    some ({ s with mutex := Function.update s.mutex c.store false }.goto i c (.returned result))
  | .returned _, _ => none
  | .get, effect => some (s.goto i c (.got (s.readPubkey effect)))
  | .got _, _ => none

def step (s : System) : Event → Option System
  | .setPubkey store => some { s with calls := s.calls ++ [⟨store, .start⟩] }
  | .getPubkey store => some { s with calls := s.calls ++ [⟨store, .get⟩] }
  | .step i effect =>
    match s.calls[i]? with
    | none => none
    | some c => s.advance i c effect
  | .reply i result =>
    match s.calls[i]? with
    | some ⟨store, .callback oldKey⟩ =>
      some (s.goto i ⟨store, .callback oldKey⟩ (afterCallback oldKey result))
    | _ => none

end System

def adminState : Machine System Event where
  init := {}
  step := System.step

/-! ## What is claimed of a system -/

/-- Each transaction starts from the key of the one before. -/
def Chained : (key : Bytes) → List Commit → Prop
  | _, [] => True
  | key, c :: rest => c.oldKey = key ∧ Chained c.newKey rest

def lastKey (log : List Commit) : Bytes :=
  match log.getLast? with
  | none => []
  | some c => c.newKey

def storedFile (log : List Commit) : Option Bytes :=
  match log.getLast? with
  | none => none
  | some c => some (c.newKey ++ [lf])

def Fresh (log : List Commit) (i : Nat) : Prop := ∀ c ∈ log, c.call ≠ i

/-- The transactions follow each other, and the file holds what they made. -/
structure Serial (s : System) : Prop where
  chained : Chained [] s.log
  once : (s.log.map (·.call)).Nodup
  stored : s.pubkey = storedFile s.log
  committed : ∀ (i : Nat) (c : Call) (key : Bytes), s.calls[i]? = some c →
    c.phase = .returned (.ok key) → ∃ commit ∈ s.log, commit.call = i ∧ commit.newKey = key
  failed : ∀ (i : Nat) (c : Call) (err : SetError), s.calls[i]? = some c →
    c.phase = .returned (.error err) → Fresh s.log i
  got : ∀ (i : Nat) (c : Call) (key : Bytes), s.calls[i]? = some c →
    c.phase = .got (some key) → key = [] ∨ ∃ commit ∈ s.log, commit.newKey = key

/-! ## What a call knows -/

def Phase.critical : Phase → Bool
  | .read | .callback _ | .openTmp _ | .write _ | .fsync _ | .close _ | .rename _
  | .release _ => true
  | _ => false

def Current (log : List Commit) (t : Txn) : Prop := t.oldKey = lastKey log ∧ Trimmed t.newKey

def Settled (log : List Commit) (i : Nat) : Except SetError Bytes → Prop
  | .ok key => ∃ commit ∈ log, commit.call = i ∧ commit.newKey = key
  | .error _ => Fresh log i

/-- What holds of call `i` in a phase. -/
def Phase.Knows (log : List Commit) (tmp : Option Bytes) (i : Nat) : Phase → Prop
  | .start | .ensureDir | .lock | .read => Fresh log i
  | .callback oldKey => Fresh log i ∧ oldKey = lastKey log
  | .openTmp t | .write t => Fresh log i ∧ Current log t
  | .fsync t | .close t | .rename t =>
    Fresh log i ∧ Current log t ∧ tmp = some (t.newKey ++ [lf])
  | .release result | .unlock result | .returned result => Settled log i result
  | .get => True
  | .got result => ∀ key, result = some key → key = [] ∨ ∃ commit ∈ log, commit.newKey = key

structure Invariant (s : System) : Prop where
  chained : Chained [] s.log
  once : (s.log.map (·.call)).Nodup
  stored : s.pubkey = storedFile s.log
  trimmed : ∀ c ∈ s.log, Trimmed c.newKey
  bounded : ∀ c ∈ s.log, c.call < s.calls.length
  exclusive : ∀ (i : Nat) (c : Call), s.calls[i]? = some c → c.phase.critical = true →
    s.lock = some i
  knows : ∀ (i : Nat) (c : Call), s.calls[i]? = some c → c.phase.Knows s.log s.tmp i

variable {s : System}

theorem Invariant.serial (h : Invariant s) : Serial s where
  chained := h.chained
  once := h.once
  stored := h.stored
  committed := by
    intro i c key hi hphase
    have hknows := h.knows i c hi
    rw [hphase] at hknows
    exact hknows
  failed := by
    intro i c err hi hphase
    have hknows := h.knows i c hi
    rw [hphase] at hknows
    exact hknows
  got := by
    intro i c key hi hphase
    have hknows := h.knows i c hi
    rw [hphase] at hknows
    exact hknows key rfl

/-! ## Commits -/

variable {key : Bytes} {log : List Commit}

theorem Chained.append {c : Commit} (h : Chained key log)
    (hc : c.oldKey = (log.getLast?.map (·.newKey)).getD key) : Chained key (log ++ [c]) := by
  induction log generalizing key with
  | nil => exact ⟨hc, trivial⟩
  | cons d log ih =>
    refine ⟨h.1, ih h.2 ?_⟩
    rw [hc, getLast?_cons]
    cases log.getLast? <;> rfl

theorem lastKey_eq (log : List Commit) : lastKey log = (log.getLast?.map (·.newKey)).getD [] := by
  unfold lastKey
  cases log.getLast? <;> rfl

variable {effect : Effect}

theorem Invariant.readPubkey (h : Invariant s)
    (hread : s.readPubkey effect = some key) : key = lastKey s.log := by
  cases effect with
  | fail written removed => cases hread
  | ok =>
    rw [System.readPubkey, h.stored] at hread
    unfold storedFile at hread
    unfold lastKey
    cases hlast : s.log.getLast? with
    | none => rw [hlast] at hread; exact (Option.some.inj hread).symm
    | some c =>
      rw [hlast] at hread
      have hkey : trimSpace (c.newKey ++ [lf]) = key := Option.some.inj hread
      rw [trimSpace_append_blank (by decide) (h.trimmed c (mem_of_getLast? hlast))] at hkey
      exact hkey.symm

/-! ## Frames -/

variable {p : Phase}

theorem Phase.Knows.frame {tmp : Option Bytes} {j : Nat}
    (h : p.Knows log tmp j) (hp : p.critical = false) (tmp' : Option Bytes) {more : List Commit}
    (hmore : Fresh more j) : p.Knows (log ++ more) tmp' j := by
  have hfresh : Fresh log j → Fresh (log ++ more) j := by
    intro hlog c hc
    rcases mem_append.mp hc with hc | hc
    · exact hlog c hc
    · exact hmore c hc
  have hsettled : ∀ result, Settled log j result → Settled (log ++ more) j result := by
    intro result hresult
    cases result with
    | error err => exact hfresh hresult
    | ok key =>
      obtain ⟨c, hc, hcall⟩ := hresult
      exact ⟨c, mem_append_left more hc, hcall⟩
  cases p with
  | start => exact hfresh h
  | ensureDir => exact hfresh h
  | lock => exact hfresh h
  | unlock result => exact hsettled result h
  | returned result => exact hsettled result h
  | get => trivial
  | got result =>
    intro key hkey
    rcases h key hkey with hempty | ⟨c, hc, hnew⟩
    · exact .inl hempty
    · exact .inr ⟨c, mem_append_left more hc, hnew⟩
  | _ => cases hp

section Goto

variable {s : System} {i : Nat} {c : Call} {p : Phase}

variable {j : Nat} {d : Call}

theorem Invariant.outside (h : Invariant s) (hlock : s.lock = some i ∨ s.lock = none)
    (hj : s.calls[j]? = some d) (hne : j ≠ i) : d.phase.critical = false := by
  cases hd : d.phase.critical with
  | false => rfl
  | true =>
    have hown := h.exclusive j d hj hd
    rcases hlock with hlock | hlock
    · rw [hlock] at hown
      exact absurd (Option.some.inj hown).symm hne
    · rw [hlock] at hown
      cases hown

theorem goto_calls {t : System} (hj : (t.goto i c p).calls[j]? = some d) :
    j = i ∧ d.phase = p ∨ j ≠ i ∧ t.calls[j]? = some d := by
  rcases getElem?_set_cases hj with ⟨hij, rfl⟩ | hold
  · exact .inl ⟨hij, rfl⟩
  · exact .inr hold

theorem Invariant.goto (h : Invariant s) {mutex : Nat → Bool} {tmp : Option Bytes}
    {lock : Option Nat} (hframe : (tmp = s.tmp ∧ lock = s.lock) ∨ s.lock = some i ∨ s.lock = none)
    (hlock : p.critical = true → lock = some i) (hknows : p.Knows s.log tmp i) :
    Invariant ({ s with mutex := mutex, tmp := tmp, lock := lock }.goto i c p) where
  chained := h.chained
  once := h.once
  stored := h.stored
  trimmed := h.trimmed
  bounded := by
    intro commit hcommit
    show commit.call < (s.calls.set i { c with phase := p }).length
    rw [length_set]
    exact h.bounded commit hcommit
  exclusive := by
    intro j d hj hcrit
    rcases goto_calls hj with ⟨rfl, hphase⟩ | ⟨hne, hold⟩
    · exact hlock (hphase ▸ hcrit)
    · rcases hframe with ⟨-, hsame⟩ | hown
      · exact hsame.trans (h.exclusive j d hold hcrit)
      · rw [h.outside hown hold hne] at hcrit
        cases hcrit
  knows := by
    intro j d hj
    rcases goto_calls hj with ⟨rfl, hphase⟩ | ⟨hne, hold⟩
    · rw [hphase]
      exact hknows
    · rcases hframe with ⟨hsame, -⟩ | hown
      · rw [hsame]
        exact h.knows j d hold
      · have hnone : Fresh [] j := by
          intro c hc
          cases hc
        have hmore := (h.knows j d hold).frame (h.outside hown hold hne) tmp hnone
        rwa [append_nil] at hmore

theorem Invariant.commit (h : Invariant s) (hi : s.calls[i]? = some c) (hown : s.lock = some i)
    {t : Txn} (hfresh : Fresh s.log i) (hcurrent : Current s.log t) :
    Invariant ({ s with
      pubkey := some (t.newKey ++ [lf]), tmp := none, log := s.log ++ [Commit.mk t i] }.goto i c
        (.release (.ok t.newKey))) where
  chained := h.chained.append (hcurrent.1.trans (lastKey_eq s.log))
  once := by
    show ((s.log ++ [Commit.mk t i]).map (·.call)).Nodup
    rw [List.map_append, List.nodup_append]
    refine ⟨h.once, by simp, ?_⟩
    intro a ha b hb
    obtain ⟨commit, hcommit, rfl⟩ := List.mem_map.mp ha
    rw [List.map_singleton, List.mem_singleton] at hb
    exact hb ▸ hfresh commit hcommit
  stored := by simp [storedFile, System.goto]
  trimmed := by
    intro commit hcommit
    rcases List.mem_append.mp hcommit with hold | hnew
    · exact h.trimmed commit hold
    · rw [List.mem_singleton.mp hnew]
      exact hcurrent.2
  bounded := by
    intro commit hcommit
    show commit.call < (s.calls.set i { c with phase := .release (.ok t.newKey) }).length
    rw [List.length_set]
    rcases List.mem_append.mp hcommit with hold | hnew
    · exact h.bounded commit hold
    · rw [List.mem_singleton.mp hnew]
      exact (List.getElem?_eq_some_iff.mp hi).1
  exclusive := by
    intro j d hj hcrit
    rcases goto_calls hj with ⟨rfl, -⟩ | ⟨hne, hold⟩
    · exact hown
    · exact h.exclusive j d hold hcrit
  knows := by
    intro j d hj
    rcases goto_calls hj with ⟨rfl, hphase⟩ | ⟨hne, hold⟩
    · rw [hphase]
      exact ⟨Commit.mk t j, List.mem_append_right _ List.mem_cons_self, rfl, rfl⟩
    · have hother : Fresh [Commit.mk t i] j := by
        intro commit hcommit
        rw [List.mem_singleton.mp hcommit]
        exact Ne.symm hne
      exact (h.knows j d hold).frame (h.outside (.inl hown) hold hne) none hother

end Goto

/-! ## The steps -/

theorem Invariant.advance {s t : System} {i : Nat} {c : Call} (h : Invariant s)
    (hi : s.calls[i]? = some c) (hadv : s.advance i c effect = some t) : Invariant t := by
  have hknows := h.knows i c hi
  have hexcl := h.exclusive i c hi
  have hsame : (s.tmp = s.tmp ∧ s.lock = s.lock) ∨ s.lock = some i ∨ s.lock = none :=
    .inl ⟨rfl, rfl⟩
  obtain ⟨store, phase⟩ := c
  cases phase with
  | start =>
    dsimp only [System.advance] at hadv
    split at hadv
    · cases hadv
    · cases hadv
      exact h.goto hsame (by intro hcrit; cases hcrit) hknows
  | ensureDir =>
    cases effect with
    | ok => cases hadv; exact h.goto hsame (by intro hcrit; cases hcrit) hknows
    | fail => cases hadv; exact h.goto hsame (by intro hcrit; cases hcrit) hknows
  | lock =>
    cases effect with
    | fail => cases hadv; exact h.goto hsame (by intro hcrit; cases hcrit) hknows
    | ok =>
      dsimp only [System.advance] at hadv
      split at hadv
      · cases hadv
        exact h.goto hsame (by intro hcrit; cases hcrit) hknows
      · next hfree =>
          cases hadv
          have hnone : s.lock = none := by simpa using hfree
          exact h.goto (.inr (.inr hnone)) (fun _ => rfl) hknows
  | read =>
    have hown := hexcl rfl
    dsimp only [System.advance] at hadv
    split at hadv
    · cases hadv
      exact h.goto hsame (fun _ => hown) hknows
    · next oldKey hread =>
        cases hadv
        exact h.goto hsame (fun _ => hown) ⟨hknows, h.readPubkey hread⟩
  | callback oldKey => cases hadv
  | openTmp txn =>
    have hown := hexcl rfl
    cases effect with
    | ok => cases hadv; exact h.goto (.inr (.inl hown)) (fun _ => hown) hknows
    | fail => cases hadv; exact h.goto hsame (fun _ => hown) hknows.1
  | write txn =>
    have hown := hexcl rfl
    cases effect with
    | ok =>
      cases hadv
      exact h.goto (.inr (.inl hown)) (fun _ => hown) ⟨hknows.1, hknows.2, rfl⟩
    | fail => cases hadv; exact h.goto (.inr (.inl hown)) (fun _ => hown) hknows.1
  | fsync txn =>
    have hown := hexcl rfl
    cases effect with
    | ok => cases hadv; exact h.goto hsame (fun _ => hown) hknows
    | fail => cases hadv; exact h.goto (.inr (.inl hown)) (fun _ => hown) hknows.1
  | close txn =>
    have hown := hexcl rfl
    cases effect with
    | ok => cases hadv; exact h.goto hsame (fun _ => hown) hknows
    | fail => cases hadv; exact h.goto (.inr (.inl hown)) (fun _ => hown) hknows.1
  | rename txn =>
    have hown := hexcl rfl
    cases effect with
    | fail => cases hadv; exact h.goto (.inr (.inl hown)) (fun _ => hown) hknows.1
    | ok =>
      obtain ⟨hfresh, hcurrent, htmp⟩ := hknows
      dsimp only [System.advance] at hadv
      rw [htmp] at hadv
      cases hadv
      exact h.commit hi hown hfresh hcurrent
  | release result =>
    have hown := hexcl rfl
    cases hadv
    exact h.goto (.inr (.inl hown)) (by intro hcrit; cases hcrit) hknows
  | unlock result =>
    cases hadv
    exact h.goto hsame (by intro hcrit; cases hcrit) hknows
  | returned result => cases hadv
  | get =>
    cases hadv
    refine h.goto hsame (by intro hcrit; cases hcrit) ?_
    intro key hkey
    rw [h.readPubkey hkey]
    unfold lastKey
    cases hlast : s.log.getLast? with
    | none => exact .inl rfl
    | some commit => exact .inr ⟨commit, mem_of_getLast? hlast, rfl⟩
  | got result => cases hadv

def TrimmedReply : Event → Prop
  | .reply _ (some key) => Trimmed key
  | _ => True

theorem Invariant.spawn (h : Invariant s) (store : Nat)
    (hp : p = .start ∨ p = .get) : Invariant { s with calls := s.calls ++ [⟨store, p⟩] } where
  chained := h.chained
  once := h.once
  stored := h.stored
  trimmed := h.trimmed
  bounded := by
    intro commit hcommit
    have hlt := h.bounded commit hcommit
    show commit.call < (s.calls ++ [Call.mk store p]).length
    rw [length_append]
    omega
  exclusive := by
    intro i c hi hcrit
    rw [getElem?_append] at hi
    split at hi
    · exact h.exclusive i c hi hcrit
    · rw [getElem?_singleton] at hi
      split at hi
      · cases hi
        rcases hp with rfl | rfl <;> cases hcrit
      · cases hi
  knows := by
    intro i c hi
    rw [getElem?_append] at hi
    split at hi
    · exact h.knows i c hi
    · next hge =>
        rw [getElem?_singleton] at hi
        split at hi
        · cases hi
          rcases hp with rfl | rfl
          · intro commit hcommit heq
            have hlt := h.bounded commit hcommit
            omega
          · trivial
        · cases hi

theorem Invariant.step {s t : System} {event : Event} (h : Invariant s)
    (hreply : TrimmedReply event) (hstep : s.step event = some t) : Invariant t := by
  cases event with
  | setPubkey store => cases hstep; exact h.spawn store (.inl rfl)
  | getPubkey store => cases hstep; exact h.spawn store (.inr rfl)
  | step i effect =>
    rw [System.step] at hstep
    split at hstep
    · cases hstep
    · next c hi => exact h.advance hi hstep
  | reply i result =>
    rw [System.step] at hstep
    split at hstep
    · next store oldKey hi =>
        cases hstep
        have hown := h.exclusive i _ hi rfl
        obtain ⟨hfresh, hold⟩ := h.knows i _ hi
        refine h.goto (.inl ⟨rfl, rfl⟩) (fun _ => hown) ?_
        cases result with
        | none => exact hfresh
        | some newKey =>
          by_cases hempty : newKey = []
          · rw [System.afterCallback, if_pos hempty]
            exact hfresh
          · rw [System.afterCallback, if_neg hempty]
            exact ⟨hfresh, hold, hreply⟩
    · cases hstep

theorem Invariant.init : Invariant adminState.init where
  chained := trivial
  once := nodup_nil
  stored := rfl
  trimmed := by intro c hc; cases hc
  bounded := by intro c hc; cases hc
  exclusive := by intro i c hi; cases hi
  knows := by intro i c hi; cases hi

/-- **Admin-state transactions are serial**. -/
theorem serial_of_trimmed {events : List Event} (h : ∀ event ∈ events, TrimmedReply event) :
    adminState.Throughout Serial adminState.init events := by
  have halong : adminState.Along (fun _ event => TrimmedReply event) adminState.init events :=
    Machine.along_of_forall (fun event hevent _ => h event hevent) _
  have hinv : adminState.Throughout Invariant adminState.init events :=
    Machine.throughout_of_along (J := fun _ => True) (fun _ _ => trivial)
      (fun _ hs hreply hstep => hs.step hreply hstep) trivial Invariant.init halong
  exact hinv.imp fun _ hs => hs.serial

def transaction (i : Nat) (key : Bytes) : List Event :=
  .setPubkey 0 :: replicate 4 (.step i .ok) ++ .reply i (some key) ::
    replicate 7 (.step i .ok)

/-- Two transactions, one after the other. -/
theorem serial_two_transactions :
    ((adminState.exec adminState.init
        (transaction 0 (ascii "k0") ++ transaction 1 (ascii "k1"))).map
      fun s => s.log.map Commit.toTxn) = some [⟨[], ascii "k0"⟩, ⟨ascii "k0", ascii "k1"⟩] ∧
    adminState.Throughout Serial adminState.init
      (transaction 0 (ascii "k0") ++ transaction 1 (ascii "k1")) := by
  refine ⟨by decide, serial_of_trimmed ?_⟩
  intro event hevent
  have hkeys : Trimmed (ascii "k0") ∧ Trimmed (ascii "k1") := by decide
  simp only [transaction, mem_append, mem_cons, mem_replicate] at hevent
  rcases hevent with ((rfl | h) | (rfl | h)) | ((rfl | h) | (rfl | h))
  · trivial
  · rw [h.2]; trivial
  · exact hkeys.1
  · rw [h.2]; trivial
  · trivial
  · rw [h.2]; trivial
  · exact hkeys.2
  · rw [h.2]; trivial

/-- **A key with a space in front comes back without it**. -/
theorem untrimmed_key_breaks_chain :
    ∃ events s, adminState.exec adminState.init events = some s ∧ ¬ Serial s := by
  have hrun : ((adminState.exec adminState.init
      (transaction 0 (ascii " k") ++ transaction 1 (ascii "k1"))).map
        fun s => s.log.map Commit.toTxn) =
      some [⟨[], ascii " k"⟩, ⟨ascii "k", ascii "k1"⟩] := by decide
  obtain ⟨s, hs, hlog⟩ := Option.map_eq_some_iff.mp hrun
  refine ⟨_, s, hs, ?_⟩
  intro hserial
  obtain ⟨first, second, heq⟩ : ∃ first second, s.log = [first, second] :=
    length_eq_two.mp (by simpa using congrArg length hlog)
  have hchained := hserial.chained
  rw [heq] at hchained hlog
  obtain ⟨hfirst, hsecond⟩ :
      first.toTxn = ⟨[], ascii " k"⟩ ∧ second.toTxn = ⟨ascii "k", ascii "k1"⟩ := by
    simpa using hlog
  have hkeys := hchained.2.1
  rw [hfirst, hsecond] at hkeys
  revert hkeys
  decide

end AwgMesh.AdminState
