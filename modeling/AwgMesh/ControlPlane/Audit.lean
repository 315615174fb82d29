import AwgMesh.Clock
import AwgMesh.Lib.Sorting
import AwgMesh.Lib.Ring

/-!
# The audit log

`pkg/control_plane/audit.go`: a ring buffer of events.
-/

namespace AwgMesh.ControlPlane

structure AuditEvent (D : Type) where
  timestamp : Time := 0
  eventType : String := ""
  nodeName : String := ""
  detail : Option D := none
  actor : String := ""

structure AuditLog (D : Type) where
  buf : List (AuditEvent D) := []
  cursor : Nat := 0
  full : Bool := false

namespace AuditLog

variable {D : Type}

def new (capacity : Int) : AuditLog D :=
  let capacity := if capacity ≤ 0 then 8192 else capacity.toNat
  { buf := List.replicate capacity {} }

def append (a : AuditLog D) (now : Time) (e : AuditEvent D) : AuditLog D :=
  let e := if e.timestamp.isZero then { e with timestamp := now } else e
  let cursor := (a.cursor + 1) % a.buf.length
  { buf := a.buf.set a.cursor e
    cursor := cursor
    full := if cursor = 0 then true else a.full }

def len (a : AuditLog D) : Nat := if a.full then a.buf.length else a.cursor

/-- `matches`. -/
def matchesFilter (e : AuditEvent D) (since til : Time) (eventType nodeName : String) : Bool :=
  if !since.isZero && e.timestamp < since then false
  else if !til.isZero && e.timestamp > til then false
  else if eventType ≠ "" && e.eventType ≠ eventType then false
  else if nodeName ≠ "" && e.nodeName ≠ nodeName then false
  else true

def scan (a : AuditLog D) (since til : Time) (eventType nodeName : String) :
    List (AuditEvent D) :=
  if a.full then
    (List.range a.buf.length).filterMap fun i =>
      let e := a.buf.getD ((a.cursor + i) % a.buf.length) {}
      if e.timestamp.isZero then none
      else if matchesFilter e since til eventType nodeName then some e else none
  else
    (List.range a.cursor).filterMap fun i =>
      let e := a.buf.getD i {}
      if matchesFilter e since til eventType nodeName then some e else none

def query (sorter : Lib.Sorter fun e : AuditEvent D => e.timestamp) (a : AuditLog D)
    (since til : Time) (eventType nodeName : String) (limit : Int) : List (AuditEvent D) :=
  let out := sorter.sort (a.scan since til eventType nodeName)
  if limit > 0 ∧ (out.length : Int) > limit then out.take limit.toNat else out

end AuditLog

/-! ## What the audit log answers -/

open Lib List

variable {D : Type}

/-- What a query asks for; zero is no bound, and the empty name is any. -/
def AuditEvent.Admitted (since til : Time) (eventType nodeName : String) (e : AuditEvent D) :
    Prop :=
  (since ≠ 0 → since ≤ e.timestamp) ∧ (til ≠ 0 → e.timestamp ≤ til) ∧
    (eventType ≠ "" → e.eventType = eventType) ∧ (nodeName ≠ "" → e.nodeName = nodeName)

instance (since til : Time) (eventType nodeName : String) (e : AuditEvent D) :
    Decidable (e.Admitted since til eventType nodeName) :=
  inferInstanceAs (Decidable (_ ∧ _ ∧ _ ∧ _))

namespace AuditLog

def capacity (capacity : Int) : Nat := if capacity ≤ 0 then 8192 else capacity.toNat

def appendAll (a : AuditLog D) (calls : List (Time × AuditEvent D)) : AuditLog D :=
  calls.foldl (fun a call => a.append call.1 call.2) a

def Recorded (a : AuditLog D) (events : List (AuditEvent D)) : Prop :=
  RingHolds a.buf a.cursor a.full events

section

variable {a : AuditLog D} {events : List (AuditEvent D)} {since til : Time}
  {eventType nodeName : String}

theorem matchesFilter_iff {e : AuditEvent D} :
    matchesFilter e since til eventType nodeName = true ↔
      e.Admitted since til eventType nodeName := by
  unfold matchesFilter AuditEvent.Admitted Time.isZero
  grind

theorem capacity_pos (cap : Int) : 0 < capacity cap := by
  unfold capacity
  split <;> omega

theorem length_buf_new (cap : Int) : (new cap : AuditLog D).buf.length = capacity cap :=
  List.length_replicate

theorem recorded_new (cap : Int) : (new cap : AuditLog D).Recorded [] := by
  apply RingHolds.nil
  rw [length_buf_new]
  exact capacity_pos cap

/-! ## Appending -/

theorem Recorded.append (h : a.Recorded events) (now : Time) {e : AuditEvent D}
    (he : e.timestamp ≠ 0) : (a.append now e).Recorded (events ++ [e]) := by
  have hstamp : (if e.timestamp.isZero then { e with timestamp := now } else e) = e := by
    rw [if_neg (by simpa [Time.isZero] using he)]
  unfold Recorded AuditLog.append
  rw [hstamp]
  exact h.write e

theorem length_buf_append (now : Time) (e : AuditEvent D) :
    (a.append now e).buf.length = a.buf.length := length_set

theorem Recorded.appendAll {calls : List (Time × AuditEvent D)} (h : a.Recorded events)
    (hcalls : ∀ call ∈ calls, call.2.timestamp ≠ 0) :
    (a.appendAll calls).Recorded (events ++ calls.map (·.2)) ∧
      (a.appendAll calls).buf.length = a.buf.length := by
  induction calls generalizing a events with
  | nil => exact ⟨by rw [map_nil, append_nil]; exact h, rfl⟩
  | cons call rest ih =>
    rw [forall_mem_cons] at hcalls
    obtain ⟨hrecorded, hlength⟩ := ih (h.append call.1 hcalls.1) hcalls.2
    refine ⟨?_, hlength.trans (length_buf_append call.1 call.2)⟩
    rw [map_cons, append_cons]
    exact hrecorded

/-! ## Reading -/

theorem Recorded.len_eq (h : a.Recorded events) : a.len = min events.length a.buf.length := by
  unfold len
  cases hfull : a.full with
  | true =>
    have := h.full_iff.mp hfull
    rw [if_pos rfl]
    omega
  | false =>
    have hlt := h.length_lt hfull
    rw [if_neg Bool.false_ne_true, h.cursor_eq, Nat.mod_eq_of_lt hlt]
    omega

theorem Recorded.scan_eq (h : a.Recorded events) (hstamped : ∀ e ∈ events, e.timestamp ≠ 0) :
    a.scan since til eventType nodeName = (events.drop (events.length - a.buf.length)).filter
        (fun e => e.Admitted since til eventType nodeName) := by
  -- a slot that holds an event of the run is taken or left by the filter alone
  have hkeep : ∀ e ∈ events,
      (if matchesFilter e since til eventType nodeName then some e else none) =
        Option.guard (fun e => decide (e.Admitted since til eventType nodeName)) e := by
    intro e _
    simp only [matchesFilter_iff, Option.guard, decide_eq_true_eq]
  unfold scan
  rw [← filterMap_eq_filter]
  cases hfull : a.full with
  | true =>
    rw [if_pos rfl, ← h.rotate_eq hfull {}, filterMap_map]
    apply filterMap_congr
    intro i hi
    have hmem : a.buf.getD ((a.cursor + i) % a.buf.length) {} ∈ events := by
      apply mem_of_mem_drop (i := events.length - a.buf.length)
      rw [← h.rotate_eq hfull {}]
      exact mem_map_of_mem hi
    have hstamp : Time.isZero (a.buf.getD ((a.cursor + i) % a.buf.length) {}).timestamp = false :=
      decide_eq_false (hstamped _ hmem)
    dsimp only [Function.comp_apply]
    rw [hstamp, if_neg Bool.false_ne_true, hkeep _ hmem]
  | false =>
    have hlt := h.length_lt hfull
    have hdrop : events.drop (events.length - a.buf.length) = events := by
      rw [Nat.sub_eq_zero_of_le (by omega), drop_zero]
    rw [if_neg Bool.false_ne_true, hdrop, ← h.range_eq hfull {}, filterMap_map]
    apply filterMap_congr
    intro i hi
    have hmem : a.buf.getD i {} ∈ events := by
      rw [← h.range_eq hfull {}]
      exact mem_map_of_mem hi
    exact hkeep _ hmem

end

/-! ## The log over a run -/

def lastEvents (cap : Int) (calls : List (Time × AuditEvent D)) : List (AuditEvent D) :=
  (calls.map (·.2)).drop (calls.length - capacity cap)

theorem query_of_nonpos (sorter : Sorter fun e : AuditEvent D => e.timestamp) (a : AuditLog D)
    (since til : Time) (eventType nodeName : String) {limit : Int} (h : limit ≤ 0) :
    a.query sorter since til eventType nodeName limit =
      sorter.sort (a.scan since til eventType nodeName) :=
  if_neg fun hlimit => absurd hlimit.1 (by omega)

/-- **The audit ring**, after any sequence of events. -/
theorem audit_ring_contents (sorter : Sorter fun e : AuditEvent D => e.timestamp) (cap : Int)
    (calls : List (Time × AuditEvent D)) (hcalls : ∀ call ∈ calls, call.2.timestamp ≠ 0) :
    ((new cap).appendAll calls).len = min calls.length (capacity cap) ∧
      ∀ since til eventType nodeName, (∀ limit ≤ 0,
          (((new cap).appendAll calls).query sorter since til eventType nodeName limit).Perm
              ((lastEvents cap calls).filter fun e => e.Admitted since til eventType nodeName) ∧
            (((new cap).appendAll calls).query sorter since til eventType nodeName limit).Pairwise
              fun e e' => e.timestamp ≤ e'.timestamp) ∧ ∀ limit > 0,
            ((new cap).appendAll calls).query sorter since til eventType nodeName limit =
              (((new cap).appendAll calls).query sorter since til eventType nodeName 0).take
                limit.toNat := by
  obtain ⟨hrecorded, hlength⟩ := (recorded_new cap).appendAll hcalls
  rw [nil_append] at hrecorded
  rw [length_buf_new] at hlength
  have hstamped : ∀ e ∈ calls.map (·.2), e.timestamp ≠ 0 := forall_mem_map.mpr hcalls
  refine ⟨?_, fun since til eventType nodeName => ⟨?_, ?_⟩⟩
  · rw [hrecorded.len_eq, hlength, length_map]
  · intro limit hlimit
    have hscan : ((new cap).appendAll calls).scan since til eventType nodeName =
        (lastEvents cap calls).filter fun e => e.Admitted since til eventType nodeName := by
      rw [hrecorded.scan_eq hstamped, hlength, length_map]
      rfl
    rw [query_of_nonpos sorter _ since til eventType nodeName hlimit, hscan]
    exact ⟨sorter.perm _, sorter.ordered _⟩
  · intro limit hlimit
    rw [query_of_nonpos sorter _ since til eventType nodeName (Int.le_refl 0)]
    unfold query
    dsimp only
    split
    · rfl
    next hshort =>
      rw [take_of_length_le]
      omega

def sampleCalls : List (Time × AuditEvent Unit) :=
  [(9, { timestamp := 3, nodeName := "a" }), (9, { timestamp := 2, nodeName := "b" }),
    (9, { timestamp := 1, nodeName := "a" })]

/-- In a log for two of them the first to arrive is gone. -/
theorem audit_ring_contents_wrapped :
    ((new 2).appendAll sampleCalls).len = 2 ∧
      (((new 2).appendAll sampleCalls).query (Sorter.stable _) 0 0 "" "a" 0).Perm
        [{ timestamp := 1, nodeName := "a" }] := by
  obtain ⟨hlen, hquery⟩ := audit_ring_contents (Sorter.stable _) 2 sampleCalls (by decide)
  exact ⟨hlen, ((hquery 0 0 "" "a").1 0 (by decide)).1⟩

end AuditLog

end AwgMesh.ControlPlane
