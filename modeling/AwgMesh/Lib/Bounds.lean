import Mathlib.Tactic.Common

/-! # Programs that index -/

namespace AwgMesh.Lib

open ExceptT

/-- A computation that may panic (`none`). -/
abbrev Checked (ε α : Type) := ExceptT ε Option α

namespace Checked

variable {ε α β : Type}

def index (l : List α) (i : Nat) : Checked ε α := mk (l[i]?.map .ok)

def slice (l : List α) (lo hi : Nat) : Checked ε (List α) :=
  mk (if lo ≤ hi ∧ hi ≤ l.length then some (.ok ((l.take hi).drop lo)) else none)

def refuseIf (bad : Prop) [Decidable bad] (err : ε) : Checked ε Unit :=
  if bad then throw err else pure ()

def lift (x : Except ε α) : Checked ε α := mk (some x)

/-! ## Never out of range -/

def Meets (m : Checked ε α) (Q : α → Prop) : Prop :=
  ∃ r, run m = some r ∧ ∀ a, r = .ok a → Q a

variable {m : Checked ε α} {Q R : α → Prop} {l : List α}

theorem Meets.pure {a : α} (h : Q a) : Meets (pure a : Checked ε α) Q :=
  ⟨.ok a, rfl, fun _ heq => by cases heq; exact h⟩

theorem Meets.throw (err : ε) : Meets (throw err : Checked ε α) Q := ⟨.error err, rfl, nofun⟩

theorem Meets.bind {k : α → Checked ε β} {S : β → Prop} (h : Meets m Q)
    (hk : ∀ a, Q a → Meets (k a) S) : Meets (m >>= k) S := by
  obtain ⟨r, hr, hq⟩ := h
  cases r with
  | error err =>
    refine ⟨.error err, ?_, nofun⟩
    rw [run_bind, hr]
    rfl
  | ok a =>
    obtain ⟨r, hr', hs⟩ := hk a (hq a rfl)
    refine ⟨r, ?_, hs⟩
    rw [run_bind, hr]
    exact hr'

theorem meets_index {i : Nat} (h : i < l.length) : Meets (index l i : Checked ε α) fun _ => True :=
  ⟨.ok l[i], by simp [index, h], fun _ _ => trivial⟩

theorem meets_slice {lo hi : Nat} (hlo : lo ≤ hi) (hhi : hi ≤ l.length) :
    Meets (slice l lo hi : Checked ε (List α)) fun s => s.length = hi - lo := by
  refine ⟨.ok ((l.take hi).drop lo), by simp [slice, hlo, hhi], ?_⟩
  intro s hs
  cases hs
  rw [List.length_drop, List.length_take, Nat.min_eq_left hhi]

theorem meets_refuseIf {bad : Prop} [Decidable bad] {err : ε} :
    Meets (refuseIf bad err) fun _ => ¬ bad := by
  unfold refuseIf
  split
  · exact .throw err
  · next h => exact .pure h

theorem meets_lift (x : Except ε α) : Meets (lift x) fun _ => True :=
  ⟨x, rfl, fun _ _ => trivial⟩

/-! ## Reading pieces -/

theorem index_append {i : Nat} {pre post : List α} {x : α} (hl : l = pre ++ x :: post)
    (hi : i = pre.length) : (index l i : Checked ε α) = pure x := by
  subst hl hi
  simp [index]
  rfl

theorem slice_append {lo hi : Nat} {pre mid post : List α} (hl : l = pre ++ mid ++ post)
    (hlo : lo = pre.length) (hhi : hi = lo + mid.length) :
    (slice l lo hi : Checked ε (List α)) = pure mid := by
  subst hl hlo hhi
  have htake : (pre ++ mid ++ post).take (pre.length + mid.length) = pre ++ mid := by
    rw [← List.length_append, List.take_left]
  have hbounds : pre.length ≤ pre.length + mid.length ∧
      pre.length + mid.length ≤ (pre ++ mid ++ post).length := by simp
  unfold slice
  rw [if_pos hbounds, htake, List.drop_left]
  rfl

theorem refuseIf_of_not {bad : Prop} [Decidable bad] {err : ε} (h : ¬ bad) :
    refuseIf bad err = pure () := if_neg h

/-! ## The value alone -/

def value (m : Checked ε α) : Option α := (run m).bind Except.toOption

@[simp] theorem value_pure (a : α) : value (pure a : Checked ε α) = some a := rfl

@[simp] theorem value_throw (err : ε) : value (throw err : Checked ε α) = none := rfl

@[simp] theorem value_lift (x : Except ε α) : value (lift x) = x.toOption := rfl

@[simp] theorem value_bind (m : Checked ε α) (k : α → Checked ε β) :
    value (m >>= k) = (value m).bind fun a => value (k a) := by
  unfold value
  rw [run_bind]
  rcases run m with - | - | - <;> rfl

@[simp] theorem value_refuseIf (bad : Prop) [Decidable bad] (err : ε) :
    value (refuseIf bad err) = if bad then none else some () := by
  unfold value refuseIf
  split <;> rfl

theorem run_of_value {m : Checked ε α} {a : α} (h : value m = some a) :
    run m = some (.ok a) := by
  unfold value at h
  generalize run m = r at h
  rcases r with _ | _ | _
  iterate 2 cases h
  exact congrArg (some ∘ Except.ok) (Option.some.inj h)

end Checked

end AwgMesh.Lib
