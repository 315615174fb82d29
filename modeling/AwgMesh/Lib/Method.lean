import Mathlib.Tactic.Common

/-! # Methods of a locked object -/

namespace AwgMesh.Lib

abbrev Method (ε σ : Type) := ExceptT ε (StateM σ)

namespace Method

variable {ε σ α β : Type}

def exec (m : Method ε σ α) (s : σ) : Except ε α × σ := StateT.run (ExceptT.run m) s

def refuseIf (bad : Bool) (err : ε) : Method ε σ Unit := if bad then throw err else pure ()

def attempt : Except ε α → Method ε σ α
  | .ok a => pure a
  | .error err => throw err

def find (look : σ → Option α) (err : ε) : Method ε σ α := do
  match look (← get) with
  | some a => pure a
  | none => throw err

/-! ## Running a body -/

section Exec

variable (s : σ) (err : ε)

@[simp] theorem exec_pure (a : α) : exec (pure a : Method ε σ α) s = (.ok a, s) := rfl

@[simp] theorem exec_modify (f : σ → σ) : exec (modify f : Method ε σ Unit) s = (.ok (), f s) := rfl

theorem exec_bind_ok {m : Method ε σ α} {a : α} {s t : σ} (h : exec m s = (.ok a, t))
    (k : α → Method ε σ β) : exec (m >>= k) s = exec (k a) t := by
  unfold exec at h ⊢
  rw [ExceptT.run_bind, StateT.run_bind, h]
  rfl

theorem exec_bind_error {m : Method ε σ α} {err : ε} {s t : σ} (h : exec m s = (.error err, t))
    (k : α → Method ε σ β) : exec (m >>= k) s = (.error err, t) := by
  unfold exec at h ⊢
  rw [ExceptT.run_bind, StateT.run_bind, h]
  rfl

@[simp] theorem exec_get_bind (k : σ → Method ε σ β) : exec (get >>= k) s = exec (k s) s := rfl

@[simp] theorem exec_modify_bind (f : σ → σ) (k : Unit → Method ε σ β) :
    exec (modify f >>= k) s = exec (k ()) (f s) := rfl

@[simp] theorem exec_refuseIf_bind (bad : Bool) (k : Unit → Method ε σ β) :
    exec (refuseIf bad err >>= k) s = if bad then (.error err, s) else exec (k ()) s := by
  cases bad <;> rfl

@[simp] theorem exec_attempt_bind (x : Except ε α) (k : α → Method ε σ β) :
    exec (attempt x >>= k) s =
      match x with
      | .ok a => exec (k a) s
      | .error err => (.error err, s) := by
  cases x <;> rfl

@[simp] theorem exec_find_bind (look : σ → Option α) (k : α → Method ε σ β) :
    exec (find look err >>= k) s =
      match look s with
      | some a => exec (k a) s
      | none => (.error err, s) := by
  unfold find
  rw [bind_assoc, exec_get_bind]
  cases look s <;> rfl

end Exec

/-! ## One function for a body -/

def outcome (s : σ) : Except ε σ → Except ε Unit × σ
  | .ok t => (.ok (), t)
  | .error err => (.error err, s)

def Implements (m : Method ε σ Unit) (f : σ → Except ε σ) : Prop :=
  ∀ s, exec m s = outcome s (f s)

theorem Implements.error {m : Method ε σ Unit} {f : σ → Except ε σ} (h : Implements m f) {s t : σ}
    {err : ε} (herr : exec m s = (.error err, t)) : t = s := by
  rw [h s] at herr
  cases hf : f s with
  | ok u => simp [hf, outcome] at herr
  | error err' =>
    simp only [hf, outcome, Prod.mk.injEq] at herr
    exact herr.2.symm

end Method

end AwgMesh.Lib
