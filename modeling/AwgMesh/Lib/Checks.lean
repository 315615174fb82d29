import Mathlib.Data.List.Forall2

/-! # Early returns -/

namespace AwgMesh.Lib.Checks

open List

variable {ε ε' α β : Type}

def refuseIf (bad : Prop) [Decidable bad] (err : ε) : Except ε Unit :=
  if bad then .error err else .ok ()

def require (o : Option α) (err : ε) : Except ε α :=
  match o with
  | some a => .ok a
  | none => .error err

def refuse (o : Option ε) : Except ε Unit :=
  match o with
  | some err => .error err
  | none => .ok ()

variable {x : Except ε α} {f : α → Except ε β} {b : β}

@[simp] theorem bind_eq_ok : (x >>= f) = .ok b ↔ ∃ a, x = .ok a ∧ f a = .ok b := by
  cases x with
  | error err => exact ⟨nofun, fun ⟨a, h, _⟩ => nomatch h⟩
  | ok a =>
    constructor
    · exact fun h => ⟨a, rfl, h⟩
    · rintro ⟨a', h, hb⟩
      cases h
      exact hb

@[simp] theorem pure_eq_ok {a b : α} : (pure a : Except ε α) = .ok b ↔ a = b := by
  constructor
  · intro h
    cases h
    rfl
  · rintro rfl
    rfl

@[simp] theorem map_eq_ok {f : α → β} : x.map f = .ok b ↔ ∃ a, x = .ok a ∧ f a = b := by
  cases x <;> simp [Except.map]

variable {a : α}

@[simp] theorem mapError_eq_ok {f : ε → ε'} : x.mapError f = .ok a ↔ x = .ok a := by
  cases x <;> simp [Except.mapError]

variable {err : ε} {u : Unit}

@[simp] theorem refuseIf_eq_ok {bad : Prop} [Decidable bad] : refuseIf bad err = .ok u ↔ ¬ bad := by
  unfold refuseIf
  split <;> simp_all

@[simp] theorem require_eq_ok {o : Option α} : require o err = .ok a ↔ o = some a := by
  cases o <;> simp [require]

@[simp] theorem refuse_eq_ok {o : Option ε} : refuse o = .ok u ↔ o = none := by
  cases o <;> simp [refuse]

variable {l : List α}

theorem forM_eq_ok {f : α → Except ε Unit} : l.forM f = .ok u ↔ ∀ a ∈ l, f a = .ok () := by
  induction l with
  | nil => exact ⟨fun _ => nofun, fun _ => rfl⟩
  | cons a l ih =>
    rw [List.forM, bind_eq_ok, List.forall_mem_cons, ← ih]
    exact ⟨fun ⟨_, ha, hl⟩ => ⟨ha, hl⟩, fun ⟨ha, hl⟩ => ⟨(), ha, hl⟩⟩

variable {bs : List β}

theorem mapM_eq_ok_iff_forall₂ :
    l.mapM f = .ok bs ↔ Forall₂ (fun a b => f a = .ok b) l bs := by
  induction l generalizing bs with
  | nil => rw [mapM_nil, pure_eq_ok, forall₂_nil_left_iff, eq_comm]
  | cons a l ih =>
    simp only [mapM_cons, bind_eq_ok, pure_eq_ok, ih, forall₂_cons_left_iff]
    simp [eq_comm]

theorem mapM_eq_ok {g : α → β} (hg : ∀ a b, f a = .ok b → b = g a) :
    l.mapM f = .ok bs ↔ (∀ a ∈ l, ∃ b, f a = .ok b) ∧ bs = l.map g := by
  induction l generalizing bs with
  | nil =>
    rw [mapM_nil, pure_eq_ok, map_nil, eq_comm]
    exact (and_iff_right nofun).symm
  | cons a l ih =>
    simp only [mapM_cons, bind_eq_ok, pure_eq_ok, ih, mem_cons, forall_eq_or_imp,
      map_cons]
    constructor
    · rintro ⟨b, hb, bs', ⟨hall, rfl⟩, rfl⟩
      exact ⟨⟨⟨b, hb⟩, hall⟩, by rw [hg a b hb]⟩
    · rintro ⟨⟨⟨b, hb⟩, hall⟩, rfl⟩
      exact ⟨b, hb, l.map g, ⟨hall, rfl⟩, by rw [hg a b hb]⟩

end AwgMesh.Lib.Checks
