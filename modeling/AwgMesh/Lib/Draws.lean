import Mathlib.Algebra.Group.Int.Defs
import Mathlib.Algebra.Group.Nat.Defs
import Mathlib.Data.List.Forall2
import Mathlib.Data.List.GetD
import Mathlib.Data.List.Permutation

/-! # Programs that draw random numbers -/

namespace AwgMesh.Lib

open List Int64

inductive Draws (ε α : Type) where
  | done (result : Except ε α)
  | draw (bound : Int) (next : Int → Draws ε α)
  | crash

namespace Draws

variable {ε α β : Type}

def bind (m : Draws ε α) (k : α → Draws ε β) : Draws ε β :=
  match m with
  | done (.ok a) => k a
  | done (.error err) => done (.error err)
  | draw bound next => draw bound fun r => (next r).bind k
  | crash => crash

instance : Monad (Draws ε) where
  pure a := done (.ok a)
  bind := bind

def fail (err : ε) : Draws ε α := done (.error err)

def mapError {ε' : Type} (f : ε → ε') : Draws ε α → Draws ε' α
  | done result => done (result.mapError f)
  | draw bound next => draw bound fun r => (next r).mapError f
  | crash => crash

def upTo (bound : Int) : Draws ε Int := draw bound pure

def between (lo hi : Int64) : Draws ε Int64 := do
  let r ← upTo (hi - lo + 1).toInt
  return lo + ofInt r

def shuffle (l : List α) : Draws ε (List α) :=
  draw l.permutations.length fun r => pure (l.permutations.getD r.toNat l)

def each (f : α → Draws ε β) : List α → Draws ε (List β)
  | [] => pure []
  | a :: as => do
    let b ← f a
    let bs ← each f as
    return b :: bs

def retry (attempt : Draws ε (Option α)) : (n : Nat) → Draws ε (Option α)
  | 0 => pure none
  | n + 1 => do
    match ← attempt with
    | some a => return some a
    | none => retry attempt n

def Returns : Draws ε α → α → Prop
  | done result, a => result = .ok a
  | draw bound next, a => ∃ r, 0 ≤ r ∧ r < bound ∧ (next r).Returns a
  | crash, _ => False

/-- No draws crash, and their errors are in `Q`. -/
def Only (Q : ε → Prop) : Draws ε α → Prop
  | done (.ok _) => True
  | done (.error err) => Q err
  | draw bound next => 0 < bound ∧ ∀ r, 0 ≤ r → r < bound → (next r).Only Q
  | crash => False

abbrev Safe (m : Draws ε α) : Prop := m.Only fun _ => True

abbrev Sure (m : Draws ε α) : Prop := m.Only fun _ => False

variable {m : Draws ε α} {k : α → Draws ε β} {a b : α} {bound : Int} {Q : ε → Prop}

@[simp] theorem returns_pure : Returns (pure a : Draws ε α) b ↔ a = b :=
  ⟨Except.ok.inj, congrArg Except.ok⟩

variable {err : ε}

@[simp] theorem not_returns_fail : ¬Returns (fail err : Draws ε α) a := nofun

@[simp] theorem returns_upTo {r : Int} :
    Returns (upTo bound : Draws ε Int) r ↔ 0 ≤ r ∧ r < bound := by
  simp [upTo, Returns]

@[simp] theorem returns_bind {c : β} :
    Returns (m >>= k) c ↔ ∃ a, Returns m a ∧ Returns (k a) c := by
  change Returns (m.bind k) c ↔ _
  induction m with
  | done result => cases result <;> simp [bind, Returns]
  | draw bound next ih =>
    simp only [bind, Returns, ih]
    constructor
    · rintro ⟨r, h0, hlt, a, ha, hc⟩
      exact ⟨a, ⟨r, h0, hlt, ha⟩, hc⟩
    · rintro ⟨a, ⟨r, h0, hlt, ha⟩, hc⟩
      exact ⟨r, h0, hlt, a, ha, hc⟩
  | crash => simp [bind, Returns]

@[simp] theorem only_pure : Only Q (pure a : Draws ε α) := trivial

@[simp] theorem only_fail : Only Q (fail err : Draws ε α) ↔ Q err := Iff.rfl

@[simp] theorem only_upTo : Only Q (upTo bound : Draws ε Int) ↔ 0 < bound := by
  simp [upTo, Only]

@[simp] theorem only_bind : Only Q (m >>= k) ↔ Only Q m ∧ ∀ a, Returns m a → Only Q (k a) := by
  change Only Q (m.bind k) ↔ _
  induction m with
  | done result => cases result <;> simp [bind, Returns, Only]
  | draw bound next ih =>
    simp only [bind, Only, Returns, ih]
    constructor
    · rintro ⟨hpos, hall⟩
      refine ⟨⟨hpos, fun r h0 hlt => (hall r h0 hlt).1⟩, ?_⟩
      rintro a ⟨r, h0, hlt, ha⟩
      exact (hall r h0 hlt).2 a ha
    · rintro ⟨⟨hpos, hfirst⟩, hall⟩
      exact ⟨hpos, fun r h0 hlt => ⟨hfirst r h0 hlt, fun a ha => hall a ⟨r, h0, hlt, ha⟩⟩⟩
  | crash => simp [bind, Only]

variable {ε' : Type}

@[simp] theorem returns_mapError {f : ε → ε'} : Returns (m.mapError f) a ↔ Returns m a := by
  induction m with
  | done result => cases result <;> simp [mapError, Returns, Except.mapError]
  | draw bound next ih => simp only [mapError, Returns, ih]
  | crash => rfl

@[simp] theorem only_mapError {f : ε → ε'} {Q : ε' → Prop} :
    Only Q (m.mapError f) ↔ Only (fun err => Q (f err)) m := by
  induction m with
  | done result => cases result <;> rfl
  | draw bound next ih => simp only [mapError, Only, ih]
  | crash => rfl

/-! ## Attempts -/

section

variable {attempt : Draws ε (Option α)} {n : Nat}

theorem returns_of_returns_retry (h : Returns (retry attempt n) (some a)) :
    Returns attempt (some a) := by
  induction n with
  | zero => simp [retry] at h
  | succ n ih =>
    rw [retry, returns_bind] at h
    obtain ⟨b | b, hb, h⟩ := h
    · exact ih h
    · rwa [returns_pure.mp h] at hb

theorem returns_retry : Returns (retry attempt (n + 1)) (some a) ↔ Returns attempt (some a) := by
  refine ⟨returns_of_returns_retry, fun h => ?_⟩
  rw [retry, returns_bind]
  exact ⟨some a, h, returns_pure.mpr rfl⟩

theorem Only.retry (h : Only Q attempt) : Only Q (retry attempt n) := by
  induction n with
  | zero => exact only_pure
  | succ n ih =>
    rw [Draws.retry, only_bind]
    refine ⟨h, ?_⟩
    rintro (_ | b) _
    · exact ih
    · exact only_pure

theorem only_retry : Only Q (retry attempt (n + 1)) ↔ Only Q attempt := by
  refine ⟨fun h => ?_, Only.retry⟩
  rw [retry, only_bind] at h
  exact h.1

end

/-! ## Intervals of 64-bit integers -/

def Narrow (lo hi : Int64) : Prop := hi.toInt - lo.toInt < 2 ^ 63 - 1

instance (lo hi : Int64) : Decidable (Narrow lo hi) := inferInstanceAs (Decidable (_ < _))

section

variable {lo hi x : Int64}

theorem toInt_width : (hi - lo + 1).toInt = (hi.toInt - lo.toInt + 1).bmod (2 ^ 64) := by
  rw [toInt_add, toInt_sub, Int.bmod_add_bmod]
  rfl

theorem toInt_width_of_narrow (hle : lo ≤ hi) (h : Narrow lo hi) :
    (hi - lo + 1).toInt = hi.toInt - lo.toInt + 1 := by
  unfold Narrow at h
  rw [le_iff_toInt_le] at hle
  rw [toInt_width, Int.bmod]
  omega

theorem width_pos_iff (hle : lo ≤ hi) : 0 < (hi - lo + 1).toInt ↔ Narrow lo hi := by
  have hmax := hi.toInt_lt
  have hmin := lo.le_toInt
  unfold Narrow
  rw [le_iff_toInt_le] at hle
  rw [toInt_width, Int.bmod]
  omega

theorem toInt_add_ofInt {r : Int} (h0 : 0 ≤ r) (hr : r ≤ hi.toInt - lo.toInt) :
    (lo + ofInt r).toInt = lo.toInt + r := by
  have hmax := hi.toInt_lt
  have hmin := lo.le_toInt
  have hsize : size = 2 ^ 64 := rfl
  rw [toInt_add, toInt_ofInt, hsize, Int.add_bmod_bmod, Int.bmod]
  omega

theorem returns_between (hle : lo ≤ hi) :
    Returns (between lo hi : Draws ε Int64) x ↔ Narrow lo hi ∧ lo ≤ x ∧ x ≤ hi := by
  simp only [between, returns_bind, returns_upTo, returns_pure]
  constructor
  · rintro ⟨r, ⟨h0, hlt⟩, rfl⟩
    have hnarrow := (width_pos_iff hle).mp (by omega)
    rw [toInt_width_of_narrow hle hnarrow] at hlt
    rw [le_iff_toInt_le, le_iff_toInt_le, @toInt_add_ofInt lo hi r h0 (by omega)]
    exact ⟨hnarrow, by omega, by omega⟩
  · rintro ⟨hnarrow, hlo, hhi⟩
    rw [toInt_width_of_narrow hle hnarrow]
    rw [le_iff_toInt_le] at hlo hhi
    refine ⟨x.toInt - lo.toInt, by omega, ?_⟩
    rw [← toInt_inj, @toInt_add_ofInt lo hi _ (by omega) (by omega)]
    omega

theorem only_between (hle : lo ≤ hi) : Only Q (between lo hi : Draws ε Int64) ↔ Narrow lo hi := by
  simp only [between, only_bind, only_upTo, width_pos_iff hle, only_pure, implies_true, and_true]

end

/-! ## Lists -/

theorem Only.exists_returns (h : m.Sure) : ∃ a, Returns m a := by
  induction m with
  | done result =>
    cases result with
    | ok a => exact ⟨a, rfl⟩
    | error err => exact h.elim
  | draw bound next ih =>
    obtain ⟨a, ha⟩ := ih 0 (h.2 0 le_rfl h.1)
    exact ⟨a, 0, le_rfl, h.1, ha⟩
  | crash => exact h.elim

@[simp] theorem returns_shuffle {l l' : List α} :
    Returns (shuffle l : Draws ε (List α)) l' ↔ l'.Perm l := by
  rw [← mem_permutations]
  simp only [shuffle, Returns, returns_pure]
  constructor
  · rintro ⟨r, h0, hlt, rfl⟩
    have hlt : r.toNat < l.permutations.length := by omega
    rw [getD_eq_getElem _ _ hlt]
    exact getElem_mem hlt
  · intro hmem
    obtain ⟨i, hi, rfl⟩ := mem_iff_getElem.mp hmem
    exact ⟨i, by omega, by omega, by rw [Int.toNat_natCast, getD_eq_getElem _ _ hi]⟩

@[simp] theorem only_shuffle (l : List α) : Only Q (shuffle l : Draws ε (List α)) := by
  have hpos := length_pos_of_mem (mem_permutations.mpr (Perm.refl l))
  exact ⟨by omega, fun _ _ _ => trivial⟩

variable {f : α → Draws ε β} {as : List α} {bs : List β}

theorem returns_each_iff {R : α → β → Prop} (h : ∀ a ∈ as, ∀ b, Returns (f a) b ↔ R a b) :
    Returns (each f as) bs ↔ Forall₂ R as bs := by
  induction as generalizing bs with
  | nil => simp [each, eq_comm]
  | cons a as ih =>
    obtain ⟨ha, has⟩ := forall_mem_cons.mp h
    simp [each, ha, ih has, forall₂_cons_left_iff, eq_comm]

theorem returns_each : Returns (each f as) bs ↔ Forall₂ (fun a b => Returns (f a) b) as bs :=
  returns_each_iff fun _ _ _ => Iff.rfl

theorem only_each (h : ∀ a ∈ as, Only Q (f a)) : Only Q (each f as) := by
  induction as with
  | nil => exact only_pure
  | cons a as ih =>
    obtain ⟨ha, has⟩ := forall_mem_cons.mp h
    simp [each, ha, ih has]

theorem sure_each : Sure (each f as) ↔ ∀ a ∈ as, Sure (f a) := by
  refine ⟨fun h => ?_, only_each⟩
  induction as with
  | nil => exact nofun
  | cons a as ih =>
    simp only [each, only_bind] at h
    obtain ⟨b, hb⟩ := h.1.exists_returns
    exact forall_mem_cons.mpr ⟨h.1, ih (h.2 b hb).1⟩

end Draws

end AwgMesh.Lib
