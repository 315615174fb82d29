import AwgMesh.Strconv
import Mathlib.Data.Int.Log
import Mathlib.Data.Rat.Floor
import Mathlib.Tactic.NormNum

/-! # Durations in seconds -/

namespace AwgMesh

def roundHalfEven (q : ℚ) : Int :=
  if q - ⌊q⌋ < 1 / 2 then ⌊q⌋
  else if 1 / 2 < q - ⌊q⌋ then ⌊q⌋ + 1
  else if ⌊q⌋ % 2 = 0 then ⌊q⌋
  else ⌊q⌋ + 1

def round64 (q : ℚ) : ℚ :=
  if q = 0 then 0
  else roundHalfEven (q / 2 ^ (Int.log 2 |q| - 52)) * 2 ^ (Int.log 2 |q| - 52)

def truncate (q : ℚ) : Int := if 0 ≤ q then ⌊q⌋ else ⌈q⌉

def seconds (d : Int) : Int :=
  truncate (round64 (d.tdiv 1000000000 + round64 (d.tmod 1000000000 / 1000000000)))

theorem roundHalfEven_intCast (n : Int) : roundHalfEven n = n := by
  unfold roundHalfEven
  rw [Int.floor_intCast, sub_self, if_pos (by norm_num)]

theorem round64_intCast {n : Int} (h : |n| < 2 ^ 53) : round64 n = n := by
  unfold round64
  split
  · next hzero => rw [hzero]
  · next hne =>
      have hpos : (0 : ℚ) < |(n : ℚ)| := abs_pos.mpr hne
      have hlog : Int.log 2 |(n : ℚ)| < 53 := by
        refine (Int.lt_zpow_iff_log_lt (by omega) hpos).mp ?_
        exact_mod_cast h
      obtain ⟨m, hm⟩ : ∃ m : Nat, Int.log 2 |(n : ℚ)| - 52 = -(m : Int) :=
        ⟨(52 - Int.log 2 |(n : ℚ)|).toNat, by omega⟩
      have hscaled : (n : ℚ) / 2 ^ (-(m : Int)) = ((n * 2 ^ m : Int) : ℚ) := by
        rw [zpow_neg, div_inv_eq_mul, zpow_natCast]
        push_cast
        rfl
      rw [hm, hscaled, roundHalfEven_intCast, ← hscaled]
      exact div_mul_cancel₀ _ (zpow_ne_zero _ two_ne_zero)

theorem seconds_mul {k : Int} (h : isInt64 (k * 1000000000)) : seconds (k * 1000000000) = k := by
  obtain ⟨hlo, hhi⟩ := h
  have hk : |k| < 2 ^ 53 := by
    rw [abs_lt]
    constructor <;> omega
  unfold seconds
  rw [Int.mul_tdiv_cancel _ (by omega), Int.mul_tmod_left]
  have hzero : round64 ((0 : Int) / 1000000000) = 0 := by simp [round64]
  rw [hzero, add_zero, round64_intCast hk, truncate, Int.floor_intCast, Int.ceil_intCast, ite_self]

end AwgMesh
