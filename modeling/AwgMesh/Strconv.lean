import AwgMesh.Net.Addr

/-! # Decimal integers -/

namespace AwgMesh

open Net

def itoa (n : Int) : String :=
  if n < 0 then "-" ++ digitString 10 n.natAbs else digitString 10 n.natAbs

def digitsValue : List Char → (n : Nat) → Option Nat
  | [], n => some n
  | c :: cs, n =>
    if '0' ≤ c ∧ c ≤ '9' then digitsValue cs (n * 10 + (c.toNat - 48)) else none

def unsigned (cs : List Char) : Option Nat := if cs = [] then none else digitsValue cs 0

def atoi : List Char → Option Int
  | '-' :: cs => (unsigned cs).bind fun n => if n ≤ 2 ^ 63 then some (-(n : Int)) else none
  | '+' :: cs => (unsigned cs).bind fun n => if n < 2 ^ 63 then some (n : Int) else none
  | cs => (unsigned cs).bind fun n => if n < 2 ^ 63 then some (n : Int) else none

def isInt64 (n : Int) : Prop := -2 ^ 63 ≤ n ∧ n < 2 ^ 63

/-! ## Reading what was written -/

theorem digitsValue_append (cs ds : List Char) (n : Nat) :
    digitsValue (cs ++ ds) n = (digitsValue cs n).bind (digitsValue ds) := by
  induction cs generalizing n with
  | nil => rfl
  | cons c cs ih =>
    rw [List.cons_append, digitsValue, digitsValue]
    split
    · exact ih _
    · rfl

theorem isDigit_digitChar {d : Nat} (h : d < 10) :
    ('0' ≤ digitChar d ∧ digitChar d ≤ '9') ∧ (digitChar d).toNat - 48 = d := by
  interval_cases d <;> decide

theorem digitsValue_digitChar {d : Nat} (h : d < 10) (n : Nat) :
    digitsValue [digitChar d] n = some (n * 10 + d) := by
  obtain ⟨hdigit, hval⟩ := isDigit_digitChar h
  rw [digitsValue, if_pos hdigit, hval]
  rfl

theorem numeral_split {n : Nat} (h : 10 ≤ n) :
    numeral n = numeral (n / 10) ++ [digitChar (n % 10)] := by
  have hdiv : n / 10 ≠ 0 := by omega
  have hmod : n % 10 < 10 := by omega
  rw [← numeral_append hdiv hmod]
  congr 1
  omega

theorem digitsValue_numeral (n : Nat) : digitsValue (numeral n) 0 = some n := by
  induction n using Nat.strongRecOn with
  | ind n ih =>
    by_cases h : n < 10
    · rw [numeral_of_lt h, digitsValue_digitChar h, Nat.zero_mul, Nat.zero_add]
    · rw [numeral_split (by omega), digitsValue_append, ih (n / 10) (by omega),
        Option.bind_some, digitsValue_digitChar (by omega)]
      congr 1
      omega

theorem numeral_digits (n : Nat) : ∀ c ∈ numeral n, '0' ≤ c ∧ c ≤ '9' := by
  induction n using Nat.strongRecOn with
  | ind n ih =>
    by_cases h : n < 10
    · rw [numeral_of_lt h]
      simpa using (isDigit_digitChar h).1
    · rw [numeral_split (by omega), List.forall_mem_append, List.forall_mem_singleton]
      exact ⟨ih (n / 10) (by omega), (isDigit_digitChar (by omega)).1⟩

theorem numeral_ne_nil (n : Nat) : numeral n ≠ [] := by
  by_cases h : n < 10
  · rw [numeral_of_lt h]
    simp
  · rw [numeral_split (by omega)]
    simp

theorem unsigned_numeral (n : Nat) : unsigned (numeral n) = some n := by
  rw [unsigned, if_neg (numeral_ne_nil n), digitsValue_numeral]

theorem atoi_numeral (n : Nat) :
    atoi (numeral n) = if n < 2 ^ 63 then some (n : Int) else none := by
  have hhead : ∀ c ∈ numeral n, c ≠ '-' ∧ c ≠ '+' := by
    intro c hc
    have hdigit := numeral_digits n c hc
    constructor
    · rintro rfl
      exact absurd hdigit (by decide)
    · rintro rfl
      exact absurd hdigit (by decide)
  have hval := unsigned_numeral n
  unfold atoi
  split
  · next cs heq => exact absurd rfl (hhead '-' (by rw [heq]; exact List.mem_cons_self)).1
  · next cs heq => exact absurd rfl (hhead '+' (by rw [heq]; exact List.mem_cons_self)).2
  · rw [hval, Option.bind_some]

theorem toList_itoa (n : Int) :
    (itoa n).toList = if n < 0 then '-' :: numeral n.natAbs else numeral n.natAbs := by
  unfold itoa
  split
  · rw [String.toList_append]
    rfl
  · rfl

theorem atoi_itoa {n : Int} (h : isInt64 n) : atoi (itoa n).toList = some n := by
  obtain ⟨hlo, hhi⟩ := h
  rw [toList_itoa]
  split
  · show ((unsigned (numeral n.natAbs)).bind fun m =>
      if m ≤ 2 ^ 63 then some (-(m : Int)) else none) = some n
    rw [unsigned_numeral, Option.bind_some, if_pos (by omega)]
    congr 1
    omega
  · rw [atoi_numeral, if_pos (by omega)]
    congr 1
    omega

theorem isInt64_of_atoi {cs : List Char} {n : Int} (h : atoi cs = some n) : isInt64 n := by
  unfold isInt64
  unfold atoi at h
  split at h
  all_goals
    obtain ⟨m, -, hm⟩ := Option.bind_eq_some_iff.mp h
    split_ifs at hm
    cases hm
    omega

end AwgMesh
