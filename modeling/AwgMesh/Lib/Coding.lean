import Mathlib.Data.Nat.Digits.Lemmas

/-! # Values as bytes, each with its own end -/

namespace AwgMesh.Lib

open List

/-- What is written is read again, whatever follows. -/
structure Coding (α : Type) where
  write : α → List UInt8
  read : List UInt8 → α × List UInt8
  read_write : ∀ a rest, read (write a ++ rest) = (a, rest)

namespace Coding

variable {α β : Type}

def number : Coding Nat where
  write n := (Nat.digits 255 n).map UInt8.ofNat ++ [255]
  read b := (Nat.ofDigits 255 ((b.takeWhile (· ≠ 255)).map UInt8.toNat),
    (b.dropWhile (· ≠ 255)).tail)
  read_write n rest := by
    have hlt : ∀ d ∈ Nat.digits 255 n, d < 255 :=
      fun d hd => Nat.digits_lt_base (by omega) hd
    have hdigit : ∀ d ∈ Nat.digits 255 n, (UInt8.ofNat d).toNat = d :=
      fun d hd => UInt8.toNat_ofNat_of_lt' (Nat.lt_succ_of_lt (hlt d hd))
    have hinside : ∀ c ∈ (Nat.digits 255 n).map UInt8.ofNat, decide (c ≠ 255) = true := by
      intro c hc
      obtain ⟨d, hd, rfl⟩ := mem_map.mp hc
      refine decide_eq_true fun heq => ?_
      have hback := hdigit d hd
      rw [heq] at hback
      exact absurd hback.symm (Nat.ne_of_lt (hlt d hd))
    have hback : ((Nat.digits 255 n).map UInt8.ofNat).map UInt8.toNat = Nat.digits 255 n := by
      rw [map_map]
      exact (map_congr_left hdigit).trans (map_id' _)
    rw [append_assoc, takeWhile_append_of_pos hinside, dropWhile_append_of_pos hinside]
    simp [hback, Nat.ofDigits_digits]

def byte : Coding UInt8 where
  write c := [c]
  read b := (b.headD 0, b.tail)
  read_write _ _ := rfl

def pair (A : Coding α) (B : Coding β) : Coding (α × β) where
  write x := A.write x.1 ++ B.write x.2
  read b := (((A.read b).1, (B.read (A.read b).2).1), (B.read (A.read b).2).2)
  read_write x rest := by rw [append_assoc, A.read_write, B.read_write]

def readList (A : Coding α) : Nat → List UInt8 → List α × List UInt8
  | 0, b => ([], b)
  | n + 1, b => ((A.read b).1 :: (readList A n (A.read b).2).1, (readList A n (A.read b).2).2)

/-- The number of the elements, then the elements. -/
def list (A : Coding α) : Coding (List α) where
  write l := number.write l.length ++ l.flatMap A.write
  read b := readList A (number.read b).1 (number.read b).2
  read_write l rest := by
    rw [append_assoc, number.read_write]
    induction l with
    | nil => rfl
    | cons a l ih =>
      rw [flatMap_cons, append_assoc, length_cons, readList, A.read_write]
      simp only at ih ⊢
      rw [ih]

def map (A : Coding β) (f : α → β) (g : β → α) (h : ∀ a, g (f a) = a) : Coding α where
  write a := A.write (f a)
  read b := (g (A.read b).1, (A.read b).2)
  read_write a rest := by rw [A.read_write, h]

def bool : Coding Bool := number.map Bool.toNat (· ≠ 0) (by decide)

def int : Coding Int :=
  (bool.pair number).map (fun i => (decide (i < 0), i.natAbs)) (fun x => if x.1 then -x.2 else x.2)
    (by grind)

def string : Coding String :=
  (number.list).map (·.toList.map Char.toNat) (fun l => String.ofList (l.map Char.ofNat))
    (by simp [Function.comp_def])

def readAll (A : Coding α) (b : List UInt8) : Option α :=
  if (A.read b).2 = [] then some (A.read b).1 else none

theorem readAll_write (A : Coding α) (a : α) : A.readAll (A.write a) = some a := by
  have h := A.read_write a []
  rw [append_nil] at h
  rw [readAll, h, if_pos rfl]

end Coding

end AwgMesh.Lib
