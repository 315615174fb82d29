import AwgMesh.Hex

/-! # Base64 -/

namespace AwgMesh

open List

def sextetChar (n : Nat) : UInt8 :=
  if n < 26 then UInt8.ofNat (65 + n)
  else if n < 52 then UInt8.ofNat (71 + n)
  else if n < 62 then UInt8.ofNat (n - 4)
  else if n = 62 then 43
  else 47

def sextetValue (c : UInt8) : Option Nat :=
  if 65 ≤ c ∧ c ≤ 90 then some (c.toNat - 65)
  else if 97 ≤ c ∧ c ≤ 122 then some (c.toNat - 71)
  else if 48 ≤ c ∧ c ≤ 57 then some (c.toNat + 4)
  else if c = 43 then some 62
  else if c = 47 then some 63
  else none

def padChar : UInt8 := 0x3d

def base64Encode : Bytes → Bytes
  | [] => []
  | [a] => [sextetChar (a.toNat / 4), sextetChar (a.toNat % 4 * 16), padChar, padChar]
  | [a, b] =>
    [sextetChar (a.toNat / 4), sextetChar (a.toNat % 4 * 16 + b.toNat / 16),
      sextetChar (b.toNat % 16 * 4), padChar]
  | a :: b :: c :: rest =>
    [sextetChar (a.toNat / 4), sextetChar (a.toNat % 4 * 16 + b.toNat / 16),
      sextetChar (b.toNat % 16 * 4 + c.toNat / 64), sextetChar (c.toNat % 64)] ++ base64Encode rest

def decodeQuantum (p q x y : UInt8) (last : Bool) : Option Bytes := do
  let p ← sextetValue p
  let q ← sextetValue q
  let first := UInt8.ofNat (p * 4 + q / 16)
  if y = padChar then
    if last then
      if x = padChar then return [first]
      else
        let x ← sextetValue x
        return [first, UInt8.ofNat (q % 16 * 16 + x / 4)]
    else none
  else
    let x ← sextetValue x
    let y ← sextetValue y
    return [first, UInt8.ofNat (q % 16 * 16 + x / 4), UInt8.ofNat (x % 4 * 64 + y)]

def decodeQuanta : Bytes → Option Bytes
  | [] => some []
  | p :: q :: x :: y :: rest => do
      let bytes ← decodeQuantum p q x y (rest = [])
      return bytes ++ (← decodeQuanta rest)
  | _ => none

def base64Decode (b : Bytes) : Option Bytes := decodeQuanta (b.filter fun c => c ≠ 10 ∧ c ≠ 13)

/-! ## The round trip -/

theorem sextetValue_sextetChar : ∀ n < 64, sextetValue (sextetChar n) = some n := by decide

theorem sextetChar_ne_padChar : ∀ n < 64, sextetChar n ≠ padChar := by decide

theorem ofNat_eq {a : UInt8} {n : Nat} (h : n = a.toNat) : UInt8.ofNat n = a := by
  rw [h, UInt8.ofNat_toNat]

section Quantum

variable (a b c : UInt8)

theorem decodeQuantum_one : decodeQuantum (sextetChar (a.toNat / 4))
    (sextetChar (a.toNat % 4 * 16)) padChar padChar true = some [a] := by
  have ha := a.toNat_lt
  simp only [decodeQuantum, sextetValue_sextetChar (a.toNat / 4) (by omega),
    sextetValue_sextetChar (a.toNat % 4 * 16) (by omega), Option.bind_eq_bind, Option.bind_some]
  rw [ofNat_eq (a := a) (by omega)]
  rfl

theorem decodeQuantum_two : decodeQuantum (sextetChar (a.toNat / 4))
    (sextetChar (a.toNat % 4 * 16 + b.toNat / 16)) (sextetChar (b.toNat % 16 * 4)) padChar true =
      some [a, b] := by
  have ha := a.toNat_lt
  have hb := b.toNat_lt
  have hx : b.toNat % 16 * 4 < 64 := by omega
  simp only [decodeQuantum, sextetValue_sextetChar (a.toNat / 4) (by omega),
    sextetValue_sextetChar (a.toNat % 4 * 16 + b.toNat / 16) (by omega),
    sextetValue_sextetChar _ hx, sextetChar_ne_padChar _ hx, Option.bind_eq_bind, Option.bind_some]
  rw [ofNat_eq (a := a) (by omega), ofNat_eq (a := b) (by omega)]
  rfl

theorem decodeQuantum_three (last : Bool) : decodeQuantum (sextetChar (a.toNat / 4))
    (sextetChar (a.toNat % 4 * 16 + b.toNat / 16)) (sextetChar (b.toNat % 16 * 4 + c.toNat / 64))
      (sextetChar (c.toNat % 64)) last = some [a, b, c] := by
  have ha := a.toNat_lt
  have hb := b.toNat_lt
  have hc := c.toNat_lt
  have hy : c.toNat % 64 < 64 := by omega
  simp only [decodeQuantum, sextetValue_sextetChar (a.toNat / 4) (by omega),
    sextetValue_sextetChar (a.toNat % 4 * 16 + b.toNat / 16) (by omega),
    sextetValue_sextetChar (b.toNat % 16 * 4 + c.toNat / 64) (by omega),
    sextetValue_sextetChar _ hy, sextetChar_ne_padChar _ hy, Option.bind_eq_bind, Option.bind_some]
  rw [ofNat_eq (a := a) (by omega), ofNat_eq (a := b) (by omega), ofNat_eq (a := c) (by omega)]
  rfl

end Quantum

theorem decodeQuanta_base64Encode (b : Bytes) : decodeQuanta (base64Encode b) = some b := by
  fun_induction base64Encode b with
  | case1 => rfl
  | case2 a => simp only [decodeQuanta, decide_true, decodeQuantum_one]; rfl
  | case3 a b => simp only [decodeQuanta, decide_true, decodeQuantum_two]; rfl
  | case4 a b c rest ih =>
    simp only [cons_append, nil_append, decodeQuanta, decodeQuantum_three, ih]
    rfl

theorem base64Encode_forall {P : UInt8 → Prop} (hpad : P padChar) (h : ∀ n < 64, P (sextetChar n))
    (b : Bytes) : ∀ c ∈ base64Encode b, P c := by
  fun_induction base64Encode b with
  | case1 => simp
  | case2 a =>
    have ha := a.toNat_lt
    simp only [forall_mem_cons]
    exact ⟨h _ (by omega), h _ (by omega), hpad, hpad, by simp⟩
  | case3 a b =>
    have ha := a.toNat_lt
    have hb := b.toNat_lt
    simp only [forall_mem_cons]
    exact ⟨h _ (by omega), h _ (by omega), h _ (by omega), hpad, by simp⟩
  | case4 a b c rest ih =>
    have ha := a.toNat_lt
    have hb := b.toNat_lt
    have hc := c.toNat_lt
    simp only [cons_append, nil_append, forall_mem_cons]
    exact ⟨h _ (by omega), h _ (by omega), h _ (by omega), h _ (by omega), ih⟩

theorem base64Decode_base64Encode (b : Bytes) : base64Decode (base64Encode b) = some b := by
  have hnobreak : ∀ c ∈ base64Encode b, c ≠ 10 ∧ c ≠ 13 :=
    base64Encode_forall (by decide) (by decide) b
  rw [base64Decode, filter_eq_self.mpr (by simpa using hnobreak), decodeQuanta_base64Encode]

theorem length_base64Encode (b : Bytes) : (base64Encode b).length = (b.length + 2) / 3 * 4 := by
  fun_induction base64Encode b with
  | case1 => rfl
  | case2 a => simp
  | case3 a b => simp
  | case4 a b c rest ih =>
    rw [length_append, ih]
    simp only [length_cons, length_nil]
    omega

end AwgMesh
