import AwgMesh.ByteText

/-! # Hexadecimal -/

namespace AwgMesh

def hexChar (n : Nat) : UInt8 := if n < 10 then UInt8.ofNat (48 + n) else UInt8.ofNat (87 + n)

def hexValue (c : UInt8) : Option Nat :=
  if 48 ≤ c ∧ c ≤ 57 then some (c.toNat - 48)
  else if 97 ≤ c ∧ c ≤ 102 then some (c.toNat - 87)
  else if 65 ≤ c ∧ c ≤ 70 then some (c.toNat - 55)
  else none

def hexEncode : Bytes → Bytes
  | [] => []
  | b :: rest => hexChar (b.toNat / 16) :: hexChar (b.toNat % 16) :: hexEncode rest

def hexDecode : Bytes → Option Bytes
  | [] => some []
  | [_] => none
  | a :: b :: rest =>
    match hexValue a, hexValue b with
    | some hi, some lo => (hexDecode rest).map (UInt8.ofNat (hi * 16 + lo) :: ·)
    | _, _ => none

theorem hexValue_hexChar {n : Nat} (h : n < 16) : hexValue (hexChar n) = some n := by
  revert n
  decide

theorem hexDecode_hexEncode (b : Bytes) : hexDecode (hexEncode b) = some b := by
  induction b with
  | nil => rfl
  | cons x rest ih =>
    have hlt : x.toNat < 256 := x.toNat_lt
    rw [hexEncode, hexDecode, hexValue_hexChar (by omega), hexValue_hexChar (by omega), ih]
    have hsum : x.toNat / 16 * 16 + x.toNat % 16 = x.toNat := by omega
    dsimp only
    rw [hsum, UInt8.ofNat_toNat, Option.map_some]

theorem hexEncode_forall {P : UInt8 → Prop} (h : ∀ n < 16, P (hexChar n)) (b : Bytes) :
    ∀ c ∈ hexEncode b, P c := by
  induction b with
  | nil => simp [hexEncode]
  | cons x rest ih =>
    have hlt : x.toNat < 256 := x.toNat_lt
    rw [hexEncode, List.forall_mem_cons, List.forall_mem_cons]
    exact ⟨h _ (by omega), h _ (by omega), ih⟩

end AwgMesh
