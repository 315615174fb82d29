import AwgMesh.Lib.Lines
import AwgMesh.Net.Cidr
import Mathlib.Data.List.GetD
import Mathlib.Data.Nat.Digits.Lemmas

/-! # What the spelling of a number or an address looks like -/

namespace AwgMesh.Net

open Lib List

theorem hexDigit_digitChar (d : Nat) : (hexDigit (digitChar d)).isSome = true := by
  by_cases h : d < 16
  · revert d
    decide
  · have hout : digitChar d = '0' := by
      unfold digitChar
      rw [getD_eq_default _ _ (by simpa using h)]
    rw [hout]
    decide

theorem digitString_chars (b n : Nat) :
    ∀ c ∈ (digitString b n).toList, (hexDigit c).isSome = true := by
  intro c hc
  unfold digitString at hc
  split at hc
  · rw [show "0".toList = ['0'] from rfl, mem_singleton] at hc
    rw [hc]
    decide
  · rw [String.toList_ofList] at hc
    obtain ⟨d, -, rfl⟩ := mem_map.mp hc
    exact hexDigit_digitChar d

theorem length_digitString_le {b n k : Nat} (hb : 1 < b) (hn : n < b ^ (k + 1)) :
    (digitString b n).toList.length ≤ k + 1 := by
  unfold digitString
  split
  · simp
  · rw [String.toList_ofList, length_map, length_reverse]
    exact (Nat.digits_length_le_iff hb n).mpr hn

/-! ## Addresses -/

theorem ipString_chars (ip : BitVec 128) : ∀ c ∈ (ipString ip).toList, isAddrChar c = true := by
  have hdigits : ∀ b n, ∀ c ∈ (digitString b n).toList, isAddrChar c = true := by
    intro b n c hc
    simp [isAddrChar, digitString_chars b n c hc]
  have hparts : ∀ (sep : String) (b : Nat) (f : Nat → Nat), sep.toList.all isAddrChar = true →
      ∀ gs : List Nat, ∀ c ∈ (sep.intercalate (gs.map fun n => digitString b (f n))).toList,
        isAddrChar c = true := by
    intro sep b f hsep gs
    rw [String.toList_intercalate]
    refine forall_mem_intercalate (all_eq_true.mp hsep) ?_
    intro l hl
    obtain ⟨s, hs, rfl⟩ := mem_map.mp hl
    obtain ⟨n, -, rfl⟩ := mem_map.mp hs
    exact hdigits b _
  have hspell := hparts ":" 16 id (by decide)
  unfold ipString
  split
  · exact hparts "." 10 _ (by decide) _
  · dsimp only
    split
    · exact hspell _
    · have hcolons : ∀ c ∈ "::".toList, isAddrChar c = true := all_eq_true.mp (by decide)
      rw [String.toList_append, String.toList_append, forall_mem_append,
        forall_mem_append]
      exact ⟨⟨hspell _, hcolons⟩, hspell _⟩

theorem length_ipString_le (ip : BitVec 128) : (ipString ip).toList.length ≤ 42 := by
  have hspell : ∀ gs : List Nat, (∀ g ∈ gs, g < 65536) →
      (":".intercalate (gs.map (digitString 16))).toList.length ≤ 5 * gs.length := by
    intro gs hgs
    rw [String.toList_intercalate]
    have hle : ∀ l ∈ (gs.map (digitString 16)).map String.toList, l.length ≤ 4 := by
      intro l hl
      obtain ⟨s, hs, rfl⟩ := mem_map.mp hl
      obtain ⟨g, hg, rfl⟩ := mem_map.mp hs
      exact length_digitString_le (by omega) (hgs g hg)
    rw [show 5 * gs.length = (4 + ":".toList.length) *
      ((gs.map (digitString 16)).map String.toList).length by simp]
    exact length_intercalate_le hle
  have hgroups : ∀ g ∈ groups ip, g < 65536 := by
    intro g hg
    obtain ⟨i, -, rfl⟩ := mem_map.mp hg
    exact Nat.mod_lt _ (by omega)
  have hlen : (groups ip).length = 8 := by simp [groups]
  unfold ipString
  split
  · next v4 _ =>
      rw [String.toList_intercalate]
      have hle : ∀ l ∈ ([24, 16, 8, 0].map fun s =>
          digitString 10 (v4.toNat / 2 ^ s % 256)).map String.toList, l.length ≤ 3 := by
        intro l hl
        obtain ⟨s, hs, rfl⟩ := mem_map.mp hl
        obtain ⟨k, -, rfl⟩ := mem_map.mp hs
        have hoctet : v4.toNat / 2 ^ k % 256 < 256 := Nat.mod_lt _ (by omega)
        exact length_digitString_le (by omega) (by omega)
      refine le_trans (length_intercalate_le hle) ?_
      simp
  · dsimp only
    split
    · have h := hspell (groups ip) hgroups
      omega
    · have hfront := hspell ((groups ip).take (zeroRun (groups ip)).1) fun g hg =>
        hgroups g (mem_of_mem_take hg)
      have hback := hspell ((groups ip).drop ((zeroRun (groups ip)).1 + (zeroRun (groups ip)).2))
        fun g hg => hgroups g (mem_of_mem_drop hg)
      rw [length_take] at hfront
      rw [length_drop] at hback
      rw [String.toList_append, String.toList_append, length_append, length_append,
        show "::".toList.length = 2 from rfl]
      omega

end AwgMesh.Net

namespace AwgMesh

open Net

theorem itoa_chars (n : Int) : ∀ c ∈ (itoa n).toList, c = '-' ∨ (hexDigit c).isSome = true := by
  intro c hc
  rw [toList_itoa] at hc
  split at hc
  · exact (List.mem_cons.mp hc).imp_right fun hc => digitString_chars 10 _ c hc
  · exact Or.inr (digitString_chars 10 _ c hc)

theorem length_itoa_le {n : Int} (h : isInt64 n) : (itoa n).toList.length ≤ 20 := by
  obtain ⟨hlo, hhi⟩ := h
  have hlen : (numeral n.natAbs).length ≤ 19 :=
    length_digitString_le (by omega) (by omega)
  rw [toList_itoa]
  split
  · rw [List.length_cons]
    omega
  · omega

end AwgMesh
