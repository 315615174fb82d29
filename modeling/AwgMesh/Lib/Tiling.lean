import Mathlib.Data.List.Forall2

/-! # Intervals laid end to end -/

namespace AwgMesh.Lib

open List

abbrev InInterval (s : Int64 × Int64) (x : Int64) : Prop := s.1 ≤ x ∧ x ≤ s.2

/-- The intervals follow each other from `a` up to `b`, without a gap. -/
inductive Tiles : Int → List (Int64 × Int64) → Int → Prop where
  | nil {a : Int} : Tiles a [] a
  | cons {s : Int64 × Int64} {rest : List (Int64 × Int64)} {b : Int} :
      s.1 ≤ s.2 → Tiles (s.2.toInt + 1) rest b → Tiles s.1.toInt (s :: rest) b

namespace Tiles

variable {a b : Int} {segments : List (Int64 × Int64)} {xs : List Int64} {x : Int64}
  (h : Tiles a segments b)

include h

theorem le : a ≤ b := by
  induction h with
  | nil => exact Int.le_refl _
  | cons hle _ ih =>
    rw [Int64.le_iff_toInt_le] at hle
    omega

theorem nonempty {s : Int64 × Int64} (hs : s ∈ segments) : s.1 ≤ s.2 := by
  induction h with
  | nil => cases hs
  | cons hle _ ih =>
    rcases mem_cons.mp hs with rfl | hs
    · exact hle
    · exact ih hs

theorem bounds {s : Int64 × Int64} (hs : s ∈ segments) (hx : InInterval s x)
    : a ≤ x.toInt ∧ x.toInt < b := by
  simp only [InInterval, Int64.le_iff_toInt_le] at hx
  induction h with
  | nil => cases hs
  | cons hle htail ih =>
    rw [Int64.le_iff_toInt_le] at hle
    have hend := htail.le
    rcases mem_cons.mp hs with rfl | hs
    · omega
    · have := ih hs
      omega

theorem existsUnique_iff : (a ≤ x.toInt ∧ x.toInt < b) ↔ ∃! s, s ∈ segments ∧ InInterval s x := by
  refine ⟨fun hx => ?_, fun ⟨s, hs, _⟩ => h.bounds hs.1 hs.2⟩
  induction h with
  | nil => omega
  | @cons s rest b hle htail ih =>
    by_cases hhead : InInterval s x
    · refine ⟨s, ⟨mem_cons_self, hhead⟩, fun t ⟨ht, htx⟩ => ?_⟩
      rcases mem_cons.mp ht with rfl | ht
      · rfl
      · have hafter := htail.bounds ht htx
        simp only [InInterval, Int64.le_iff_toInt_le] at hhead
        omega
    · have hafter : s.2.toInt + 1 ≤ x.toInt ∧ x.toInt < b := by
        simp only [InInterval, Int64.le_iff_toInt_le] at hhead
        omega
      obtain ⟨t, ⟨ht, htx⟩, hunique⟩ := ih hafter
      refine ⟨t, ⟨mem_cons_of_mem s ht, htx⟩, fun u ⟨hu, hux⟩ => ?_⟩
      rcases mem_cons.mp hu with rfl | hu
      · exact absurd hux hhead
      · exact hunique u ⟨hu, hux⟩

theorem exists_forall₂ (hx : a ≤ x.toInt ∧ x.toInt < b) :
    ∃ xs, Forall₂ InInterval segments xs ∧ x ∈ xs := by
  obtain ⟨s, ⟨hs, hsx⟩, -⟩ := h.existsUnique_iff.mp hx
  refine ⟨segments.map fun t => if InInterval t x then x else t.1, ?_, ?_⟩
  · rw [forall₂_map_right_iff, forall₂_same]
    intro t ht
    split
    · assumption
    · exact ⟨Int64.le_refl _, h.nonempty ht⟩
  · exact mem_map.mpr ⟨s, hs, if_pos hsx⟩

theorem forall_bounds (hxs : Forall₂ InInterval segments xs) :
    ∀ x ∈ xs, a ≤ x.toInt ∧ x.toInt < b := by
  induction h generalizing xs with
  | nil =>
    cases hxs
    exact nofun
  | @cons s rest b hle htail ih =>
    obtain ⟨y, ys, hy, hys, rfl⟩ := forall₂_cons_left_iff.mp hxs
    have hend := htail.le
    simp only [InInterval, Int64.le_iff_toInt_le] at hle hy
    refine forall_mem_cons.mpr ⟨by omega, fun x hx => ?_⟩
    have := ih hys x hx
    omega

theorem nodup (hxs : Forall₂ InInterval segments xs) : xs.Nodup := by
  induction h generalizing xs with
  | nil =>
    cases hxs
    exact nodup_nil
  | @cons s rest b hle htail ih =>
    obtain ⟨y, ys, hy, hys, rfl⟩ := forall₂_cons_left_iff.mp hxs
    refine nodup_cons.mpr ⟨fun hmem => ?_, ih hys⟩
    have hafter := htail.forall_bounds hys y hmem
    simp only [InInterval, Int64.le_iff_toInt_le] at hy
    omega

end Tiles

end AwgMesh.Lib
