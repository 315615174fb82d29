import Mathlib.Data.List.Rotate

/-! # Ring buffers -/

namespace AwgMesh.Lib

open List

variable {α : Type}

structure RingHolds (buf : List α) (cursor : Nat) (full : Bool) (xs : List α) : Prop where
  pos : 0 < buf.length
  cursor_eq : cursor = xs.length % buf.length
  full_iff : full = true ↔ buf.length ≤ xs.length
  slot : ∀ {j : Nat}, j < xs.length → xs.length ≤ j + buf.length → buf[j % buf.length]? = xs[j]?

theorem eq_of_mod_eq {n i j : Nat} (hij : i ≤ j) (hj : j < i + n) (h : i % n = j % n) : i = j := by
  have hmod : (j - i) % n = 0 := Nat.sub_mod_eq_zero_of_mod_eq h.symm
  rw [Nat.mod_eq_of_lt (by omega)] at hmod
  omega

namespace RingHolds

variable {buf xs : List α} {cursor : Nat} {full : Bool}

theorem nil {buf : List α} (h : 0 < buf.length) : RingHolds buf 0 false [] where
  pos := h
  cursor_eq := (Nat.zero_mod buf.length).symm
  full_iff := by simpa [length_pos_iff] using h
  slot := fun hj => absurd hj (Nat.not_lt_zero _)

variable (h : RingHolds buf cursor full xs)

include h

theorem full_write :
    (if (cursor + 1) % buf.length = 0 then true else full) = true ↔
      buf.length ≤ xs.length + 1 := by
  have hmod : (cursor + 1) % buf.length = (xs.length + 1) % buf.length := by
    rw [h.cursor_eq, Nat.mod_add_mod]
  rw [hmod]
  by_cases hlt : xs.length + 1 < buf.length
  · rw [Nat.mod_eq_of_lt hlt, if_neg (Nat.succ_ne_zero _), h.full_iff]
    omega
  by_cases hfull : buf.length ≤ xs.length
  · rw [h.full_iff.mpr hfull, ite_self]
    exact ⟨fun _ => by omega, fun _ => rfl⟩
  · have hround : xs.length + 1 = buf.length := by omega
    rw [hround, Nat.mod_self, if_pos rfl]
    exact ⟨fun _ => Nat.le_refl _, fun _ => rfl⟩

theorem write (x : α) :
    RingHolds (buf.set cursor x) ((cursor + 1) % buf.length)
      (if (cursor + 1) % buf.length = 0 then true else full) (xs ++ [x]) where
  pos := by rw [length_set]; exact h.pos
  cursor_eq := by
    rw [length_set, length_append, length_singleton, h.cursor_eq, Nat.mod_add_mod]
  full_iff := by
    rw [length_set, length_append, length_singleton]
    exact h.full_write
  slot := by
    intro j hj hround
    rw [length_set, length_append, length_singleton] at *
    by_cases hlast : j = xs.length
    · have hlt : xs.length % buf.length < buf.length := Nat.mod_lt _ h.pos
      rw [hlast, h.cursor_eq, getElem?_set_self hlt, getElem?_concat_length]
    · -- an older element, whose slot is not the one written
      have hslot : cursor ≠ j % buf.length := by
        intro heq
        rw [h.cursor_eq] at heq
        exact hlast (eq_of_mod_eq (by omega) (by omega) heq.symm)
      have hold : j < xs.length := by omega
      rw [getElem?_set_ne hslot, getElem?_append_left hold]
      exact h.slot hold (by omega)

theorem length_lt (hfull : full = false) : xs.length < buf.length := by
  rw [← Nat.not_le, ← h.full_iff, hfull]
  exact Bool.false_ne_true

theorem range_eq (hfull : full = false) (default : α) :
    (range cursor).map (fun i => buf.getD i default) = xs := by
  have hlt := h.length_lt hfull
  have hcursor : cursor = xs.length := h.cursor_eq.trans (Nat.mod_eq_of_lt hlt)
  apply ext_getElem
  · rw [length_map, length_range, hcursor]
  intro i hi hi'
  have hslot := h.slot hi' (by omega)
  rw [Nat.mod_eq_of_lt (by omega)] at hslot
  rw [getElem_map, getElem_range, getD_eq_getElem?_getD, hslot,
    getElem?_eq_getElem hi', Option.getD_some]

theorem rotate_eq (hfull : full = true) (default : α) :
    (range buf.length).map (fun i => buf.getD ((cursor + i) % buf.length) default) =
      xs.drop (xs.length - buf.length) := by
  have hle : buf.length ≤ xs.length := h.full_iff.mp hfull
  apply ext_getElem
  · rw [length_map, length_range, length_drop]
    omega
  intro i hi hi'
  rw [length_map, length_range] at hi
  rw [getElem_map, getElem_range, getElem_drop]
  have hindex : (cursor + i) % buf.length = (xs.length - buf.length + i) % buf.length := by
    have : xs.length + i = xs.length - buf.length + i + buf.length := by omega
    rw [h.cursor_eq, Nat.mod_add_mod, this, Nat.add_mod_right]
  have hj : xs.length - buf.length + i < xs.length := by omega
  rw [getD_eq_getElem?_getD, hindex, h.slot hj (by omega), getElem?_eq_getElem hj,
    Option.getD_some]

theorem take_eq (hfull : full = false) : buf.take cursor = xs := by
  have hlt := h.length_lt hfull
  have hcursor : cursor = xs.length := h.cursor_eq.trans (Nat.mod_eq_of_lt hlt)
  apply ext_getElem?
  intro i
  by_cases hi : i < xs.length
  · have hslot := h.slot hi (by omega)
    rw [Nat.mod_eq_of_lt (by omega)] at hslot
    rw [getElem?_take_of_lt (by omega), hslot]
  · rw [getElem?_eq_none (by rw [length_take]; omega), getElem?_eq_none (by omega)]

theorem perm_of_full (hfull : full = true) : buf.Perm (xs.drop (xs.length - buf.length)) := by
  have hrotate : buf.rotate cursor = xs.drop (xs.length - buf.length) := by
    rw [← h.rotate_eq hfull (buf.get ⟨0, h.pos⟩)]
    apply ext_getElem
    · rw [length_rotate, length_map, length_range]
    intro i hi hi'
    rw [getElem_rotate, getElem_map, getElem_range, Nat.add_comm cursor]
    exact getElem_eq_getD _
  rw [← hrotate]
  exact (rotate_perm buf cursor).symm

end RingHolds

end AwgMesh.Lib
