import Mathlib.Data.List.Count
import Mathlib.Data.List.Rotate

/-! # Scanning in a circle -/

namespace AwgMesh.Lib.RoundRobin

open List

variable {α : Type} (p : α → Bool) (xs : List α)

/-- At most `looks` looks from `cursor` on. -/
def scan : (looks cursor : Nat) → Nat × Option α
  | 0, cursor => (cursor, none)
  | looks + 1, cursor =>
    match xs[cursor % xs.length]? with
    | none => (cursor, none)
    | some x => if p x then (cursor + 1, some x) else scan looks (cursor + 1)

variable {p xs}

variable {looks cursor : Nat} {x : α}

theorem scan_eq_some (h : (scan p xs looks cursor).2 = some x) : x ∈ xs ∧ p x = true := by
  induction looks generalizing cursor with
  | zero => cases h
  | succ looks ih =>
    rw [scan] at h
    split at h
    · cases h
    next y hy =>
    split at h
    · next hp =>
        cases h
        exact ⟨mem_of_getElem? hy, hp⟩
    · exact ih h

theorem scan_eq_none (hne : xs ≠ []) :
    (scan p xs looks cursor).2 = none ↔
      ∀ k < looks, ∀ x, xs[(cursor + k) % xs.length]? = some x → p x = false := by
  have hpos : 0 < xs.length := length_pos_iff.mpr hne
  induction looks generalizing cursor with
  | zero => simp [scan]
  | succ looks ih =>
    obtain ⟨y, hy⟩ : ∃ y, xs[cursor % xs.length]? = some y :=
      ⟨_, getElem?_eq_getElem (Nat.mod_lt cursor hpos)⟩
    -- the first look, and those from the next place on
    have hsplit : (∀ k < looks + 1, ∀ x, xs[(cursor + k) % xs.length]? = some x → p x = false) ↔
        p y = false ∧
          ∀ k < looks, ∀ x, xs[(cursor + 1 + k) % xs.length]? = some x → p x = false := by
      constructor
      · intro h
        refine ⟨h 0 (by omega) y hy, ?_⟩
        intro k hk x hx
        exact h (k + 1) (by omega) x (by rw [← hx]; congr 2; omega)
      · rintro ⟨hfirst, hrest⟩ k hk x hx
        cases k with
        | zero =>
          rw [Nat.add_zero, hy] at hx
          cases hx
          exact hfirst
        | succ k => exact hrest k (by omega) x (by rw [← hx]; congr 2; omega)
    rw [scan, hy, hsplit]
    refine Iff.trans ?_ (and_congr_right' ih)
    dsimp only
    cases hp : p y <;> simp

theorem exists_lt_length_add_mod (cursor : Nat) {i : Nat} (hi : i < xs.length) :
    ∃ k < xs.length, (cursor + k) % xs.length = i := by
  have hpos : 0 < xs.length := by omega
  have hmod := Nat.mod_lt cursor hpos
  refine ⟨(i + (xs.length - cursor % xs.length)) % xs.length, Nat.mod_lt _ hpos, ?_⟩
  rw [Nat.add_mod_mod, ← Nat.mod_add_mod]
  have hsum : cursor % xs.length + (i + (xs.length - cursor % xs.length)) = i + xs.length := by
    omega
  rw [hsum, Nat.add_mod_right, Nat.mod_eq_of_lt hi]

theorem scan_length_eq_none (hne : xs ≠ []) :
    (scan p xs xs.length cursor).2 = none ↔ ∀ x ∈ xs, p x = false := by
  rw [scan_eq_none hne]
  constructor
  · intro h x hx
    obtain ⟨i, hi, rfl⟩ := mem_iff_getElem.mp hx
    obtain ⟨k, hk, hki⟩ := exists_lt_length_add_mod cursor hi
    exact h k hk _ (by rw [hki, getElem?_eq_getElem hi])
  · intro h k _ x hx
    exact h x (mem_of_getElem? hx)

theorem scan_of_pass (hx : xs[cursor % xs.length]? = some x)
    (hp : p x = true) : scan p xs (looks + 1) cursor = (cursor + 1, some x) := by
  simp [scan, hx, hp]

variable (xs) in
def turns (n cursor : Nat) : List (Option α) :=
  (range n).map fun k => xs[(cursor + k) % xs.length]?

theorem turns_succ (n cursor : Nat) :
    turns xs (n + 1) cursor = xs[cursor % xs.length]? :: turns xs n (cursor + 1) := by
  simp [turns, range_succ_eq_map, Function.comp_def, Nat.add_assoc, Nat.add_comm 1]

theorem turns_length (cursor : Nat) : turns xs xs.length cursor = (xs.map some).rotate cursor := by
  apply ext_getElem?
  intro i
  by_cases hi : i < xs.length
  · rw [getElem?_rotate (by simpa using hi)]
    simp [turns, getElem?_range hi, Nat.add_comm cursor,
      getElem?_eq_getElem (Nat.mod_lt _ (Nat.zero_lt_of_lt hi))]
  · simp [turns, hi]

theorem count_turns [DecidableEq α] (rounds cursor : Nat) (x : α) :
    (turns xs (rounds * xs.length) cursor).count (some x) = rounds * xs.count x := by
  induction rounds with
  | zero => simp [turns]
  | succ rounds ih =>
    -- the last round looks where the first one does
    have hlast : turns xs ((rounds + 1) * xs.length) cursor =
        turns xs (rounds * xs.length) cursor ++ turns xs xs.length cursor := by
      simp only [turns, Nat.succ_mul, range_add, map_append, map_map]
      congr 2
      funext k
      simp [Nat.add_left_comm cursor]
    rw [hlast, count_append, ih, turns_length, (rotate_perm _ _).count_eq,
      count_map_of_injective _ _ (fun _ _ => Option.some.inj), Nat.succ_mul]

end AwgMesh.Lib.RoundRobin
