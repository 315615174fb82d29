import Mathlib.Data.List.Sort

/-! # Sorting by a key -/

namespace AwgMesh.Lib

open List

/-- A sorting procedure by `key`. -/
structure Sorter {α κ : Type} [LE κ] (key : α → κ) where
  sort : List α → List α
  perm : ∀ l, (sort l).Perm l
  ordered : ∀ l, (sort l).Pairwise fun a b => key a ≤ key b

namespace Sorter

variable {α κ : Type} [LinearOrder κ] {key : α → κ}

def stable (key : α → κ) : Sorter key where
  sort := insertionSort fun a b => key a ≤ key b
  perm := perm_insertionSort fun a b => key a ≤ key b
  ordered := by
    have htotal : Std.Total fun a b => key a ≤ key b := ⟨fun a b => le_total (key a) (key b)⟩
    have htrans : IsTrans α fun a b => key a ≤ key b := ⟨fun a b c => le_trans⟩
    exact pairwise_insertionSort fun a b => key a ≤ key b

def arranging [DecidableEq α] (s : Sorter key) {l l' : List α} (hperm : l'.Perm l)
    (hordered : l'.Pairwise fun a b => key a ≤ key b) : Sorter key where
  sort m := if m = l then l' else s.sort m
  perm m := by
    split
    · next h => exact h ▸ hperm
    · exact s.perm m
  ordered m := by
    split
    · exact hordered
    · exact s.ordered m

@[simp] theorem arranging_sort [DecidableEq α] (s : Sorter key) {l l' : List α}
    (hperm : l'.Perm l) (hordered : l'.Pairwise fun a b => key a ≤ key b) :
    (s.arranging hperm hordered).sort l = l' := if_pos rfl

end Sorter

section

variable {α κ : Type} [LinearOrder κ] {key : α → κ} {l l' : List α}

/-! ## Distinct keys -/

theorem eq_of_perm_of_ordered (hperm : l.Perm l') (hl : l.Pairwise fun a b => key a ≤ key b)
    (hl' : l'.Pairwise fun a b => key a ≤ key b) (hkeys : (l.map key).Nodup) : l = l' := by
  refine Perm.eq_of_pairwise ?_ hl hl' hperm
  intro a b ha hb hab hba
  exact inj_on_of_nodup_map hkeys ha (hperm.mem_iff.mpr hb) (le_antisymm hab hba)

theorem length_filter_lt_of_ordered (hl : l.Pairwise fun a b => key a ≤ key b)
    (hkeys : (l.map key).Nodup) {i : Nat} {x : α} (hx : l[i]? = some x) :
    (l.filter fun a => key a < key x).length = i := by
  induction l generalizing i with
  | nil => cases hx
  | cons a l ih =>
    rw [pairwise_cons] at hl
    rw [map_cons, nodup_cons] at hkeys
    cases i with
    | zero =>
      cases hx
      -- nothing is before the head
      simpa using hl.1
    | succ i =>
      rw [getElem?_cons_succ] at hx
      have hmem : x ∈ l := mem_of_getElem? hx
      have hlt : key a < key x :=
        lt_of_le_of_ne (hl.1 x hmem) fun h => hkeys.1 (h ▸ mem_map_of_mem hmem)
      rw [filter_cons_of_pos (by simpa using hlt), length_cons, ih hl.2 hkeys.2 hx]

theorem find?_eq_some_iff_least (hl : l.Pairwise fun a b => key a < key b) {p : α → Bool} {x : α} :
    l.find? p = some x ↔ x ∈ l ∧ p x = true ∧ ∀ y ∈ l, p y = true → y = x ∨ key x < key y := by
  constructor
  · intro hfind
    obtain ⟨hx, pre, post, rfl, hpre⟩ := find?_eq_some_iff_append.mp hfind
    refine ⟨by simp, hx, fun y hy hp => ?_⟩
    rcases mem_append.mp hy with hy | hy
    · have hfalse := hpre y hy
      rw [hp] at hfalse
      cases hfalse
    · rcases mem_cons.mp hy with rfl | hy
      · exact Or.inl rfl
      · exact Or.inr ((pairwise_cons.mp (pairwise_append.mp hl).2.1).1 y hy)
  · rintro ⟨hmem, hx, hleast⟩
    induction l with
    | nil => cases hmem
    | cons a l ih =>
      rw [pairwise_cons] at hl
      cases ha : p a with
      | true =>
        -- the head is wanted, so that nothing wanted is below it
        rw [find?_cons_of_pos ha]
        rcases hleast a mem_cons_self ha with rfl | hlt
        · rfl
        · rcases mem_cons.mp hmem with rfl | hmem
          · rfl
          · exact absurd hlt (lt_asymm (hl.1 x hmem))
      | false =>
        rw [find?_cons_of_neg (by simp [ha])]
        have hne : x ≠ a := by
          rintro rfl
          rw [ha] at hx
          cases hx
        exact ih hl.2 ((mem_cons.mp hmem).resolve_left hne) fun y hy =>
          hleast y (mem_cons_of_mem a hy)

/-! ## Equal keys -/

theorem exists_neighbours_of_not_nodup (hl : l.Pairwise fun a b => key a ≤ key b)
    (hkeys : ¬ (l.map key).Nodup) : ∃ pre a b post, l = pre ++ a :: b :: post ∧ key a = key b := by
  induction l with
  | nil => exact absurd nodup_nil hkeys
  | cons a l ih =>
    rw [pairwise_cons] at hl
    by_cases hrest : (l.map key).Nodup
    · -- the head is repeated, so its successor has its key already
      have hmem : key a ∈ l.map key := by
        by_contra h
        exact hkeys (nodup_cons.mpr ⟨h, hrest⟩)
      obtain ⟨x, hx, hkey⟩ := mem_map.mp hmem
      cases l with
      | nil => cases hx
      | cons b l =>
        refine ⟨[], a, b, l, rfl, le_antisymm (hl.1 b mem_cons_self) ?_⟩
        rw [← hkey]
        rcases mem_cons.mp hx with rfl | hx
        · exact le_refl _
        · exact (pairwise_cons.mp hl.2).1 x hx
    · obtain ⟨pre, x, y, post, rfl, hkey⟩ := ih hl.2 hrest
      exact ⟨a :: pre, x, y, post, rfl, hkey⟩

theorem ordered_swap {pre post : List α} {a b : α} (hkey : key a = key b)
    (h : (pre ++ a :: b :: post).Pairwise fun x y => key x ≤ key y) :
    (pre ++ b :: a :: post).Pairwise fun x y => key x ≤ key y := by
  simp only [pairwise_append, pairwise_cons, mem_cons, forall_eq_or_imp] at h ⊢
  obtain ⟨hpre, ⟨⟨hab, ha⟩, hb, hpost⟩, hcross⟩ := h
  refine ⟨hpre, ⟨⟨hkey.ge, hb⟩, ha, hpost⟩, ?_⟩
  intro x hx
  exact ⟨(hcross x hx).2.1, (hcross x hx).1, (hcross x hx).2.2⟩

end

end AwgMesh.Lib
