import Mathlib.Data.List.Basic

/-! # Texts made of lines -/

namespace AwgMesh.Lib

open List

section Write

variable {α : Type} {sep : α}

def unlines (sep : α) (ls : List (List α)) : List α := ls.flatMap (· ++ [sep])

@[simp] theorem unlines_nil : unlines sep [] = [] := rfl

@[simp] theorem unlines_cons (l : List α) (ls : List (List α)) :
    unlines sep (l :: ls) = l ++ sep :: unlines sep ls := by
  simp [unlines]

theorem unlines_append (ls ls' : List (List α)) :
    unlines sep (ls ++ ls') = unlines sep ls ++ unlines sep ls' :=
  flatMap_append

/-! ## Joining with a separator -/

variable {glue : List α} {ls : List (List α)}

theorem forall_mem_intercalate {P : α → Prop}
    (hglue : ∀ a ∈ glue, P a) (h : ∀ l ∈ ls, ∀ a ∈ l, P a) : ∀ a ∈ glue.intercalate ls, P a := by
  induction ls with
  | nil => simp
  | cons l ls ih =>
    obtain ⟨hl, hls⟩ := forall_mem_cons.mp h
    cases ls with
    | nil => simpa using hl
    | cons l' ls =>
      rw [intercalate_cons_cons, forall_mem_append, forall_mem_append]
      exact ⟨⟨hl, hglue⟩, ih hls⟩

theorem mem_intercalate_of_mem {glue l : List α} {a : α} (hl : l ∈ ls)
    (ha : a ∈ l) : a ∈ glue.intercalate ls := by
  induction ls with
  | nil => cases hl
  | cons l' ls ih =>
    cases ls with
    | nil =>
      cases mem_singleton.mp hl
      rwa [intercalate_singleton]
    | cons l'' ls =>
      rw [intercalate_cons_cons, append_assoc, mem_append]
      rcases mem_cons.mp hl with rfl | hl
      · exact .inl ha
      · exact .inr (mem_append_right _ (ih hl))

theorem length_intercalate_le {n : Nat} (h : ∀ l ∈ ls, l.length ≤ n) :
    (glue.intercalate ls).length ≤ (n + glue.length) * ls.length := by
  induction ls with
  | nil => simp
  | cons l ls ih =>
    obtain ⟨hl, hls⟩ := forall_mem_cons.mp h
    have hmul : (n + glue.length) * (ls.length + 1) =
        (n + glue.length) * ls.length + (n + glue.length) := Nat.mul_succ _ _
    cases ls with
    | nil =>
      simp only [intercalate_singleton, length_cons, length_nil]
      omega
    | cons l' ls =>
      have hrest := ih hls
      rw [intercalate_cons_cons, length_append, length_append, length_cons]
      omega

end Write

variable {α : Type} [DecidableEq α] {sep : α}

/-! ## Reading lines -/

variable {l : List α}

theorem splitOn_append_cons (h : sep ∉ l) (r : List α) :
    (l ++ sep :: r).splitOn sep = l :: r.splitOn sep := by
  refine splitOnP_append_cons_of_forall_mem ?_ sep (by simp) r
  intro a ha
  exact beq_false_of_ne fun heq => h (heq ▸ ha)

variable {ls : List (List α)}

theorem splitOn_unlines_append (h : ∀ l ∈ ls, sep ∉ l) (r : List α) :
    (unlines sep ls ++ r).splitOn sep = ls ++ r.splitOn sep := by
  induction ls with
  | nil => rfl
  | cons l ls ih =>
    obtain ⟨hl, hls⟩ := forall_mem_cons.mp h
    rw [unlines_cons, append_assoc, cons_append, splitOn_append_cons hl, ih hls,
      cons_append]

theorem splitOn_intercalate {c : α} (hc : c ≠ sep) (hl : sep ∉ l) (hls : ∀ l ∈ ls, sep ∉ l) :
    ([sep, c].intercalate (l :: ls)).splitOn sep = l :: ls.map (c :: ·) := by
  induction ls generalizing l with
  | nil => rw [intercalate_singleton, splitOn_eq_singleton hl, map_nil]
  | cons l' ls ih =>
    obtain ⟨hl', hls'⟩ := forall_mem_cons.mp hls
    have hnext : sep ∉ c :: l' := by simp [hl', Ne.symm hc]
    have hjoin : [sep, c].intercalate (l :: l' :: ls) =
        l ++ sep :: [sep, c].intercalate ((c :: l') :: ls) := by
      cases ls <;> simp [intercalate_cons_cons]
    rw [hjoin, splitOn_append_cons hl, ih hnext hls']
    rfl

theorem length_splitOn (l : List α) : (l.splitOn sep).length = l.count sep + 1 := by
  induction l with
  | nil => rfl
  | cons a l ih =>
    rw [splitOn_cons_eq_if_modifyHead, count_cons]
    split
    · rw [length_cons, ih]
    · rw [length_modifyHead, ih]

theorem length_le_count_unlines (ls : List (List α)) : ls.length ≤ (unlines sep ls).count sep := by
  induction ls with
  | nil => exact Nat.le_refl _
  | cons l ls ih =>
    rw [unlines_cons, count_append, count_cons_self, length_cons]
    omega

theorem length_lt_count_unlines (hl : l ∈ ls) (h : sep ∈ l) :
    ls.length < (unlines sep ls).count sep := by
  induction ls with
  | nil => cases hl
  | cons l' ls ih =>
    rw [unlines_cons, count_append, count_cons_self, length_cons]
    rcases mem_cons.mp hl with rfl | hl
    · have hpos : 0 < l.count sep := count_pos_iff.mpr h
      have hle : ls.length ≤ (unlines sep ls).count sep := length_le_count_unlines ls
      omega
    · have hlt := ih hl
      omega

theorem notMem_of_splitOn_unlines {lines : List (List α)}
    (h : (unlines sep ls).splitOn sep = lines ++ [[]]) (hlength : lines.length = ls.length) :
    ∀ l ∈ ls, sep ∉ l := by
  intro l hl hsep
  -- each separator makes a line of its own, so there would be more lines than were written
  have hlt := length_lt_count_unlines hl hsep
  have hcount := congrArg length h
  rw [length_splitOn, length_append, length_singleton] at hcount
  omega

theorem splitOn_unlines_iff : (unlines sep ls).splitOn sep = ls ++ [[]] ↔ ∀ l ∈ ls, sep ∉ l := by
  constructor
  · exact fun h => notMem_of_splitOn_unlines h rfl
  · intro h
    simpa using splitOn_unlines_append h []

/-! ## Cutting at the first separator -/

def cut (sep : α) : List α → Option (List α × List α)
  | [] => none
  | a :: l => if a = sep then some ([], l) else (cut sep l).map fun p => (a :: p.1, p.2)

theorem cut_append_cons (h : sep ∉ l) (r : List α) : cut sep (l ++ sep :: r) = some (l, r) := by
  induction l with
  | nil => exact if_pos rfl
  | cons a l ih =>
    rw [mem_cons, not_or] at h
    rw [cons_append, cut, if_neg (Ne.symm h.1), ih h.2]
    rfl

/-! ## Lines made of fields -/

variable {α : Type} [DecidableEq α] {sep : α} {n : Nat} {l : List α} {fields : List (List α)}

/-- What `n` cuts at the first separators leave. -/
def cuts (sep : α) : Nat → List α → Option (List (List α))
  | 0, l => some [l]
  | n + 1, l => (cut sep l).bind fun p => (cuts sep n p.2).map (p.1 :: ·)

theorem cut_eq_some {a b : List α} (h : cut sep l = some (a, b)) : sep ∉ a := by
  induction l generalizing a b with
  | nil => cases h
  | cons x l ih =>
    rw [cut] at h
    split at h
    · cases h
      exact not_mem_nil
    · next hx =>
        obtain ⟨⟨a', b'⟩, hcut, heq⟩ := Option.map_eq_some_iff.mp h
        cases heq
        rw [mem_cons, not_or]
        exact ⟨Ne.symm hx, ih hcut⟩

theorem notMem_of_cuts (h : cuts sep n l = some fields) : ∀ f ∈ fields.dropLast, sep ∉ f := by
  induction n generalizing l fields with
  | zero =>
    cases h
    exact nofun
  | succ n ih =>
    obtain ⟨⟨a, b⟩, hcut, h⟩ := Option.bind_eq_some_iff.mp h
    obtain ⟨rest, hrest, rfl⟩ := Option.map_eq_some_iff.mp h
    intro f hf
    rcases rest with _ | ⟨r, rest⟩
    · cases hf
    · rw [dropLast_cons_cons] at hf
      rcases mem_cons.mp hf with rfl | hf
      · exact cut_eq_some hcut
      · exact ih hrest f hf

theorem cuts_record (hlength : fields.length = n + 1) (h : ∀ f ∈ fields.dropLast, sep ∉ f) :
    cuts sep n ([sep].intercalate fields) = some fields := by
  induction n generalizing fields with
  | zero =>
    obtain ⟨f, rfl⟩ := length_eq_one_iff.mp hlength
    rw [intercalate_singleton]
    rfl
  | succ n ih =>
    obtain ⟨f, rest, rfl⟩ := exists_cons_of_length_eq_add_one hlength
    obtain ⟨g, rest, rfl⟩ :=
      exists_cons_of_length_eq_add_one (Nat.succ.inj hlength)
    rw [dropLast_cons_cons, forall_mem_cons] at h
    have hrest := ih (Nat.succ.inj hlength) h.2
    rw [intercalate_cons_cons, append_assoc, singleton_append, cuts,
      cut_append_cons h.1]
    dsimp only [Option.bind_some]
    rw [hrest, Option.map_some]

end AwgMesh.Lib
