import AwgMesh.Lib.FileSystem

/-! # Filling a new directory -/

namespace AwgMesh.Lib.FileSystem

open Checks List

variable {ν β : Type} [DecidableEq ν] {s₀ s s' : FileSystem ν β} {root q : List ν} {x : ν}
  {n : Node β} {done es : List (List ν × Node β)} {perm : Nat} {ok : Bool}

structure Listing (es : List (List ν × Node β)) : Prop where
  nodup : (es.map Prod.fst).Nodup
  ne_nil : ∀ e ∈ es, e.1 ≠ []
  parent_first : ∀ {pre post x q n}, es = pre ++ (x :: q, n) :: post → q ≠ [] →
    ∃ m, (q, m) ∈ pre ∧ m.isDir = true

def fill (root : List ν) :
    List (List ν × Node β) → FileSystem ν β → Except OsError (FileSystem ν β)
  | [], s => .ok s
  | ([], _) :: _, _ => .error .exist
  | (x :: q, n) :: es, s => do
      let s' ← s.make x (q ++ root) n
      fill root es s'

structure Filled (s₀ : FileSystem ν β) (root : List ν) (done : List (List ν × Node β))
    (s : FileSystem ν β) : Prop where
  below : ∀ q, q ≠ [] → s.node (q ++ root) = done.lookup q
  elsewhere : ∀ p, (∀ q, q ≠ [] → p ≠ q ++ root) → s.node p = s₀.node p

theorem Filled.refl (h : ∀ q, q ≠ [] → s₀.node (q ++ root) = none) : Filled s₀ root [] s₀ :=
  ⟨h, fun _ _ => rfl⟩

section

variable (h : Filled s₀ root done s)

include h

theorem Filled.node_root : s.node root = s₀.node root :=
  h.elsewhere root fun _ hq heq => hq (self_eq_append_left.mp heq)

theorem Filled.node_eq_some (hkeys : (done.map Prod.fst).Nodup) (hq : q ≠ [])
    : s.node (q ++ root) = some n ↔ (q, n) ∈ done := by
  rw [h.below q hq, lookup_eq_some_iff_mem hkeys]

theorem Filled.snoc (hmake : s.make x (q ++ root) n = .ok s') :
    Filled s₀ root (done ++ [(x :: q, n)]) s' := by
  obtain ⟨hfree, -, hs'⟩ := make_eq_ok hmake
  constructor
  · intro r hr
    rw [hs', Function.update_apply, lookup_append]
    by_cases heq : r = x :: q
    · subst heq
      have hnone : done.lookup (x :: q) = none := (h.below (x :: q) hr).symm.trans hfree
      simp [hnone]
    · have hne : r ++ root ≠ (x :: q) ++ root := fun h' => heq (append_cancel_right h')
      rw [← cons_append, if_neg hne, h.below r hr, lookup_cons,
        beq_eq_false_iff_ne.mpr heq]
      simp
  · intro p hp
    have hne : p ≠ x :: (q ++ root) := hp (x :: q) (cons_ne_nil x q)
    rw [hs', Function.update_of_ne hne, h.elsewhere p hp]

theorem Filled.of_fill (hfill : fill root es s = .ok s') : Filled s₀ root (done ++ es) s' := by
  induction es generalizing done s with
  | nil =>
    cases hfill
    rwa [append_nil]
  | cons e es ih =>
    obtain ⟨_ | ⟨x, q⟩, n⟩ := e
    · cases hfill
    · obtain ⟨s₁, hmake, hrest⟩ := bind_eq_ok.mp hfill
      have hdone := ih (h.snoc hmake) hrest
      rwa [append_assoc, singleton_append] at hdone

end

def Ready (ok : Bool) (all : List (List ν × Node β)) (q : List ν) : Prop :=
  (q = [] → ok = true) ∧ ∀ perm ok', (q, .dir perm ok') ∈ all → ok' = true

section Turn

variable (hl : Listing (done ++ (x :: q, n) :: es)) (h : Filled s₀ root done s)

include hl h

theorem Filled.free : s.node (x :: (q ++ root)) = none := by
  have hkeys := hl.nodup
  rw [map_append, map_cons, nodup_append] at hkeys
  refine (h.below (x :: q) (cons_ne_nil x q)).trans ?_
  rw [lookup_eq_none_iff]
  intro e he
  rw [bne_iff_ne]
  exact fun heq => hkeys.2.2 e.1 (mem_map_of_mem he) (x :: q) (by simp) heq.symm

theorem Filled.parent (hroot : s₀.node root = some (.dir perm ok)) :
    ∃ perm' ok', s.node (q ++ root) = some (.dir perm' ok') ∧
      (ok' = true ↔ Ready ok (done ++ (x :: q, n) :: es) q) := by
  by_cases hq : q = []
  · subst hq
    have hnot : ∀ m, ([], m) ∉ done ++ (x :: [], n) :: es := fun m hm => hl.ne_nil _ hm rfl
    refine ⟨perm, ok, h.node_root.trans hroot, ?_⟩
    simp [Ready, hnot]
  · obtain ⟨m, hm, hdir⟩ := hl.parent_first rfl hq
    cases m with
    | file perm content => cases hdir
    | link leadsTo => cases hdir
    | dir perm' ok' =>
      have hkeys := hl.nodup
      rw [map_append, nodup_append] at hkeys
      refine ⟨perm', ok', (h.below q hq).trans ((lookup_eq_some_iff_mem hkeys.1).mpr hm), ?_⟩
      constructor
      · rintro rfl
        refine ⟨fun h' => absurd h' hq, fun perm'' ok'' hmem => ?_⟩
        have heq := inj_on_of_nodup_map hl.nodup hmem (mem_append_left _ hm) rfl
        cases heq
        rfl
      · rintro ⟨-, hall⟩
        exact hall perm' ok' (mem_append_left _ hm)

theorem exists_make_iff (hroot : s₀.node root = some (.dir perm ok)) :
    (∃ s', s.make x (q ++ root) n = .ok s') ↔ Ready ok (done ++ (x :: q, n) :: es) q := by
  obtain ⟨perm', ok', hnode, hready⟩ := h.parent hl hroot
  rw [← hready]
  constructor
  · rintro ⟨s', hs'⟩
    obtain ⟨-, ⟨perm'', hfill⟩, -⟩ := make_eq_ok hs'
    rw [hnode] at hfill
    cases hfill
    rfl
  · rintro rfl
    exact exists_make (h.free hl) ⟨perm', hnode⟩ n

end Turn

theorem exists_fill_iff_aux (hl : Listing (done ++ es))
    (hroot : s₀.node root = some (.dir perm ok)) (h : Filled s₀ root done s) :
    (∃ s', fill root es s = .ok s') ↔ ∀ x q n, (x :: q, n) ∈ es → Ready ok (done ++ es) q := by
  induction es generalizing done s with
  | nil => simp [fill]
  | cons e es ih =>
    obtain ⟨_ | ⟨x, q⟩, n⟩ := e
    · exact absurd rfl (hl.ne_nil ([], n) (by simp))
    · have hstep := exists_make_iff hl h hroot
      have happend : done ++ (x :: q, n) :: es = (done ++ [(x :: q, n)]) ++ es := by simp
      constructor
      · rintro ⟨s', hs'⟩ y r m hmem
        obtain ⟨s₁, hmake, hrest⟩ := bind_eq_ok.mp hs'
        rcases mem_cons.mp hmem with heq | hmem
        · cases heq
          exact hstep.mp ⟨s₁, hmake⟩
        · rw [happend]
          exact (ih (happend ▸ hl) (h.snoc hmake)).mp ⟨s', hrest⟩ y r m hmem
      · intro hall
        obtain ⟨s₁, hmake⟩ := hstep.mpr (hall x q n mem_cons_self)
        obtain ⟨s', hrest⟩ := (ih (happend ▸ hl) (h.snoc hmake)).mpr fun y r m hmem =>
          happend ▸ hall y r m (mem_cons_of_mem _ hmem)
        exact ⟨s', bind_eq_ok.mpr ⟨s₁, hmake, hrest⟩⟩

theorem exists_fill_iff (hl : Listing es) (hroot : s₀.node root = some (.dir perm ok))
    (hfree : ∀ q, q ≠ [] → s₀.node (q ++ root) = none) :
    (∃ s', fill root es s₀ = .ok s') ↔ ∀ x q n, (x :: q, n) ∈ es → Ready ok es q := by
  have hl' : Listing ([] ++ es) := hl
  exact exists_fill_iff_aux hl' hroot (.refl hfree)

omit [DecidableEq ν] in
theorem Listing.map {f : Node β → Node β} (hf : ∀ n, (f n).isDir = n.isDir) (hl : Listing es) :
    Listing (es.map fun e => (e.1, f e.2)) where
  nodup := by
    rw [map_map]
    exact hl.nodup
  ne_nil := by
    intro e he
    obtain ⟨d, hd, rfl⟩ := mem_map.mp he
    exact hl.ne_nil d hd
  parent_first := by
    intro pre post x q n heq hq
    obtain ⟨l₁, l₂, rfl, rfl, hl₂⟩ := map_eq_append_iff.mp heq
    obtain ⟨⟨p, m⟩, l₃, rfl, he, -⟩ := map_eq_cons_iff.mp hl₂
    obtain ⟨rfl, rfl⟩ := Prod.mk.inj he
    obtain ⟨d, hd, hdir⟩ := hl.parent_first rfl hq
    exact ⟨f d, mem_map.mpr ⟨(q, d), hd, rfl⟩, (hf d).trans hdir⟩

omit [DecidableEq ν] in
theorem Listing.first (hl : Listing es) (hne : es ≠ []) : ∃ x n, ([x], n) ∈ es := by
  obtain ⟨⟨_ | ⟨x, q⟩, n⟩, es, rfl⟩ := exists_cons_of_ne_nil hne
  · exact absurd rfl (hl.ne_nil _ mem_cons_self)
  · refine ⟨x, n, ?_⟩
    by_cases hq : q = []
    · rw [hq]
      exact mem_cons_self
    · obtain ⟨m, hm, -⟩ := hl.parent_first (nil_append _).symm hq
      exact absurd hm not_mem_nil

/-! ## The listing of a walk -/

section Walk

variable {κ : Type} [LinearOrder κ] {key : ν → κ} {skip : List ν}

def listing (key : ν → κ) (s : FileSystem ν β) (root skip : List ν) : List (List ν × Node β) :=
  ((s.walk key root).filter fun e => e.1 ≠ root ∧ e.1 ≠ skip).map fun e =>
    (e.1.take (e.1.length - root.length), e.2)

omit [DecidableEq ν] in
theorem take_append (q root : List ν) :
    (q ++ root).take ((q ++ root).length - root.length) = q := by
  rw [length_append, Nat.add_sub_cancel, take_left]

theorem mem_listing :
    (q, n) ∈ s.listing key root skip ↔ q ≠ [] ∧ q ++ root ≠ skip ∧ s.node (q ++ root) = some n := by
  unfold listing
  rw [mem_map]
  constructor
  · rintro ⟨⟨p, m⟩, hmem, heq⟩
    obtain ⟨hwalk, hne⟩ := mem_filter.mp hmem
    obtain ⟨⟨r, rfl⟩, hnode⟩ := mem_walk.mp hwalk
    rw [decide_eq_true_eq] at hne
    obtain ⟨hq, rfl⟩ := Prod.mk.inj heq
    rw [take_append] at hq
    subst hq
    refine ⟨?_, hne.2, hnode⟩
    rintro rfl
    exact hne.1 rfl
  · rintro ⟨hq, hskip, hnode⟩
    have hroot : q ++ root ≠ root := fun h => hq (append_left_eq_self.mp h)
    refine ⟨(q ++ root, n), mem_filter.mpr ⟨mem_walk.mpr ⟨⟨q, rfl⟩, hnode⟩, ?_⟩, ?_⟩
    · rw [decide_eq_true_eq]
      exact ⟨hroot, hskip⟩
    · rw [take_append]

theorem nodup_listing : ((s.listing key root skip).map Prod.fst).Nodup := by
  unfold listing
  rw [map_map]
  have hfst : (Prod.fst ∘ fun e : List ν × Node β => (e.1.take (e.1.length - root.length), e.2)) =
      (fun p => p.take (p.length - root.length)) ∘ Prod.fst := rfl
  rw [hfst, ← map_map]
  refine (nodup_walk.sublist (filter_sublist.map _)).map_on ?_
  have hsuffix : ∀ p ∈ ((s.walk key root).filter fun e => e.1 ≠ root ∧ e.1 ≠ skip).map Prod.fst,
      root <:+ p := by
    intro p hp
    obtain ⟨⟨p, m⟩, hmem, rfl⟩ := mem_map.mp hp
    exact (mem_walk.mp (mem_filter.mp hmem).1).1
  intro p hp p' hp' heq
  obtain ⟨r, rfl⟩ := hsuffix p hp
  obtain ⟨r', rfl⟩ := hsuffix p' hp'
  rw [take_append, take_append] at heq
  rw [heq]

theorem listing_eq_append {pre post : List (List ν × Node β)}
    (h : s.listing key root skip = pre ++ (q, n) :: post) :
    ∃ w w', s.walk key root = w ++ (q ++ root, n) :: w' ∧
      pre = (w.filter fun e => e.1 ≠ root ∧ e.1 ≠ skip).map fun e =>
        (e.1.take (e.1.length - root.length), e.2) := by
  obtain ⟨l₁, l₂, hfilter, hpre, hl₂⟩ := map_eq_append_iff.mp h
  obtain ⟨⟨p, m⟩, l₃, rfl, he, -⟩ := map_eq_cons_iff.mp hl₂
  obtain ⟨w₁, w₂, hwalk, hw₁, hw₂⟩ := filter_eq_append_iff.mp hfilter
  obtain ⟨a, b, rfl, ha, -, -⟩ := filter_eq_cons_iff.mp hw₂
  obtain ⟨⟨r, rfl⟩, -⟩ := mem_walk.mp (show (p, m) ∈ s.walk key root by simp [hwalk])
  obtain ⟨hr, rfl⟩ := Prod.mk.inj he
  rw [take_append] at hr
  subst hr
  refine ⟨w₁ ++ a, b, hwalk.trans (append_assoc w₁ a _).symm, ?_⟩
  rw [filter_append, filter_eq_nil_iff.mpr ha, append_nil, hw₁, hpre]

theorem Listing.of_walk (hskip : ¬ s.IsDir skip) : Listing (s.listing key root skip) where
  nodup := nodup_listing
  ne_nil := fun _ he => (mem_listing.mp he).1
  parent_first := by
    intro pre post x q n heq hq
    obtain ⟨w, w', hwalk, rfl⟩ := listing_eq_append heq
    -- The parent is met earlier in the walk, and it is neither the root nor what is skipped.
    obtain ⟨d, hd, hdir⟩ := walk_parent_first (⟨q, rfl⟩ : root <:+ q ++ root) hwalk
    have hdmem : (q ++ root, d) ∈ s.walk key root := by
      rw [hwalk]
      exact mem_append_left _ hd
    have hroot : q ++ root ≠ root := fun h => hq (append_left_eq_self.mp h)
    have hnotskip : q ++ root ≠ skip := by
      rintro rfl
      exact hskip (isDir_of_mem (node_eq_some.mp (mem_walk.mp hdmem).2) hdir)
    refine ⟨d, mem_map.mpr ⟨(q ++ root, d), mem_filter.mpr ⟨hd, ?_⟩, ?_⟩, hdir⟩
    · rw [decide_eq_true_eq]
      exact ⟨hroot, hnotskip⟩
    · rw [take_append]

end Walk

end AwgMesh.Lib.FileSystem
