import AwgMesh.Lib.FileSystem

/-! # Replacing files -/

namespace AwgMesh.Lib

def Node.leadsToDir {β : Type} : Node β → Bool
  | .dir .. => true
  | .link (some true) => true
  | _ => false

namespace FileSystem

open Checks Function List

variable {ν β : Type} [DecidableEq ν]

def seen (s : FileSystem ν β) (p : List ν) : Option (Node β) :=
  match s.node p with
  | some (.link none) => none
  | n => n

def IsFile (s : FileSystem ν β) (p : List ν) : Prop := ∃ n, s.seen p = some n ∧ n.leadsToDir = false

def Stuck (s : FileSystem ν β) (p : List ν) : Prop :=
  ∃ q, q ≠ p ∧ p <:+ q ∧ s.node q ≠ none

variable {s s' t : FileSystem ν β} {x y : ν} {a p q : List ν} {n : Node β}

theorem seen_congr (h : t.node p = s.node q) : t.seen p = s.seen q := by
  unfold seen
  rw [h]

theorem seen_eq_some (h : s.seen p = some n) : s.node p = some n := by
  unfold seen at h
  split at h
  · cases h
  · exact h

theorem seen_of_node_eq_none (h : s.node p = none) : s.seen p = none := by
  unfold seen
  rw [h]

theorem leaf_of_seen_none (h : s.seen p = none) (hn : s.node p = some n) : n.isDir = false := by
  unfold seen at h
  split at h
  · next hlink =>
      cases hlink.symm.trans hn
      rfl
  · cases hn.symm.trans h

theorem node_below_leaf (h : s.node p = some n) (hn : n.isDir = false) (hq : q ≠ p)
    (hsuffix : p <:+ q) : s.node q = none := by
  obtain ⟨r, rfl⟩ := hsuffix
  by_contra hne
  have hr : r ≠ [] := by
    rintro rfl
    exact hq rfl
  obtain ⟨perm, ok, hdir⟩ := isDir_of_below hr hne
  rw [h] at hdir
  cases hdir
  cases hn

theorem Stuck.isDir (h : s.Stuck p) : s.IsDir p := by
  obtain ⟨q, hq, ⟨r, rfl⟩, hnode⟩ := h
  refine isDir_of_below ?_ hnode
  rintro rfl
  exact hq rfl

theorem isDir_eq_false (h : n.leadsToDir = false) : n.isDir = false := by
  cases n with
  | dir perm ok => cases h
  | file perm content => rfl
  | link leadsTo => rfl

/-! ## Putting something in place -/

def put (s : FileSystem ν β) (x : ν) (p : List ν) (n : Node β) (hdir : s.IsDir p) :
    FileSystem ν β :=
  (s.removeAll (x :: p)).add x p n
    (by
      obtain ⟨perm, ok, hp⟩ := hdir
      refine ⟨perm, ok, ?_⟩
      rw [node_removeAll]
      dsimp only
      rw [if_neg (fun h => absurd h.length_le (by simp)), hp])
    (by
      rw [node_removeAll]
      exact if_pos (suffix_refl _))

theorem node_put (hdir : s.IsDir p) (hleaf : ∀ m, s.node (x :: p) = some m → m.isDir = false) :
    (s.put x p n hdir).node = update s.node (x :: p) (some n) := by
  unfold put
  rw [node_add, node_removeAll]
  funext q
  by_cases hq : q = x :: p
  · rw [hq, update_self, update_self]
  · rw [update_of_ne hq, update_of_ne hq]
    split
    · next hsuffix =>
        -- nothing is below what is replaced
        cases hnode : s.node (x :: p) with
        | none =>
          obtain ⟨r, rfl⟩ := hsuffix
          exact (node_below_none hnode r).symm
        | some m => exact (node_below_leaf hnode (hleaf m hnode) hq hsuffix).symm
    · rfl

def update (s : FileSystem ν β) (f : Nat → β → Nat × β) :
    List ν → Except OsError (FileSystem ν β)
  | [] => .error .isDir
  | x :: p =>
    match h : s.node (x :: p) with
    | none => .error .notExist
    | some (.file perm content) =>
      .ok (s.put x p (.file (f perm content).1 (f perm content).2)
        (isDir_of_child (by rw [h]; exact Option.some_ne_none _)))
    | some (.dir ..) => .error .isDir
    | some (.link _) => .error .invalid

theorem update_eq_ok {f : Nat → β → Nat × β} (h : s.update f p = .ok s') :
    ∃ perm content, s.node p = some (.file perm content) ∧ s'.node = Function.update s.node p
        (some (.file (f perm content).1 (f perm content).2)) := by
  cases p with
  | nil => cases h
  | cons x p =>
    rw [update] at h
    split at h
    · cases h
    · next perm content hnode =>
        cases h
        refine ⟨perm, content, hnode, node_put _ ?_⟩
        intro m hm
        rw [hnode] at hm
        cases hm
        rfl
    · cases h
    · cases h

theorem exists_update {perm : Nat} {content : β} (h : s.node (x :: p) = some (.file perm content))
    (f : Nat → β → Nat × β) : ∃ s', s.update f (x :: p) = .ok s' := by
  rw [update]
  split
  · next hnode =>
      rw [h] at hnode
      cases hnode
  · exact ⟨_, rfl⟩
  · next hnode =>
      rw [h] at hnode
      cases hnode
  · next hnode =>
      rw [h] at hnode
      cases hnode

/-! ## Removing -/

theorem remove_eq_ok (h : s.remove p = .ok s') :
    s.node p ≠ none ∧ ¬ s.Stuck p ∧ s'.node = Function.update s.node p none := by
  unfold remove at h
  split at h
  · cases h
  split at h
  · cases h
  next hnode hempty =>
  cases h
  have hstuck : ¬ s.Stuck p := by
    rintro ⟨q, hq, hsuffix, hne⟩
    obtain ⟨n, hn⟩ := Option.ne_none_iff_exists'.mp hne
    exact hempty ⟨(q, n), node_eq_some.mp hn, hq, hsuffix⟩
  refine ⟨hnode, hstuck, ?_⟩
  rw [node_removeAll]
  funext q
  by_cases hq : q = p
  · rw [hq, Function.update_self, if_pos (suffix_refl p)]
  · rw [Function.update_of_ne hq]
    split
    · next hsuffix =>
        by_contra hne
        exact hstuck ⟨q, hq, hsuffix, fun h => hne h.symm⟩
    · rfl

theorem exists_remove (h : s.node p ≠ none) (hstuck : ¬ s.Stuck p) : ∃ s', s.remove p = .ok s' := by
  unfold remove
  rw [if_neg h, if_neg ?_]
  · exact ⟨_, rfl⟩
  · rintro ⟨⟨q, n⟩, hmem, hq, hsuffix⟩
    refine hstuck ⟨q, hq, hsuffix, ?_⟩
    rw [node_eq_some.mpr hmem]
    exact Option.some_ne_none n

theorem not_stuck_of_leaf (h : ∀ m, s.node p = some m → m.isDir = false) : ¬ s.Stuck p := by
  intro hstuck
  obtain ⟨perm, ok, hdir⟩ := hstuck.isDir
  cases h _ hdir

/-! ## Renaming -/

def replace (s : FileSystem ν β) (a : List ν) : List ν → Except OsError (FileSystem ν β)
  | [] => .error .exist
  | y :: p =>
    match s.node a with
    | none => .error .notExist
    | some n =>
      if n.isDir then .error .isDir
      else if a = y :: p then .ok s
      else if (s.node (y :: p)).any Node.isDir then .error .exist
      else if hout : a <:+ p then .error .invalid
      else if hfill : s.Fillable p then
        if s.Fillable a.tail then
          .ok ((s.removeAll a).put y p n
            (by
              obtain ⟨perm, hp⟩ := hfill
              refine ⟨perm, true, ?_⟩
              rw [node_removeAll]
              dsimp only
              rw [if_neg hout, hp]))
        else .error .permission
      else .error (if s.IsDir p then .permission else .notDir)

theorem replace_eq_ok (h : s.replace a q = .ok s') (hne : a ≠ q) :
    ∃ n, s.node a = some n ∧ n.isDir = false ∧ (∀ m, s.node q = some m → m.isDir = false) ∧
      s'.node = Function.update (Function.update s.node a none) q (some n) := by
  cases q with
  | nil => cases h
  | cons y p =>
    rw [replace] at h
    split at h
    · cases h
    next n hnode =>
    split at h
    · cases h
    next hleaf =>
    split at h
    · cases h
    next htarget =>
    split at h
    · cases h
    split at h
    · split at h
      · cases h
        have hn : n.isDir = false := Bool.not_eq_true _ ▸ hleaf
        have hq : ∀ m, s.node (y :: p) = some m → m.isDir = false := by
          intro m hm
          rw [hm, Option.any_some] at htarget
          exact Bool.not_eq_true _ ▸ htarget
        have hgone : (s.removeAll a).node = Function.update s.node a none := by
          rw [node_removeAll]
          funext r
          by_cases hr : r = a
          · rw [hr, Function.update_self, if_pos (suffix_refl a)]
          · rw [Function.update_of_ne hr]
            split
            · next hsuffix => exact (node_below_leaf hnode hn hr hsuffix).symm
            · rfl
        refine ⟨n, hnode, hn, hq, ?_⟩
        rw [node_put, hgone]
        intro m hm
        rw [hgone, Function.update_of_ne hne.symm] at hm
        exact hq m hm
      · cases h
    · cases h

structure Movable (s : FileSystem ν β) (a b : List ν) : Prop where
  leaf : ∃ n, s.node a = some n ∧ n.isDir = false
  target : ∀ m, s.node b = some m → m.isDir = false
  proper : b ≠ []
  source : s.Fillable a.tail
  fills : s.Fillable b.tail

theorem Movable.exists_replace {b : List ν} (h : s.Movable a b) : ∃ s', s.replace a b = .ok s' := by
  obtain ⟨⟨n, hnode, hleaf⟩, htarget, hproper, hfrom, hfill⟩ := h
  obtain ⟨y, p, rfl⟩ := exists_cons_of_ne_nil hproper
  rw [tail_cons] at hfill
  have hany : (s.node (y :: p)).any Node.isDir = false := by
    cases hm : s.node (y :: p) with
    | none => rfl
    | some m => exact htarget m hm
  have hout : ¬ a <:+ p := by
    intro hsuffix
    by_cases heq : p = a
    · obtain ⟨perm, hp⟩ := hfill
      rw [heq, hnode] at hp
      cases hp
      cases hleaf
    · exact hfill.isDir.ne_none (node_below_leaf hnode hleaf heq hsuffix)
  rw [replace, hnode]
  dsimp only
  rw [if_neg (by simp [hleaf])]
  by_cases heq : a = y :: p
  · exact ⟨s, if_pos heq⟩
  · rw [if_neg heq, if_neg (by simp [hany]), dif_neg hout, dif_pos hfill, if_pos hfrom]
    exact ⟨_, rfl⟩

/-! ## Making directories for two files -/

section Making

variable {proc : Process} {perm : Nat} {c d : List ν}

def Makes (proc : Process) (perm : Nat) (s : FileSystem ν β) (p : List ν) : Prop :=
  ∃ s', mkdirAll proc perm s p = .ok s'

def Writable (proc : Process) (perm : Nat) (s : FileSystem ν β) (p : List ν) : Prop :=
  p ≠ [] ∧ ∃ s', mkdirAll proc perm s p.tail = .ok s' ∧ s'.Fillable p.tail

def FillsOnceMade (proc : Process) (perm : Nat) (s : FileSystem ν β) (p : List ν) : Prop :=
  ∃ perm', s.withDirs proc perm p p = some (.dir perm' true)

theorem makes_of_exists (h : s.node (x :: p) ≠ none) : s.Makes proc perm p :=
  ⟨s, mkdirAll_of_isDir (isDir_of_child h)⟩

theorem makes_nil_iff : s.Makes proc perm [] ↔ s.IsDir [] := by
  unfold Makes mkdirAll
  constructor
  · rintro ⟨s', hs'⟩
    split at hs'
    · assumption
    · cases hs'
  · exact fun hdir => ⟨s, if_pos hdir⟩

theorem makes_cons_iff : s.Makes proc perm (x :: p) ↔
    (∃ n, s.node (x :: p) = some n ∧ n.leadsToDir = true) ∨
      s.node (x :: p) = none ∧ s.Makes proc perm p ∧ s.FillsOnceMade proc perm p := by
  unfold Makes
  cases hnode : s.node (x :: p) with
  | some n =>
    cases n with
    | dir perm' ok => simp [mkdirAll, hnode, Node.leadsToDir]
    | file perm' content => simp [mkdirAll, hnode, Node.leadsToDir]
    | link leadsTo =>
      rcases leadsTo with _ | (_ | _) <;> simp [mkdirAll, hnode, Node.leadsToDir]
  | none =>
    have hfree : ∀ s₁, mkdirAll proc perm s p = .ok s₁ → s₁.node (x :: p) = none := by
      intro s₁ hs₁
      rw [mkdirAll_eq_ok hs₁, withDirs, if_neg ?_, hnode]
      rintro ⟨hsuffix, -⟩
      exact absurd hsuffix.length_le (by simp)
    constructor
    · rintro ⟨s', hs'⟩
      rw [mkdirAll, hnode] at hs'
      obtain ⟨s₁, hs₁, hmake⟩ := bind_eq_ok.mp hs'
      obtain ⟨-, ⟨perm', hfill⟩, -⟩ := make_eq_ok hmake
      refine .inr ⟨rfl, ⟨s₁, hs₁⟩, perm', ?_⟩
      rw [← mkdirAll_eq_ok hs₁, hfill]
    · rintro (⟨n, hn, -⟩ | ⟨-, ⟨s₁, hs₁⟩, perm', hfill⟩)
      · cases hn
      · have hfillable : s₁.Fillable p := ⟨perm', by rw [mkdirAll_eq_ok hs₁, hfill]⟩
        obtain ⟨s', hmake⟩ := exists_make (hfree s₁ hs₁) hfillable (.dir perm (proc.mayFill perm))
        refine ⟨s', ?_⟩
        rw [mkdirAll, hnode]
        exact bind_eq_ok.mpr ⟨s₁, hs₁, hmake⟩

theorem Makes.tail (h : s.Makes proc perm (x :: p)) : s.Makes proc perm p := by
  rcases makes_cons_iff.mp h with ⟨n, hn, -⟩ | ⟨-, hp, -⟩
  · exact makes_of_exists (x := x) (by simp [hn])
  · exact hp

theorem Makes.suffix (h : s.Makes proc perm d) (hsuffix : q <:+ d) : s.Makes proc perm q := by
  induction d with
  | nil =>
    cases suffix_nil.mp hsuffix
    exact h
  | cons x d ih =>
    rcases suffix_cons_iff.mp hsuffix with rfl | hsuffix
    · exact h
    · exact ih h.tail hsuffix

theorem withDirs_again (h : t.node q = s.withDirs proc perm d q) :
    t.withDirs proc perm c q = if q <:+ c ∧ s.node q = none then
      some (.dir perm (proc.mayFill perm)) else s.withDirs proc perm d q := by
  unfold withDirs at h ⊢
  rw [h]
  by_cases hnone : s.node q = none
  · by_cases hc : q <:+ c
    · by_cases hd : q <:+ d <;> simp [hnone, hc, hd]
    · simp [hc]
  · simp [hnone]

theorem makes_again (hd : s.Makes proc perm d)
    (ht : ∀ q, q <:+ c → t.node q = s.withDirs proc perm d q) :
    t.Makes proc perm c ↔ s.Makes proc perm c := by
  induction c with
  | nil =>
    obtain ⟨perm', ok, hroot⟩ := makes_nil_iff.mp (hd.suffix nil_suffix)
    have htroot : t.node [] = s.node [] := by
      rw [ht [] (suffix_refl _), withDirs, if_neg (by simp [hroot])]
    rw [makes_nil_iff, makes_nil_iff, IsDir, IsDir, htroot]
  | cons x c ih =>
    have hc := ih fun q hq => ht q (hq.trans (suffix_cons x c))
    have hx := ht (x :: c) (suffix_refl _)
    have hfills : t.FillsOnceMade proc perm c ↔ s.FillsOnceMade proc perm c := by
      unfold FillsOnceMade
      rw [withDirs_again (ht c (suffix_cons x c))]
      unfold withDirs
      by_cases hnone : s.node c = none <;> simp [hnone]
    rw [makes_cons_iff, makes_cons_iff, hx, hc, hfills]
    unfold withDirs
    by_cases hnew : x :: c <:+ d ∧ s.node (x :: c) = none
    · have hmakes := makes_cons_iff.mp (hd.suffix hnew.1)
      rw [if_pos hnew]
      constructor
      · exact fun _ => hmakes
      · exact fun _ => .inl ⟨_, rfl, rfl⟩
    · rw [if_neg hnew]

theorem writable_again (hd : s.Makes proc perm d)
    (ht : ∀ q, q <:+ p.tail → t.node q = s.withDirs proc perm d q) :
    t.Writable proc perm p ↔ s.Writable proc perm p := by
  have hnode := withDirs_again (c := p.tail) (ht p.tail (suffix_refl _))
  have hsame : t.withDirs proc perm p.tail p.tail = s.withDirs proc perm p.tail p.tail := by
    rw [hnode]
    unfold withDirs
    by_cases hnone : s.node p.tail = none <;> simp [hnone]
  unfold Writable Fillable
  refine and_congr_right fun _ => ?_
  constructor
  · rintro ⟨t', ht', perm', hfill⟩
    obtain ⟨s', hs'⟩ := (makes_again hd ht).mp ⟨t', ht'⟩
    refine ⟨s', hs', perm', ?_⟩
    rw [mkdirAll_eq_ok hs', ← hsame, ← mkdirAll_eq_ok ht', hfill]
  · rintro ⟨s', hs', perm', hfill⟩
    obtain ⟨t', ht'⟩ := (makes_again hd ht).mpr ⟨s', hs'⟩
    refine ⟨t', ht', perm', ?_⟩
    rw [mkdirAll_eq_ok ht', hsame, ← mkdirAll_eq_ok hs', hfill]

end Making

end FileSystem

end AwgMesh.Lib
