import AwgMesh.Lib.Checks
import AwgMesh.Lib.Sorting
import Mathlib.Data.List.Infix
import Mathlib.Data.List.Lex
import Mathlib.Data.List.Nodup
import Mathlib.Logic.Function.Basic

/-! # File systems -/

namespace AwgMesh.Lib

inductive OsError where
  | exist
  | notExist
  | notDir
  | isDir
  | notEmpty
  | permission
  | invalid
  deriving DecidableEq

inductive Node (β : Type) where
  | file (perm : Nat) (content : β)
  | dir (perm : Nat) (fillable : Bool)
  | link (leadsTo : Option Bool)
  deriving DecidableEq

def Node.isDir {β : Type} : Node β → Bool
  | .dir .. => true
  | _ => false

structure Process where
  privileged : Bool
  umask : Nat

def Process.mayFill (proc : Process) (perm : Nat) : Bool :=
  proc.privileged || (perm &&& 0o300 == 0o300 && proc.umask &&& 0o300 == 0)

structure FileSystem (ν β : Type) where
  nodes : List (List ν × Node β)
  nodup : (nodes.map Prod.fst).Nodup
  parent : ∀ {x p n}, (x :: p, n) ∈ nodes → ∃ m, (p, m) ∈ nodes ∧ m.isDir = true

namespace FileSystem

open Checks Function List

variable {ν β : Type} [DecidableEq ν]

def node (s : FileSystem ν β) (p : List ν) : Option (Node β) := s.nodes.lookup p

def IsDir (s : FileSystem ν β) (p : List ν) : Prop := ∃ perm ok, s.node p = some (.dir perm ok)

def Fillable (s : FileSystem ν β) (p : List ν) : Prop := ∃ perm, s.node p = some (.dir perm true)

instance (s : FileSystem ν β) (p : List ν) : Decidable (s.IsDir p) :=
  match h : s.node p with
  | some (.dir perm ok) => .isTrue ⟨perm, ok, h⟩
  | some (.file _ _) => .isFalse fun ⟨_, _, h'⟩ => by rw [h] at h'; cases h'
  | some (.link _) => .isFalse fun ⟨_, _, h'⟩ => by rw [h] at h'; cases h'
  | none => .isFalse fun ⟨_, _, h'⟩ => by rw [h] at h'; cases h'

instance (s : FileSystem ν β) (p : List ν) : Decidable (s.Fillable p) :=
  match h : s.node p with
  | some (.dir perm true) => .isTrue ⟨perm, h⟩
  | some (.dir _ false) => .isFalse fun ⟨_, h'⟩ => by rw [h] at h'; cases h'
  | some (.file _ _) => .isFalse fun ⟨_, h'⟩ => by rw [h] at h'; cases h'
  | some (.link _) => .isFalse fun ⟨_, h'⟩ => by rw [h] at h'; cases h'
  | none => .isFalse fun ⟨_, h'⟩ => by rw [h] at h'; cases h'

variable {s s' : FileSystem ν β} {x : ν} {p q : List ν} {n : Node β}

theorem Fillable.isDir (h : s.Fillable p) : s.IsDir p := by
  obtain ⟨perm, h⟩ := h
  exact ⟨perm, true, h⟩

theorem IsDir.ne_none (h : s.IsDir p) : s.node p ≠ none := by
  obtain ⟨perm, ok, h⟩ := h
  simp [h]

/-! ## Looking up -/

theorem lookup_eq_some_iff_mem {κ α : Type} [BEq κ] [LawfulBEq κ] {l : List (κ × α)}
    (hl : (l.map Prod.fst).Nodup) {k : κ} {a : α} : l.lookup k = some a ↔ (k, a) ∈ l := by
  induction l with
  | nil => simp
  | cons e l ih =>
    obtain ⟨k', a'⟩ := e
    rw [map_cons, nodup_cons] at hl
    rw [lookup_cons, mem_cons]
    by_cases hk : k = k'
    · subst hk
      have hmem : (k, a) ∉ l := fun h => hl.1 (mem_map.mpr ⟨_, h, rfl⟩)
      simp [hmem, eq_comm]
    · rw [beq_eq_false_iff_ne.mpr hk]
      simp [hk, ih hl.2]

theorem node_eq_some : s.node p = some n ↔ (p, n) ∈ s.nodes := lookup_eq_some_iff_mem s.nodup

theorem node_eq_none : s.node p = none ↔ ∀ n, (p, n) ∉ s.nodes := by
  rw [Option.eq_none_iff_forall_ne_some]
  exact forall_congr' fun n => not_congr node_eq_some

theorem isDir_of_mem (h : (p, n) ∈ s.nodes) (hn : n.isDir = true) : s.IsDir p := by
  cases n with
  | dir perm ok => exact ⟨perm, ok, node_eq_some.mpr h⟩
  | file perm content => cases hn
  | link leadsTo => cases hn

theorem isDir_of_child (h : s.node (x :: p) ≠ none) : s.IsDir p := by
  obtain ⟨n, hn⟩ := Option.ne_none_iff_exists'.mp h
  obtain ⟨m, hm, hdir⟩ := s.parent (node_eq_some.mp hn)
  exact isDir_of_mem hm hdir

theorem exists_of_below (h : s.node (q ++ p) ≠ none) : s.node p ≠ none := by
  induction q with
  | nil => exact h
  | cons x q ih => exact ih (isDir_of_child h).ne_none

theorem isDir_of_below (hq : q ≠ []) (h : s.node (q ++ p) ≠ none) : s.IsDir p := by
  obtain ⟨q, x, rfl⟩ := eq_nil_or_concat q |>.resolve_left hq
  rw [concat_eq_append, append_assoc] at h
  exact isDir_of_child (exists_of_below h)

theorem node_below_none (h : s.node p = none) (q : List ν) : s.node (q ++ p) = none := by
  by_contra hq
  exact exists_of_below hq h

/-! ## New entries -/

def add (s : FileSystem ν β) (x : ν) (p : List ν) (n : Node β) (hdir : s.IsDir p)
    (hfree : s.node (x :: p) = none) : FileSystem ν β where
  nodes := (x :: p, n) :: s.nodes
  nodup := by
    simp_all [node_eq_none, nodup]
  parent := by
    intro y q m hmem
    rcases mem_cons.mp hmem with heq | hmem
    · cases heq
      obtain ⟨perm, ok, hp⟩ := hdir
      exact ⟨_, mem_cons_of_mem _ (node_eq_some.mp hp), rfl⟩
    · obtain ⟨m', hm', hisDir⟩ := s.parent hmem
      exact ⟨m', mem_cons_of_mem _ hm', hisDir⟩

theorem node_add (hdir : s.IsDir p) (hfree : s.node (x :: p) = none) :
    (s.add x p n hdir hfree).node = update s.node (x :: p) (some n) := by
  funext q
  unfold node add
  rw [lookup_cons, update_apply]
  by_cases hq : q = x :: p
  · simp [hq]
  · rw [if_neg hq, beq_eq_false_iff_ne.mpr hq]

def make (s : FileSystem ν β) (x : ν) (p : List ν) (n : Node β) :
    Except OsError (FileSystem ν β) :=
  if hfree : s.node (x :: p) = none then
    if hfill : s.Fillable p then .ok (s.add x p n hfill.isDir hfree)
    else .error (if s.IsDir p then .permission else .notDir)
  else .error .exist

theorem make_eq_ok (h : s.make x p n = .ok s') :
    s.node (x :: p) = none ∧ s.Fillable p ∧
      s'.node = update s.node (x :: p) (some n) := by
  unfold make at h
  split at h
  · next hfree =>
      split at h
      · next hfill =>
          cases h
          exact ⟨hfree, hfill, node_add hfill.isDir hfree⟩
      · cases h
  · cases h

theorem exists_make (hfree : s.node (x :: p) = none) (hfill : s.Fillable p) (n : Node β) :
    ∃ s', s.make x p n = .ok s' :=
  ⟨s.add x p n hfill.isDir hfree, by rw [make, dif_pos hfree, dif_pos hfill]⟩

def mkdirAll (proc : Process) (perm : Nat) (s : FileSystem ν β) :
    List ν → Except OsError (FileSystem ν β)
  | [] => if s.IsDir [] then .ok s else .error .notDir
  | x :: p =>
    match s.node (x :: p) with
    | some (.dir ..) | some (.link (some true)) => .ok s
    | some _ => .error .notDir
    | none => do
        let s' ← mkdirAll proc perm s p
        s'.make x p (.dir perm (proc.mayFill perm))

def withDirs (proc : Process) (perm : Nat) (s : FileSystem ν β) (p : List ν) :
    List ν → Option (Node β) := fun q =>
  if q <:+ p ∧ s.node q = none then some (.dir perm (proc.mayFill perm)) else s.node q

variable {proc : Process} {perm : Nat}

theorem withDirs_of_exists (h : s.node p ≠ none) : s.withDirs proc perm p = s.node := by
  funext q
  refine if_neg ?_
  rintro ⟨⟨r, rfl⟩, hq⟩
  exact exists_of_below h hq

theorem withDirs_cons (h : s.node (x :: p) = none) :
    s.withDirs proc perm (x :: p) =
      update (s.withDirs proc perm p) (x :: p) (some (.dir perm (proc.mayFill perm))) := by
  funext q
  rw [update_apply]
  unfold withDirs
  by_cases hq : q = x :: p
  · subst hq
    simp [h]
  · simp [suffix_cons_iff, hq]

theorem mkdirAll_eq_ok (h : mkdirAll proc perm s p = .ok s') :
    s'.node = s.withDirs proc perm p := by
  induction p generalizing s' with
  | nil =>
    unfold mkdirAll at h
    split at h
    · next hdir =>
        cases h
        rw [withDirs_of_exists hdir.ne_none]
    · cases h
  | cons x p ih =>
    unfold mkdirAll at h
    split at h
    · next hnode =>
        cases h
        rw [withDirs_of_exists (by simp [hnode])]
    · next hnode =>
        cases h
        rw [withDirs_of_exists (by simp [hnode])]
    · cases h
    · next hnode =>
        obtain ⟨s₁, hs₁, hmake⟩ := bind_eq_ok.mp h
        obtain ⟨-, -, hs'⟩ := make_eq_ok hmake
        rw [hs', ih hs₁, withDirs_cons hnode]

theorem mkdirAll_of_isDir (h : s.IsDir p) : mkdirAll proc perm s p = .ok s := by
  cases p with
  | nil => rw [mkdirAll, if_pos h]
  | cons x p =>
    obtain ⟨perm', ok, hnode⟩ := h
    rw [mkdirAll, hnode]

theorem mkdirAll_child (h : s.IsDir p) (hfree : s.node (x :: p) = none) :
    mkdirAll proc perm s (x :: p) = s.make x p (.dir perm (proc.mayFill perm)) := by
  rw [mkdirAll, hfree]
  simp only [mkdirAll_of_isDir h]
  rfl

def Room (s : FileSystem ν β) : List ν → Prop
  | [] => False
  | _ :: p => s.Fillable p ∨ s.node p = none ∧ s.Room p

theorem exists_mkdirAll (hroom : s.Room (x :: p)) (hfill : proc.mayFill perm = true) :
    ∃ s', mkdirAll proc perm s p = .ok s' ∧ s'.Fillable p := by
  induction p generalizing x with
  | nil =>
    rcases hroom with h | ⟨-, h⟩
    · exact ⟨s, mkdirAll_of_isDir h.isDir, h⟩
    · exact h.elim
  | cons y p ih =>
    rcases hroom with h | ⟨hnone, h⟩
    · exact ⟨s, mkdirAll_of_isDir h.isDir, h⟩
    · obtain ⟨s₁, hs₁, hfillable⟩ := ih h
      have hfree : s₁.node (y :: p) = none := by
        rw [mkdirAll_eq_ok hs₁, withDirs, if_neg ?_, hnone]
        rintro ⟨hsuffix, -⟩
        exact absurd hsuffix.length_le (by simp)
      obtain ⟨s₂, hs₂⟩ := exists_make hfree hfillable (.dir perm (proc.mayFill perm))
      refine ⟨s₂, ?_, perm, ?_⟩
      · rw [mkdirAll, hnone]
        simp only [hs₁]
        exact hs₂
      · rw [(make_eq_ok hs₂).2.2, update_self, hfill]

theorem room_mono (hroom : s.Room p)
    (h : ∀ q, q <:+ p → q ≠ p → s'.node q = s.node q ∨ s.node q = none ∧ s'.Fillable q) :
    s'.Room p := by
  induction p with
  | nil => exact hroom
  | cons x p ih =>
    have hp := h p (suffix_cons x p) (by simp)
    have hroom' : s.Room p → s'.Room p := fun hr => ih hr fun q hq hne =>
      h q (hq.trans (suffix_cons x p)) (by
        rintro rfl
        exact absurd hq.length_le (by simp))
    rcases hroom with ⟨perm, hperm⟩ | ⟨hnone, hr⟩
    · rcases hp with heq | ⟨hnone, -⟩
      · exact .inl ⟨perm, heq.trans hperm⟩
      · rw [hperm] at hnone
        cases hnone
    · rcases hp with heq | ⟨-, hfill⟩
      · exact .inr ⟨heq.trans hnone, hroom' hr⟩
      · exact .inl hfill

/-! ## Files -/

def rewrite (s : FileSystem ν β) (p : List ν) (perm : Nat) (old new : β)
    (hfile : s.node p = some (.file perm old)) : FileSystem ν β where
  nodes := s.nodes.map fun e => if e.1 = p then (p, .file perm new) else e
  nodup := by
    grind [nodup]
  parent := by
    intro x q m hmem
    obtain ⟨e, he, heq⟩ := mem_map.mp hmem
    have hkey : ∃ m', (x :: q, m') ∈ s.nodes := by
      by_cases hp : e.1 = p
      · rw [if_pos hp] at heq
        cases heq
        exact ⟨e.2, hp ▸ he⟩
      · rw [if_neg hp] at heq
        exact ⟨m, heq ▸ he⟩
    obtain ⟨m', hm'⟩ := hkey
    obtain ⟨d, hd, hisDir⟩ := s.parent hm'
    have hne : q ≠ p := by
      rintro rfl
      obtain ⟨perm', ok, hdir⟩ := isDir_of_mem hd hisDir
      rw [hfile] at hdir
      cases hdir
    exact ⟨d, mem_map.mpr ⟨(q, d), hd, by simp [hne]⟩, hisDir⟩

theorem node_rewrite {old new : β} (hfile : s.node p = some (.file perm old)) :
    (s.rewrite p perm old new hfile).node = update s.node p (some (.file perm new)) := by
  funext q
  rw [update_apply]
  have hmem : (p, Node.file perm old) ∈ s.nodes := node_eq_some.mp hfile
  by_cases hq : q = p
  · subst hq
    rw [if_pos rfl, node_eq_some]
    exact mem_map.mpr ⟨_, hmem, by simp⟩
  · rw [if_neg hq]
    ext n
    rw [node_eq_some, node_eq_some]
    constructor
    · intro h
      obtain ⟨e, he, heq⟩ := mem_map.mp h
      split at heq
      · cases heq
        exact absurd rfl hq
      · exact heq ▸ he
    · intro h
      exact mem_map.mpr ⟨_, h, by simp [hq]⟩

def writeFile (s : FileSystem ν β) (perm : Nat) (content : β) :
    List ν → Except OsError (FileSystem ν β)
  | [] => .error .isDir
  | x :: p =>
    match h : s.node (x :: p) with
    | none => s.make x p (.file perm content)
    | some (.file perm' old) => .ok (s.rewrite (x :: p) perm' old content h)
    | some (.dir ..) => .error .isDir
    | some (.link _) => .error .invalid

variable {content : β}

theorem writeFile_new (h : s.node (x :: p) = none) :
    s.writeFile perm content (x :: p) = s.make x p (.file perm content) := by
  rw [writeFile]
  split
  · rfl
  · next hnode => rw [h] at hnode; cases hnode
  · next hnode => rw [h] at hnode; cases hnode
  · next hnode => rw [h] at hnode; cases hnode

theorem writeFile_eq_ok (h : s.writeFile perm content p = .ok s') :
    p ≠ [] ∧ (s.node p = none ∨ ∃ perm' old, s.node p = some (.file perm' old)) ∧
      ∃ perm', s'.node = update s.node p (some (.file perm' content)) := by
  cases p with
  | nil => cases h
  | cons x p =>
    refine ⟨cons_ne_nil x p, ?_⟩
    rw [writeFile] at h
    split at h
    · next hnode => exact ⟨.inl hnode, perm, (make_eq_ok h).2.2⟩
    · next perm' old hnode =>
        cases h
        exact ⟨.inr ⟨perm', old, hnode⟩, perm', node_rewrite hnode⟩
    · cases h
    · cases h

/-! ## Removing and renaming -/

def removeAll (s : FileSystem ν β) (p : List ν) : FileSystem ν β where
  nodes := s.nodes.filter fun e => ¬ p <:+ e.1
  nodup := s.nodup.sublist (filter_sublist.map _)
  parent := by
    intro x q n hmem
    obtain ⟨hmem, hnot⟩ := mem_filter.mp hmem
    obtain ⟨m, hm, hdir⟩ := s.parent hmem
    refine ⟨m, mem_filter.mpr ⟨hm, ?_⟩, hdir⟩
    simp only [decide_eq_true_eq] at hnot ⊢
    exact fun h => hnot (h.trans (suffix_cons x q))

theorem node_removeAll : (s.removeAll p).node = fun q => if p <:+ q then none else s.node q := by
  funext q
  split
  · next h =>
      rw [node_eq_none]
      intro n hmem
      exact absurd h (by simpa using (mem_filter.mp hmem).2)
  · next h =>
      ext n
      rw [node_eq_some, node_eq_some]
      exact ⟨fun hmem => (mem_filter.mp hmem).1,
        fun hmem => mem_filter.mpr ⟨hmem, by simpa using h⟩⟩

def remove (s : FileSystem ν β) (p : List ν) : Except OsError (FileSystem ν β) :=
  if s.node p = none then .error .notExist
  else if ∃ e ∈ s.nodes, e.1 ≠ p ∧ p <:+ e.1 then .error .notEmpty
  else .ok (s.removeAll p)

def moved (a b q : List ν) : List ν := if a <:+ q then q.take (q.length - a.length) ++ b else q

theorem moved_append (a b r : List ν) : moved a b (r ++ a) = r ++ b := by
  rw [moved, if_pos (suffix_append r a), length_append, Nat.add_sub_cancel,
    take_left]

theorem moved_of_not {a b q : List ν} (h : ¬ a <:+ q) : moved a b q = q := if_neg h

def move (s : FileSystem ν β) (a : List ν) (y : ν) (p : List ν) (hdir : s.IsDir p)
    (hfree : s.node (y :: p) = none) (hout : ¬ a <:+ p) : FileSystem ν β where
  nodes := s.nodes.map fun e => (moved a (y :: p) e.1, e.2)
  nodup := by
    rw [map_map]
    have hkeys : (Prod.fst ∘ fun e : List ν × Node β => (moved a (y :: p) e.1, e.2)) =
        moved a (y :: p) ∘ Prod.fst := rfl
    rw [hkeys, ← map_map]
    refine s.nodup.map_on ?_
    -- Nothing exists at or below the new place, so what is moved there cannot meet what is not.
    have hapart : ∀ q r, q ∈ s.nodes.map Prod.fst → q ≠ r ++ y :: p := by
      rintro q r hq rfl
      obtain ⟨e, he, hkey⟩ := mem_map.mp hq
      exact node_eq_none.mp (node_below_none hfree r) e.2 (hkey ▸ he)
    intro q₁ h₁ q₂ h₂ heq
    by_cases hs₁ : a <:+ q₁ <;> by_cases hs₂ : a <:+ q₂
    · obtain ⟨r₁, rfl⟩ := hs₁
      obtain ⟨r₂, rfl⟩ := hs₂
      rw [moved_append, moved_append] at heq
      rw [append_cancel_right heq]
    · obtain ⟨r₁, rfl⟩ := hs₁
      rw [moved_append, moved_of_not hs₂] at heq
      exact absurd heq.symm (hapart q₂ r₁ h₂)
    · obtain ⟨r₂, rfl⟩ := hs₂
      rw [moved_of_not hs₁, moved_append] at heq
      exact absurd heq (hapart q₁ r₂ h₁)
    · rwa [moved_of_not hs₁, moved_of_not hs₂] at heq
  parent := by
    intro x q n hmem
    obtain ⟨⟨k, m⟩, hk, heq⟩ := mem_map.mp hmem
    obtain ⟨hkey, rfl⟩ := Prod.mk.inj heq
    have hstay : ∀ {d}, (q, d) ∈ s.nodes → ¬ a <:+ q →
        (q, d) ∈ s.nodes.map fun e => (moved a (y :: p) e.1, e.2) := fun hd hnot =>
      mem_map.mpr ⟨_, hd, by rw [moved_of_not hnot]⟩
    by_cases hs : a <:+ k
    · obtain ⟨r, rfl⟩ := hs
      rw [moved_append] at hkey
      cases r with
      | nil =>
        cases hkey
        obtain ⟨perm, ok, hp⟩ := hdir
        exact ⟨_, hstay (node_eq_some.mp hp) hout, rfl⟩
      | cons z r =>
        obtain ⟨rfl, rfl⟩ := cons.inj hkey
        obtain ⟨d, hd, hisDir⟩ := s.parent (x := z) (p := r ++ a) hk
        exact ⟨d, mem_map.mpr ⟨(r ++ a, d), hd, by rw [moved_append]; rfl⟩, hisDir⟩
    · rw [moved_of_not hs] at hkey
      subst hkey
      obtain ⟨d, hd, hisDir⟩ := s.parent hk
      exact ⟨d, hstay hd fun h => hs (h.trans (suffix_cons x q)), hisDir⟩

variable {a : List ν} {y : ν}

theorem node_move (hdir : s.IsDir p) (hfree : s.node (y :: p) = none)
    (hout : ¬ a <:+ p) (r : List ν) :
    (s.move a y p hdir hfree hout).node (r ++ y :: p) = s.node (r ++ a) := by
  ext n
  rw [node_eq_some, node_eq_some]
  constructor
  · intro h
    obtain ⟨⟨k, m⟩, hk, heq⟩ := mem_map.mp h
    obtain ⟨hkey, rfl⟩ := Prod.mk.inj heq
    by_cases hs : a <:+ k
    · obtain ⟨r', rfl⟩ := hs
      rw [moved_append] at hkey
      rwa [← append_cancel_right hkey]
    · rw [moved_of_not hs] at hkey
      subst hkey
      exact absurd hk (node_eq_none.mp (node_below_none hfree r) m)
  · intro h
    exact mem_map.mpr ⟨_, h, by rw [moved_append]⟩

theorem node_move_of_not (hdir : s.IsDir p) (hfree : s.node (y :: p) = none)
    (hout : ¬ a <:+ p) (hq : ¬ y :: p <:+ q) :
    (s.move a y p hdir hfree hout).node q = if a <:+ q then none else s.node q := by
  have hkey : ∀ {k : List ν}, moved a (y :: p) k = q → ¬ a <:+ k ∧ k = q := by
    intro k hk
    by_cases hs : a <:+ k
    · obtain ⟨r, rfl⟩ := hs
      rw [moved_append] at hk
      exact absurd ⟨r, hk⟩ hq
    · exact ⟨hs, moved_of_not hs ▸ hk⟩
  split
  · next h =>
      rw [node_eq_none]
      intro n hmem
      obtain ⟨⟨k, m⟩, -, heq⟩ := mem_map.mp hmem
      obtain ⟨hnot, rfl⟩ := hkey (Prod.mk.inj heq).1
      exact hnot h
  · next h =>
      ext n
      rw [node_eq_some, node_eq_some]
      constructor
      · intro hmem
        obtain ⟨⟨k, m⟩, hk, heq⟩ := mem_map.mp hmem
        obtain ⟨hk', rfl⟩ := Prod.mk.inj heq
        obtain ⟨-, rfl⟩ := hkey hk'
        exact hk
      · intro hmem
        exact mem_map.mpr ⟨_, hmem, by rw [moved_of_not h]⟩

def rename (s : FileSystem ν β) (a : List ν) : List ν → Except OsError (FileSystem ν β)
  | [] => .error .exist
  | y :: p =>
    if s.node a = none then .error .notExist
    else if hout : a <:+ p then .error .invalid
    else if hfree : s.node (y :: p) = none then
      if hfill : s.Fillable p then
        if s.Fillable a.tail then .ok (s.move a y p hfill.isDir hfree hout)
        else .error .permission
      else .error (if s.IsDir p then .permission else .notDir)
    else .error .exist

theorem rename_eq_ok (h : s.rename a (y :: p) = .ok s') :
    (∀ r, s'.node (r ++ y :: p) = s.node (r ++ a)) ∧
      ∀ q, ¬ y :: p <:+ q → s'.node q = if a <:+ q then none else s.node q := by
  rw [rename] at h
  split at h
  · cases h
  split at h
  · cases h
  next hout =>
  split at h
  · next hfree =>
      split at h
      · next hfill =>
          split at h
          · cases h
            exact ⟨node_move hfill.isDir hfree hout,
              fun q hq => node_move_of_not hfill.isDir hfree hout hq⟩
          · cases h
      · cases h
  · cases h

theorem exists_rename (ha : s.node a ≠ none) (hout : ¬ a <:+ p)
    (hfree : s.node (y :: p) = none) (hfill : s.Fillable p) (hfrom : s.Fillable a.tail) :
    ∃ s', s.rename a (y :: p) = .ok s' :=
  ⟨s.move a y p hfill.isDir hfree hout, by
    rw [rename, if_neg ha, dif_neg hout, dif_pos hfree, dif_pos hfill, if_pos hfrom]⟩

/-! ## Walking a tree -/

section Walk

variable {κ : Type} [LinearOrder κ] {key : ν → κ} {root : List ν}

def walk (key : ν → κ) (s : FileSystem ν β) (root : List ν) : List (List ν × Node β) :=
  (Sorter.stable fun e : List ν × Node β => e.1.reverse.map key).sort
    (s.nodes.filter fun e => root <:+ e.1)

theorem mem_walk : (p, n) ∈ s.walk key root ↔ root <:+ p ∧ s.node p = some n := by
  rw [walk, (Sorter.perm _ _).mem_iff, mem_filter, node_eq_some, decide_eq_true_eq, and_comm]

theorem nodup_walk : ((s.walk key root).map Prod.fst).Nodup := by
  rw [walk, ((Sorter.perm _ _).map Prod.fst).nodup_iff]
  exact s.nodup.sublist (filter_sublist.map _)

theorem walk_parent_first {pre post : List (List ν × Node β)} (hroot : root <:+ p)
    (h : s.walk key root = pre ++ (x :: p, n) :: post) : ∃ m, (p, m) ∈ pre ∧ m.isDir = true := by
  have hmem : (x :: p, n) ∈ s.walk key root := by simp [h]
  have hexists : s.node (x :: p) ≠ none := by simp [(mem_walk.mp hmem).2]
  obtain ⟨perm, ok, hp⟩ := isDir_of_child hexists
  have hpmem : (p, Node.dir perm ok) ∈ s.walk key root := mem_walk.mpr ⟨hroot, hp⟩
  refine ⟨.dir perm ok, ?_, rfl⟩
  rw [h, mem_append, mem_cons] at hpmem
  rcases hpmem with hpre | heq | hpost
  · exact hpre
  · exact absurd (congrArg (fun e => e.1.length) heq) (by simp)
  · -- The names of the parent begin those of the entry, so they cannot come later.
    have hordered := Sorter.ordered (Sorter.stable fun e : List ν × Node β => e.1.reverse.map key)
      (s.nodes.filter fun e => root <:+ e.1)
    change (s.walk key root).Pairwise _ at hordered
    rw [h, pairwise_append, pairwise_cons] at hordered
    have hle := hordered.2.1.1 _ hpost
    have hlt : p.reverse.map key < (x :: p).reverse.map key := by
      have hnil : Lex (· < ·) [] [key x] := .nil
      have hlex := hnil.append_left (· < ·) (p.reverse.map key)
      rwa [append_nil, ← map_singleton, ← map_append, ← reverse_cons] at hlex
    exact absurd hle (not_le_of_gt hlt)

end Walk

end FileSystem

end AwgMesh.Lib
