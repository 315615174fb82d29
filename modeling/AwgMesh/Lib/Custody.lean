import Mathlib.Data.List.Count

/-! # Custody of resources -/

namespace AwgMesh.Lib

open List

inductive Use (τ : Type) where
  | given (t : τ)
  | disposed (t : τ)

namespace Use

variable {τ : Type}

def givens (log : List (Use τ)) : List τ :=
  log.filterMap fun | .given t => some t | .disposed _ => none

def disposals (log : List (Use τ)) : List τ :=
  log.filterMap fun | .given _ => none | .disposed t => some t

theorem givens_append (log log' : List (Use τ)) :
    givens (log ++ log') = givens log ++ givens log' :=
  filterMap_append

theorem disposals_append (log log' : List (Use τ)) :
    disposals (log ++ log') = disposals log ++ disposals log' := filterMap_append

def Balanced (before : List τ) (log : List (Use τ)) (after : List τ) : Prop :=
  (before ++ givens log).Perm (disposals log ++ after)

namespace Balanced

variable {a b c : List τ} {log log' : List (Use τ)}

theorem refl (a : List τ) : Balanced a [] a := by
  simp [Balanced, givens, disposals]

theorem trans (h : Balanced a log b) (h' : Balanced b log' c) : Balanced a (log ++ log') c := by
  have hgivens : a ++ givens (log ++ log') = (a ++ givens log) ++ givens log' := by
    rw [givens_append, append_assoc]
  have hdisposals : disposals (log ++ log') ++ c = disposals log ++ (disposals log' ++ c) := by
    rw [disposals_append, append_assoc]
  have hfirst : ((a ++ givens log) ++ givens log').Perm (disposals log ++ (b ++ givens log')) := by
    rw [← append_assoc]
    exact Perm.append_right _ h
  show (a ++ givens (log ++ log')).Perm (disposals (log ++ log') ++ c)
  rw [hgivens, hdisposals]
  exact hfirst.trans (Perm.append_left _ h')

theorem keep (t : τ) (a : List τ) : Balanced a [.given t] (t :: a) :=
  perm_append_singleton t a

theorem dispose (t : τ) (a : List τ) : Balanced (t :: a) [.disposed t] a := by
  simp [Balanced, givens, disposals]

theorem disposeAll {l : List τ} (h : a.Perm l) : Balanced a (l.map .disposed) [] := by
  have hgivens : givens (l.map .disposed) = [] := by
    rw [givens, filterMap_map]
    exact filterMap_eq_nil_iff.mpr fun _ _ => rfl
  have hdisposals : disposals (l.map .disposed) = l := by
    rw [disposals, filterMap_map]
    exact filterMap_some
  rw [Balanced, hgivens, hdisposals, append_nil, append_nil]
  exact h

theorem pass (t : τ) (a : List τ) : Balanced a [.given t, .disposed t] a :=
  (keep t a).trans (dispose t a)

theorem perm (h : Balanced a log b) (hb : b.Perm c) : Balanced a log c :=
  Perm.trans h (hb.append_left _)

end Balanced

theorem count_givens [DecidableEq τ] {log : List (Use τ)} {held : List τ}
    (h : Balanced [] log held) (t : τ) :
    (givens log).count t = (disposals log).count t + held.count t := by
  rw [← count_append]
  exact Perm.count_eq h t

end Use

end AwgMesh.Lib
