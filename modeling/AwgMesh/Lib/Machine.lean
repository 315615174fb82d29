import Mathlib.Data.List.Induction

/-! # Guarded transition systems -/

namespace AwgMesh.Lib

open List

theorem getElem?_set_cases {α : Type} {l : List α} {i j : Nat} {a b : α}
    (h : (l.set i a)[j]? = some b) : j = i ∧ b = a ∨ j ≠ i ∧ l[j]? = some b := by
  rw [getElem?_set] at h
  split at h
  · next hij =>
      split at h
      · cases h
        exact .inl ⟨hij.symm, rfl⟩
      · cases h
  · next hij => exact .inr ⟨Ne.symm hij, h⟩

structure Machine (σ ℓ : Type) where
  init : σ
  step : σ → ℓ → Option σ

namespace Machine

variable {σ ℓ : Type} (M : Machine σ ℓ)

def exec (s : σ) : List ℓ → Option σ
  | [] => some s
  | l :: ls => (M.step s l).bind fun s' => exec s' ls

/-- Some run ends in `s`. -/
def Reachable (s : σ) : Prop := ∃ ls, M.exec M.init ls = some s

def Visits (s : σ) (ls : List ℓ) (t : σ) : Prop :=
  ∃ pre post, ls = pre ++ post ∧ M.exec s pre = some t

/-- Every step of the run from `s` meets `C`. -/
def Along (C : σ → ℓ → Prop) (s : σ) : List ℓ → Prop
  | [] => True
  | l :: ls => C s l ∧ ∀ s', M.step s l = some s' → Along C s' ls

/-- Every state of the run from `s` meets `I`. -/
def Throughout (I : σ → Prop) (s : σ) : List ℓ → Prop
  | [] => I s
  | l :: ls => I s ∧ ∀ s', M.step s l = some s' → Throughout I s' ls

variable {M}

/-! ## Running lists of labels -/

@[simp] theorem exec_nil (s : σ) : M.exec s [] = some s := rfl

@[simp] theorem exec_cons (s : σ) (l : ℓ) (ls : List ℓ) :
    M.exec s (l :: ls) = (M.step s l).bind fun s' => M.exec s' ls := rfl

variable {l : ℓ} {ls : List ℓ}

theorem exec_of_step {s t u : σ} (hl : M.step s l = some t)
    (hls : M.exec t ls = some u) : M.exec s (l :: ls) = some u := by
  rw [exec_cons, hl]
  exact hls

theorem exec_append (s : σ) (ls ls' : List ℓ) :
    M.exec s (ls ++ ls') = (M.exec s ls).bind fun t => M.exec t ls' := by
  induction ls generalizing s with
  | nil => rfl
  | cons l ls ih =>
    rw [cons_append, exec_cons, exec_cons]
    cases M.step s l with
    | none => rfl
    | some s' => exact ih s'

variable {s t : σ}

theorem exec_concat :
    M.exec s (ls ++ [l]) = some t ↔ ∃ u, M.exec s ls = some u ∧ M.step u l = some t := by
  rw [exec_append]
  cases M.exec s ls with
  | none => simp
  | some u => cases h : M.step u l <;> simp [h]

theorem Reachable.init : M.Reachable M.init := ⟨[], rfl⟩

theorem Reachable.step (h : M.Reachable s) (hl : M.step s l = some t) : M.Reachable t := by
  obtain ⟨ls, hls⟩ := h
  exact ⟨ls ++ [l], exec_concat.mpr ⟨s, hls, hl⟩⟩

theorem Visits.self (h : M.exec s ls = some t) : M.Visits s ls t :=
  ⟨ls, [], (append_nil ls).symm, h⟩

theorem Visits.concat (l : ℓ) (h : M.Visits s ls t) : M.Visits s (ls ++ [l]) t := by
  obtain ⟨pre, post, rfl, hpre⟩ := h
  exact ⟨pre, post ++ [l], append_assoc pre post [l], hpre⟩

theorem visits_concat_iff :
    M.Visits s (ls ++ [l]) t ↔ M.Visits s ls t ∨ M.exec s (ls ++ [l]) = some t := by
  constructor
  · rintro ⟨pre, post, heq, hpre⟩
    rcases eq_nil_or_concat post with rfl | ⟨post', x, rfl⟩
    · rw [append_nil] at heq
      exact .inr (heq ▸ hpre)
    · rw [concat_eq_append, ← append_assoc] at heq
      exact .inl ⟨pre, post', (append_inj' heq rfl).1, hpre⟩
  · rintro (h | h)
    · exact h.concat l
    · exact Visits.self h

variable {C : σ → ℓ → Prop}

theorem along_concat_iff
    (hrun : M.exec s ls = some t) : M.Along C s (ls ++ [l]) ↔ M.Along C s ls ∧ C t l := by
  induction ls generalizing s with
  | nil =>
    cases hrun
    exact ⟨fun h => ⟨trivial, h.1⟩, fun h => ⟨h.2, fun _ _ => trivial⟩⟩
  | cons a ls ih =>
    rw [exec_cons, Option.bind_eq_some_iff] at hrun
    obtain ⟨u, hs, hrun⟩ := hrun
    have hu : ∀ ls', (∀ v, M.step s a = some v → M.Along C v ls') ↔ M.Along C u ls' := by
      intro ls'
      constructor
      · exact fun h => h u hs
      · rintro h v hv
        rw [hs] at hv
        cases hv
        exact h
    show (C s a ∧ ∀ v, M.step s a = some v → M.Along C v (ls ++ [l])) ↔
      (C s a ∧ ∀ v, M.step s a = some v → M.Along C v ls) ∧ C t l
    rw [hu, hu, ih hrun, and_assoc]

instance decidableAlong (C : σ → ℓ → Prop) [∀ s l, Decidable (C s l)] :
    ∀ (s : σ) (ls : List ℓ), Decidable (M.Along C s ls)
  | _, [] => isTrue trivial
  | s, l :: ls =>
    match h : M.step s l with
    | none => decidable_of_iff (C s l) ⟨fun hc => ⟨hc, by simp [h]⟩, And.left⟩
    | some t =>
      have := decidableAlong C t ls
      decidable_of_iff (C s l ∧ M.Along C t ls)
        ⟨fun hc => ⟨hc.1, fun t' ht' => by rw [h] at ht'; cases ht'; exact hc.2⟩,
          fun hc => ⟨hc.1, hc.2 t h⟩⟩

theorem along_of_forall (h : ∀ l ∈ ls, ∀ s, C s l) (s : σ) : M.Along C s ls := by
  induction ls generalizing s with
  | nil => trivial
  | cons l ls ih =>
    refine ⟨h l mem_cons_self s, ?_⟩
    intro t _
    exact ih (fun l' hl' => h l' (mem_cons_of_mem l hl')) t

/-! ## Invariants -/

variable {I : σ → Prop}

theorem Reachable.invariant (h₀ : I M.init)
    (hstep : ∀ {s l t}, I s → M.step s l = some t → I t) (h : M.Reachable s) : I s := by
  obtain ⟨ls, hls⟩ := h
  induction ls using reverseRecOn generalizing s with
  | nil => cases hls; exact h₀
  | append_singleton ls l ih =>
    obtain ⟨u, hu, hl⟩ := exec_concat.mp hls
    exact hstep (ih hu) hl

theorem exec_invariant {I : List ℓ → σ → Prop} {s₀ : σ} (h₀ : I [] s₀)
    (hstep : ∀ {ls s l t}, M.exec s₀ ls = some s → I ls s → M.step s l = some t → I (ls ++ [l]) t)
    (h : M.exec s₀ ls = some s) : I ls s := by
  induction ls using reverseRecOn generalizing s with
  | nil => cases h; exact h₀
  | append_singleton ls l ih =>
    obtain ⟨u, hu, hl⟩ := exec_concat.mp h
    exact hstep hu (ih hu) hl

theorem Throughout.head (h : M.Throughout I s ls) : I s := by
  cases ls with
  | nil => exact h
  | cons l ls => exact h.1

theorem Throughout.last (h : M.Throughout I s ls) (ht : M.exec s ls = some t) : I t := by
  induction ls generalizing s with
  | nil => cases ht; exact h
  | cons l ls ih =>
    rw [exec_cons, Option.bind_eq_some_iff] at ht
    obtain ⟨s', hs, ht⟩ := ht
    exact ih (h.2 s' hs) ht

theorem Throughout.imp {I I' : σ → Prop} (himp : ∀ s, I s → I' s)
    (h : M.Throughout I s ls) : M.Throughout I' s ls := by
  induction ls generalizing s with
  | nil => exact himp s h
  | cons l ls ih =>
    refine ⟨himp s h.1, ?_⟩
    intro s' hs'
    exact ih (h.2 s' hs')

theorem Throughout.strengthen {I K : σ → Prop}
    (hstep : ∀ {s l t}, K s → M.step s l = some t → I t → K t)
    (hs : K s) (h : M.Throughout I s ls) : M.Throughout K s ls := by
  induction ls generalizing s with
  | nil => exact hs
  | cons l ls ih =>
    refine ⟨hs, ?_⟩
    intro t ht
    exact ih (hstep hs ht (h.2 t ht).head) (h.2 t ht)

variable {J : σ → Prop}

section

variable (hJ : ∀ {s l t}, J s → M.step s l = some t → J t)

include hJ

theorem throughout_iff_along (hC : ∀ {s l t}, J s → I s → M.step s l = some t → (I t ↔ C s l))
    (hj : J s) (hi : I s) (hrun : (M.exec s ls).isSome) :
    M.Throughout I s ls ↔ M.Along C s ls := by
  induction ls generalizing s with
  | nil => exact ⟨fun _ => trivial, fun _ => hi⟩
  | cons l ls ih =>
    rw [exec_cons] at hrun
    cases hs : M.step s l with
    | none => rw [hs] at hrun; cases hrun
    | some s' =>
      rw [hs] at hrun
      have hj' : J s' := hJ hj hs
      constructor
      · rintro ⟨-, h⟩
        have hi' : I s' := (h s' hs).head
        refine ⟨(hC hj hi hs).mp hi', ?_⟩
        intro t ht
        rw [hs] at ht
        cases ht
        exact (ih hj' hi' hrun).mp (h s' hs)
      · rintro ⟨hc, h⟩
        have hi' : I s' := (hC hj hi hs).mpr hc
        refine ⟨hi, ?_⟩
        intro t ht
        rw [hs] at ht
        cases ht
        exact (ih hj' hi' hrun).mpr (h s' hs)

theorem throughout_of_along (hC : ∀ {s l t}, J s → I s → C s l → M.step s l = some t → I t)
    (hj : J s) (hi : I s) (h : M.Along C s ls) : M.Throughout I s ls := by
  induction ls generalizing s with
  | nil => exact hi
  | cons l ls ih =>
    refine ⟨hi, ?_⟩
    intro t ht
    exact ih (hJ hj ht) (hC hj hi h.1 ht) (h.2 t ht)

theorem throughout_of_invariant (himp : ∀ {s}, J s → I s) (hj : J s) (ls : List ℓ)
    : M.Throughout I s ls := by
  induction ls generalizing s with
  | nil => exact himp hj
  | cons l ls ih => exact ⟨himp hj, fun t ht => ih (hJ hj ht)⟩

theorem along_of_invariant (hC : ∀ {s l}, J s → C s l) (hj : J s) (ls : List ℓ)
    : M.Along C s ls := by
  induction ls generalizing s with
  | nil => trivial
  | cons l ls ih => exact ⟨hC hj, fun t ht => ih (hJ hj ht)⟩

end

theorem Throughout.simulate {τ : Type} {N : Machine τ ℓ} {R : σ → τ → Prop}
    {J : τ → Prop} (himp : ∀ {s t}, R s t → J t → I s)
    (hstep : ∀ {s t l s'}, R s t → M.step s l = some s' →
      ∃ t', N.step t l = some t' ∧ R s' t') {t : τ} (hrel : R s t) (h : N.Throughout J t ls) :
    M.Throughout I s ls := by
  induction ls generalizing s t with
  | nil => exact himp hrel h
  | cons l ls ih =>
    refine ⟨himp hrel h.1, ?_⟩
    intro s' hs'
    obtain ⟨t', ht', hrel'⟩ := hstep hrel hs'
    exact ih hrel' (h.2 t' ht')

/-! ## Earlier and later states of one run -/

/-- Any two states of the run, the earlier one first, are related. -/
def Ordered (M : Machine σ ℓ) (P : σ → σ → Prop) (s : σ) : List ℓ → Prop
  | [] => P s s
  | l :: ls => M.Throughout (P s) s (l :: ls) ∧ ∀ t, M.step s l = some t → Ordered M P t ls

def AlongSince (M : Machine σ ℓ) (C : σ → σ → ℓ → Prop) (s : σ) : List ℓ → Prop
  | [] => True
  | l :: ls => M.Along (C s) s (l :: ls) ∧ ∀ t, M.step s l = some t → AlongSince M C t ls

instance decidableAlongSince (C : σ → σ → ℓ → Prop) [∀ s u l, Decidable (C s u l)] :
    ∀ (s : σ) (ls : List ℓ), Decidable (M.AlongSince C s ls)
  | _, [] => isTrue trivial
  | s, l :: ls =>
    match h : M.step s l with
    | none =>
      decidable_of_iff (M.Along (C s) s (l :: ls)) ⟨fun hc => ⟨hc, by simp [h]⟩, And.left⟩
    | some t =>
      have := decidableAlongSince C t ls
      decidable_of_iff (M.Along (C s) s (l :: ls) ∧ M.AlongSince C t ls)
        ⟨fun hc => ⟨hc.1, fun t' ht' => by rw [h] at ht'; cases ht'; exact hc.2⟩,
          fun hc => ⟨hc.1, hc.2 t h⟩⟩

section Ordered

variable {P P' : σ → σ → Prop} {J : σ → Prop} {C : σ → σ → ℓ → Prop} {s : σ} {ls : List ℓ}

theorem ordered_iff_alongSince (hJ : ∀ {s l t}, J s → M.step s l = some t → J t)
    (hrefl : ∀ {s}, J s → P s s)
    (hC : ∀ {s u l t}, J s → J u → P s u → M.step u l = some t → (P s t ↔ C s u l))
    (hj : J s) (hrun : (M.exec s ls).isSome) : M.Ordered P s ls ↔ M.AlongSince C s ls := by
  induction ls generalizing s with
  | nil => exact ⟨fun _ => trivial, fun _ => hrefl hj⟩
  | cons l ls ih =>
    have hfrom : M.Throughout (P s) s (l :: ls) ↔ M.Along (C s) s (l :: ls) :=
      throughout_iff_along hJ (hC hj) hj (hrefl hj) hrun
    apply and_congr hfrom
    rw [exec_cons] at hrun
    apply forall_congr'
    intro t
    apply imp_congr_right
    intro hstep
    rw [hstep] at hrun
    exact ih (hJ hj hstep) hrun

theorem ordered_of_step (hJ : ∀ {s l t}, J s → M.step s l = some t → J t)
    (hrefl : ∀ {s}, J s → P s s)
    (hstep : ∀ {s u l t}, J s → J u → P s u → M.step u l = some t → P s t) (hj : J s) :
    M.Ordered P s ls := by
  induction ls generalizing s with
  | nil => exact hrefl hj
  | cons l ls ih =>
    constructor
    · refine throughout_of_along (C := fun _ _ => True) hJ ?_ hj (hrefl hj) ?_
      · intro u l' t hu hsu _ ht
        exact hstep hj hu hsu ht
      · exact along_of_forall (fun _ _ _ => trivial) s
    · intro t ht
      exact ih (hJ hj ht)

theorem Ordered.imp (himp : ∀ s t, P s t → P' s t) (h : M.Ordered P s ls) : M.Ordered P' s ls := by
  induction ls generalizing s with
  | nil => exact himp s s h
  | cons l ls ih => exact ⟨h.1.imp (himp s), fun t ht => ih (h.2 t ht)⟩

end Ordered

end Machine

end AwgMesh.Lib
