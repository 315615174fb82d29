import AwgMesh.Lib.Machine
import AwgMesh.Lib.Handler
import Mathlib.Logic.Function.Basic

/-! # Handlers that bring a value to many places -/

namespace AwgMesh.Lib

open Function List

/-! ## Handlers side by side, with their calls counted -/

structure Counted (σ ρ α : Type) where
  pool : Pool σ ρ α
  made : Nat → Nat := fun _ => 0

inductive Event (ρ : Type) where
  | start (request : ρ)
  | next (i : Nat)

section Counted

variable {σ ρ α : Type} (program : ρ → Handler σ α)

def Counted.step (s : Counted σ ρ α) : Event ρ → Option (Counted σ ρ α)
  | .start request =>
    some { pool := s.pool.spawn request (program request)
           made := update s.made s.pool.threads.length 0 }
  | .next i =>
    (s.pool.advance i).map fun pool =>
      { pool := pool, made := update s.made i (s.made i + 1) }

def handlers (shared : σ) : Machine (Counted σ ρ α) (Event ρ) :=
  { init := { pool := { shared := shared } }, step := Counted.step program }

namespace Counted

def moved (s : Counted σ ρ α) (i : Nat) (request : ρ) (upd : σ → σ) (next : σ → Handler σ α) :
    Counted σ ρ α :=
  { pool :=
      { shared := upd s.pool.shared
        threads := s.pool.threads.set i ⟨request, next s.pool.shared⟩ }
    made := update s.made i (s.made i + 1) }

variable {program} {s s' : Counted σ ρ α} {i j : Nat} {request : ρ} {upd : σ → σ}
  {next : σ → Handler σ α} {t : Thread σ ρ α}

theorem step_next {shared : σ} (h : (handlers program shared).step s (.next i) = some s') :
    ∃ request upd next, s.pool.threads[i]? = some ⟨request, .call upd next⟩ ∧
      s' = s.moved i request upd next := by
  obtain ⟨pool, hpool, rfl⟩ := Option.map_eq_some_iff.mp h
  obtain ⟨request, upd, next, hi, rfl⟩ := Pool.advance_eq_some hpool
  exact ⟨request, upd, next, hi, rfl⟩

@[simp] theorem moved_made_self : (s.moved i request upd next).made i = s.made i + 1 :=
  update_self ..

theorem moved_made_of_ne (h : j ≠ i) : (s.moved i request upd next).made j = s.made j :=
  update_of_ne h ..

theorem moved_getElem? (h : (s.moved i request upd next).pool.threads[j]? = some t) :
    j = i ∧ t = ⟨request, next s.pool.shared⟩ ∨ j ≠ i ∧ s.pool.threads[j]? = some t :=
  getElem?_set_cases h

theorem moved_getElem?_self (h : s.pool.threads[i]? = some t) :
    (s.moved i request upd next).pool.threads[i]? = some ⟨request, next s.pool.shared⟩ := by
  obtain ⟨hlt, -⟩ := List.getElem?_eq_some_iff.mp h
  exact List.getElem?_set_self hlt

theorem moved_getElem?_of_ne (h : j ≠ i) :
    (s.moved i request upd next).pool.threads[j]? = s.pool.threads[j]? :=
  getElem?_set_ne (Ne.symm h)

end Counted

end Counted

/-! ## The shape of a sweep -/

section Sweep

variable {σ ρ α κ V : Type} (Holds : σ → κ → V → Prop) (Good : α → Prop)

def Silent (s s' : σ) : Prop := ∀ c v, Holds s c v → Holds s' c v

def Writes (c : κ) (v : V) (s s' : σ) : Prop :=
  Holds s' c v ∧ ∀ c' ≠ c, ∀ v', Holds s c' v' → Holds s' c' v'

def Spoiled (h : Handler σ α) : Prop :=
  h.Guarded (fun _ => True) (fun _ _ => True) fun a => ¬ Good a

def Sweeps (v : V) : Handler σ α → (wait : Nat) → (left : List κ) → Prop
  | .done a, _, left => Good a → left = []
  | .call upd next, wait + 1, left => ∀ s, Silent Holds s (upd s) ∧ Sweeps v (next s) wait left
  | .call upd next, 0, c :: left =>
    ∀ s, Spoiled Good (next s) ∨ Writes Holds c v s (upd s) ∧ Sweeps v (next s) 0 left
  | .call upd next, 0, [] => ∀ s, Silent Holds s (upd s) ∧ Sweeps v (next s) 0 []

variable {Holds Good}

theorem Writes.of_mem {c : κ} {v : V} {s s' : σ} (h : Writes Holds c v s s') {done : List κ}
    (hdone : ∀ c' ∈ done, Holds s c' v) : ∀ c' ∈ done ++ [c], Holds s' c' v := by
  intro c' hc'
  by_cases heq : c' = c
  · exact heq ▸ h.1
  · rcases mem_append.mp hc' with hmem | hmem
    · exact h.2 c' heq v (hdone c' hmem)
    · exact absurd (mem_singleton.mp hmem) heq

variable {v : V} {upd : σ → σ} {next : σ → Handler σ α} {first made : Nat} {order : List κ}
  (h : Sweeps Holds Good v (.call upd next) (first - made) (order.drop (made - first)))

include h

theorem Sweeps.waits (hlt : made < first) (s : σ) :
    Silent Holds s (upd s) ∧
      Sweeps Holds Good v (next s) (first - (made + 1)) (order.drop (made + 1 - first)) := by
  obtain ⟨wait, hwait⟩ : ∃ wait, first - made = wait + 1 := ⟨first - made - 1, by omega⟩
  rw [hwait] at h
  rw [show first - (made + 1) = wait by omega, show made + 1 - first = made - first by omega]
  exact h s

theorem Sweeps.writes (hle : first ≤ made) (hlt : made < first + order.length) (s : σ) :
    Spoiled Good (next s) ∨ ∃ c, order.take (made + 1 - first) = order.take (made - first) ++ [c] ∧
        Writes Holds c v s (upd s) ∧
        Sweeps Holds Good v (next s) (first - (made + 1)) (order.drop (made + 1 - first)) := by
  have hidx : made - first < order.length := by omega
  rw [drop_eq_getElem_cons hidx, show first - made = 0 by omega] at h
  rw [show first - (made + 1) = 0 by omega, show made + 1 - first = made - first + 1 by omega]
  rcases h s with hspoiled | ⟨hwrite, hnext⟩
  · exact .inl hspoiled
  · exact .inr ⟨order[made - first], (take_append_getElem hidx).symm, hwrite, hnext⟩

theorem Sweeps.lingers (hle : first ≤ made) (hdone : first + order.length ≤ made) (s : σ) :
    Silent Holds s (upd s) ∧
      Sweeps Holds Good v (next s) (first - (made + 1)) (order.drop (made + 1 - first)) := by
  rw [drop_eq_nil_of_le (by omega), show first - made = 0 by omega] at h
  rw [drop_eq_nil_of_le (by omega), show first - (made + 1) = 0 by omega]
  exact h s

end Sweep

/-! ## Several sweeps -/

section Several

variable {σ ρ α κ V : Type} (Holds : σ → κ → V → Prop) (Good : α → Prop) (first : Nat)
  (order : ρ → List κ) (value : ρ → V) (cells : List κ)

def Resting (request : ρ) (made : Nat) : Prop :=
  made ≤ first ∨ first + (order request).length ≤ made

/-- No sweep makes its first write while another one is under way. -/
def Exclusive (s : Counted σ ρ α) : Event ρ → Prop
  | .start _ => True
  | .next i => s.made i = first → ∀ j t, j ≠ i → s.pool.threads[j]? = some t →
      Resting first order t.request (s.made j)

instance (request : ρ) (made : Nat) : Decidable (Resting first order request made) :=
  inferInstanceAs (Decidable (_ ∨ _))

instance (s : Counted σ ρ α) : ∀ e, Decidable (Exclusive first order s e)
  | .start _ => isTrue trivial
  | .next i =>
    decidable_of_iff
      (s.made i = first → ∀ j (h : j < s.pool.threads.length), j ≠ i →
        Resting first order s.pool.threads[j].request (s.made j))
      ⟨fun h hfirst j t hne hj => by
        obtain ⟨hlt, rfl⟩ := List.getElem?_eq_some_iff.mp hj
        exact h hfirst j hlt hne,
      fun h hfirst j hlt hne => h hfirst j _ hne (List.getElem?_eq_getElem hlt)⟩

def Agree (s : Counted σ ρ α) : Prop :=
  s.pool.threads ≠ [] → (∀ t ∈ s.pool.threads, ∃ a, t.program = .done a ∧ Good a) →
    ∃ v, ∀ c ∈ cells, Holds s.pool.shared c v

def Tracked (s : Counted σ ρ α) : Prop :=
  ∀ i t, s.pool.threads[i]? = some t →
    Sweeps Holds Good (value t.request) t.program (first - s.made i)
      ((order t.request).drop (s.made i - first))

inductive Coherent (s : Counted σ ρ α) : Prop where
  | quiet
      (rest : ∀ i t, s.pool.threads[i]? = some t → Resting first order t.request (s.made i))
      (agree : (∃ i t, s.pool.threads[i]? = some t ∧
        first + (order t.request).length ≤ s.made i) → ∃ v, ∀ c ∈ cells, Holds s.pool.shared c v)
  | busy (i : Nat) (t : Thread σ ρ α) (at_i : s.pool.threads[i]? = some t)
      (begun : first < s.made i) (unfinished : s.made i < first + (order t.request).length)
      (written : ∀ c ∈ (order t.request).take (s.made i - first),
        Holds s.pool.shared c (value t.request))
      (rest : ∀ j t', j ≠ i → s.pool.threads[j]? = some t' →
        Resting first order t'.request (s.made j))

variable {Holds Good first order value cells} {program : ρ → Handler σ α} {s s' : Counted σ ρ α}
  {i : Nat} {request : ρ} {upd : σ → σ} {next : σ → Handler σ α}

open Counted

/-! ### A call -/

theorem Tracked.moved (h : Tracked Holds Good first order value s)
    (hnext : Sweeps Holds Good (value request) (next s.pool.shared) (first - (s.made i + 1))
      ((order request).drop (s.made i + 1 - first))) :
    Tracked Holds Good first order value (s.moved i request upd next) := by
  intro j t hj
  rcases moved_getElem? hj with ⟨rfl, rfl⟩ | ⟨hne, hj⟩
  · rw [moved_made_self]
    exact hnext
  · rw [moved_made_of_ne hne]
    exact h j t hj

variable {t : Thread σ ρ α}

theorem resting_moved {j : Nat} (hne : j ≠ i)
    (hj : (s.moved i request upd next).pool.threads[j]? = some t)
    (h : s.pool.threads[j]? = some t → Resting first order t.request (s.made j)) :
    Resting first order t.request ((s.moved i request upd next).made j) := by
  rw [moved_getElem?_of_ne hne] at hj
  rw [moved_made_of_ne hne]
  exact h hj

theorem agree_of_length_eq_zero (value : ρ → V) {shared : σ}
    (hcover : ∀ c ∈ cells, c ∈ order request) (h : (order request).length = 0) :
    ∃ v, ∀ c ∈ cells, Holds shared c v := by
  refine ⟨value request, ?_⟩
  intro c hc
  have hmem := hcover c hc
  rw [length_eq_zero_iff.mp h] at hmem
  cases hmem

section

variable (h : Coherent Holds first order value cells s)
  (hi : s.pool.threads[i]? = some ⟨request, .call upd next⟩)

include h hi

theorem Coherent.silent (hsilent : Silent Holds s.pool.shared (upd s.pool.shared))
    (hmade : s.made i < first ∨ first + (order request).length ≤ s.made i)
    (hcover : ∀ c ∈ cells, c ∈ order request) :
    Coherent Holds first order value cells (s.moved i request upd next) := by
  have hrest_i : Resting first order request (s.made i + 1) :=
    hmade.imp (fun hlt => hlt) fun hle => Nat.le_succ_of_le hle
  cases h with
  | quiet rest agree =>
    refine .quiet ?_ ?_
    · intro j t hj
      rcases moved_getElem? hj with ⟨rfl, rfl⟩ | ⟨hne, hj'⟩
      · rw [moved_made_self]
        exact hrest_i
      · exact resting_moved hne hj (rest j t)
    · rintro ⟨j, t, hj, hfinished⟩
      rcases moved_getElem? hj with ⟨rfl, rfl⟩ | ⟨hne, hj'⟩
      · rw [moved_made_self] at hfinished
        rcases hmade with hlt | hle
        · -- Finished before its first write.
          dsimp only at hfinished
          exact agree_of_length_eq_zero value hcover (by omega)
        · obtain ⟨v, hv⟩ := agree ⟨j, _, hi, hle⟩
          exact ⟨v, fun c hc => hsilent c v (hv c hc)⟩
      · rw [moved_made_of_ne hne] at hfinished
        obtain ⟨v, hv⟩ := agree ⟨j, t, hj', hfinished⟩
        exact ⟨v, fun c hc => hsilent c v (hv c hc)⟩
  | busy k t hk begun unfinished written rest =>
    have hne : k ≠ i := by
      rintro rfl
      rw [hi] at hk
      cases hk
      dsimp only at unfinished
      omega
    refine .busy k t ?_ ?_ ?_ ?_ ?_
    · rw [moved_getElem?_of_ne hne]
      exact hk
    · rw [moved_made_of_ne hne]
      exact begun
    · rw [moved_made_of_ne hne]
      exact unfinished
    · rw [moved_made_of_ne hne]
      exact fun c hc => hsilent c _ (written c hc)
    · intro j t' hjk hj
      rcases moved_getElem? hj with ⟨rfl, rfl⟩ | ⟨hji, hj'⟩
      · rw [moved_made_self]
        exact hrest_i
      · exact resting_moved hji hj (rest j t' hjk)

theorem Coherent.leads (hexcl : Exclusive first order s (.next i)) (hle : first ≤ s.made i)
    (hlt : s.made i < first + (order request).length) :
    (∀ c ∈ (order request).take (s.made i - first), Holds s.pool.shared c (value request)) ∧
      ∀ j t, j ≠ i → s.pool.threads[j]? = some t → Resting first order t.request (s.made j) := by
  have hfirst : Resting first order request (s.made i) → s.made i = first := by
    rintro (hrest | hrest) <;> omega
  cases h with
  | quiet rest agree =>
    refine ⟨?_, fun j t _ hj => rest j t hj⟩
    rw [hfirst (rest i _ hi), Nat.sub_self, take_zero]
    simp
  | busy k t hk begun unfinished written rest =>
    by_cases hki : i = k
    · subst hki
      rw [hi] at hk
      cases hk
      exact ⟨written, rest⟩
    · rcases hexcl (hfirst (rest i _ hki hi)) k t (Ne.symm hki) hk with hrest | hrest <;> omega

theorem Coherent.write {c : κ} (hexcl : Exclusive first order s (.next i)) (hle : first ≤ s.made i)
    (hlt : s.made i < first + (order request).length)
    (htake : (order request).take (s.made i + 1 - first) =
      (order request).take (s.made i - first) ++ [c])
    (hwrite : Writes Holds c (value request) s.pool.shared (upd s.pool.shared))
    (hcover : ∀ c ∈ cells, c ∈ order request) :
    Coherent Holds first order value cells (s.moved i request upd next) := by
  obtain ⟨hwritten, hrest⟩ := h.leads hi hexcl hle hlt
  have hbehind : ∀ c' ∈ (order request).take (s.made i + 1 - first),
      Holds (upd s.pool.shared) c' (value request) := by
    rw [htake]
    exact hwrite.of_mem hwritten
  have hothers : ∀ j t, j ≠ i → (s.moved i request upd next).pool.threads[j]? = some t →
      Resting first order t.request ((s.moved i request upd next).made j) :=
    fun j t hne hj => resting_moved hne hj (hrest j t hne)
  by_cases hlast : s.made i + 1 < first + (order request).length
  · refine .busy i ⟨request, next s.pool.shared⟩ (moved_getElem?_self hi) ?_ ?_ ?_ hothers
    · rw [moved_made_self]
      omega
    · rw [moved_made_self]
      exact hlast
    · rw [moved_made_self]
      exact hbehind
  · refine .quiet ?_ ?_
    · intro j t hj
      rcases moved_getElem? hj with ⟨rfl, rfl⟩ | ⟨hne, -⟩
      · rw [moved_made_self]
        exact .inr (by dsimp only; omega)
      · exact hothers j t hne hj
    · rintro -
      refine ⟨value request, fun c hc => hbehind c ?_⟩
      rw [take_of_length_le (by omega)]
      exact hcover c hc

end

/-! ### A start -/

theorem spawn_made {program : Handler σ α} (h : (s.pool.spawn request program).threads[i]? = some t)
    :
    s.pool.threads[i]? = some t ∧ update s.made s.pool.threads.length 0 i = s.made i ∨
      t = ⟨request, program⟩ ∧ update s.made s.pool.threads.length 0 i = 0 := by
  rcases Pool.spawn_getElem? h with hi | ⟨rfl, rfl⟩
  · obtain ⟨hlt, -⟩ := List.getElem?_eq_some_iff.mp hi
    exact .inl ⟨hi, update_of_ne (by omega) ..⟩
  · exact .inr ⟨rfl, update_self ..⟩

def Counted.started (s : Counted σ ρ α) (request : ρ) (program : Handler σ α) : Counted σ ρ α :=
  { pool := s.pool.spawn request program
    made := update s.made s.pool.threads.length 0 }

theorem Tracked.started (h : Tracked Holds Good first order value s) {program : Handler σ α}
    (hprogram : Sweeps Holds Good (value request) program first (order request)) :
    Tracked Holds Good first order value (s.started request program) := by
  intro j t hj
  rcases spawn_made hj with ⟨hj, hmade⟩ | ⟨rfl, hmade⟩
  · rw [show (s.started request program).made j = s.made j from hmade]
    exact h j t hj
  · rw [show (s.started request program).made j = 0 from hmade]
    simpa using hprogram

theorem Coherent.started (h : Coherent Holds first order value cells s) {program : Handler σ α}
    (hcover : ∀ c ∈ cells, c ∈ order request) :
    Coherent Holds first order value cells (s.started request program) := by
  have hrest : ∀ j t, (s.started request program).pool.threads[j]? = some t →
      (s.pool.threads[j]? = some t → Resting first order t.request (s.made j)) →
      Resting first order t.request ((s.started request program).made j) := by
    intro j t hj hold
    rcases spawn_made hj with ⟨hj, hmade⟩ | ⟨rfl, hmade⟩
    · rw [show (s.started request program).made j = s.made j from hmade]
      exact hold hj
    · rw [show (s.started request program).made j = 0 from hmade]
      exact .inl (Nat.zero_le first)
  cases h with
  | quiet rest agree =>
    refine .quiet (fun j t hj => hrest j t hj (rest j t)) ?_
    rintro ⟨j, t, hj, hfinished⟩
    rcases spawn_made hj with ⟨hj, hmade⟩ | ⟨rfl, hmade⟩
    · rw [show (s.started request program).made j = s.made j from hmade] at hfinished
      exact agree ⟨j, t, hj, hfinished⟩
    · -- Finished at its start.
      rw [show (s.started request program).made j = 0 from hmade] at hfinished
      dsimp only at hfinished
      exact agree_of_length_eq_zero value hcover (by omega)
  | busy k t hk begun unfinished written rest =>
    obtain ⟨hlt, -⟩ := List.getElem?_eq_some_iff.mp hk
    have hmade : (s.started request program).made k = s.made k :=
      update_of_ne (by omega) ..
    refine .busy k t ?_ ?_ ?_ ?_ ?_
    · exact (List.getElem?_append_left hlt).trans hk
    · exact hmade ▸ begun
    · exact hmade ▸ unfinished
    · exact hmade ▸ written
    · exact fun j t' hne hj => hrest j t' hj (rest j t' hne)

/-! ### Whole runs -/

def Sound (Holds : σ → κ → V → Prop) (Good : α → Prop) (first : Nat) (order : ρ → List κ)
    (value : ρ → V) (cells : List κ) (s : Counted σ ρ α) : Prop :=
  (∃ t ∈ s.pool.threads, Spoiled Good t.program) ∨
    Tracked Holds Good first order value s ∧ Coherent Holds first order value cells s

theorem spoiled_moved (ht : t ∈ s.pool.threads) (h : Spoiled Good t.program)
    (hi : s.pool.threads[i]? = some ⟨request, .call upd next⟩) :
    ∃ t ∈ (s.moved i request upd next).pool.threads, Spoiled Good t.program := by
  obtain ⟨j, hj⟩ := mem_iff_getElem?.mp ht
  by_cases hne : j = i
  · subst hne
    rw [hi] at hj
    cases hj
    exact ⟨_, mem_of_getElem? (moved_getElem?_self hi),
      (h s.pool.shared trivial).2 trivial⟩
  · rw [← moved_getElem?_of_ne hne] at hj
    exact ⟨t, mem_of_getElem? hj, h⟩

variable (hcover : ∀ r, ∀ c ∈ cells, c ∈ order r)

include hcover

theorem Sound.moved (h : Sound Holds Good first order value cells s)
    (hexcl : Exclusive first order s (.next i))
    (hi : s.pool.threads[i]? = some ⟨request, .call upd next⟩) :
    Sound Holds Good first order value cells (s.moved i request upd next) := by
  rcases h with ⟨t, ht, hspoiled⟩ | ⟨htracked, hcoherent⟩
  · exact .inl (spoiled_moved ht hspoiled hi)
  · have hsweep := htracked i _ hi
    dsimp only at hsweep
    by_cases hwait : s.made i < first
    · obtain ⟨hsilent, hnext⟩ := hsweep.waits hwait s.pool.shared
      exact .inr ⟨htracked.moved hnext,
        hcoherent.silent hi hsilent (.inl hwait) (hcover request)⟩
    by_cases hdone : first + (order request).length ≤ s.made i
    · obtain ⟨hsilent, hnext⟩ := hsweep.lingers (by omega) hdone s.pool.shared
      exact .inr ⟨htracked.moved hnext,
        hcoherent.silent hi hsilent (.inr hdone) (hcover request)⟩
    rcases hsweep.writes (by omega) (by omega) s.pool.shared with
      hspoiled | ⟨c, htake, hwrite, hnext⟩
    · exact .inl ⟨_, mem_of_getElem? (moved_getElem?_self hi), hspoiled⟩
    · exact .inr ⟨htracked.moved hnext,
        hcoherent.write hi hexcl (by omega) (by omega) htake hwrite (hcover request)⟩

theorem Sound.agree (h : Sound Holds Good first order value cells s)
    : Agree Holds Good cells s := by
  intro hne hall
  obtain ⟨t, ht⟩ := exists_mem_of_ne_nil _ hne
  rcases h with ⟨t', ht', hspoiled⟩ | ⟨htracked, hcoherent⟩
  · obtain ⟨a, hprogram, hgood⟩ := hall t' ht'
    rw [hprogram] at hspoiled
    exact absurd hgood hspoiled
  -- Whoever has returned well has nothing left to write.
  have hfinished : ∀ j t, s.pool.threads[j]? = some t →
      (order t.request).length ≤ s.made j - first := by
    intro j t hj
    obtain ⟨a, hprogram, hgood⟩ := hall t (mem_of_getElem? hj)
    have hsweep := htracked j t hj
    rw [hprogram] at hsweep
    exact drop_eq_nil_iff.mp (hsweep hgood)
  cases hcoherent with
  | quiet rest agree =>
    obtain ⟨j, hj⟩ := mem_iff_getElem?.mp ht
    have hle := hfinished j t hj
    rcases Nat.eq_zero_or_pos (order t.request).length with hzero | hpos
    · exact agree_of_length_eq_zero value (hcover t.request) hzero
    · exact agree ⟨j, t, hj, by omega⟩
  | busy k t' hk begun unfinished written rest =>
    have hle := hfinished k t' hk
    omega

theorem agree_of_exclusive (hprogram : ∀ r, Sweeps Holds Good (value r) (program r) first (order r))
    (shared : σ) (ls : List (Event ρ))
    (hexcl :
      (handlers program shared).Along (Exclusive first order) (handlers program shared).init ls)
    :
    (handlers program shared).Throughout (Agree Holds Good cells) (handlers program shared).init
      ls := by
  have hinit : Sound Holds Good first order value cells (handlers program shared).init := by
    refine .inr ⟨?_, .quiet ?_ ?_⟩ <;> simp [Tracked, handlers]
  refine (Machine.throughout_of_along (J := fun _ => True) (fun _ _ => trivial) ?_ trivial hinit
    hexcl).imp fun s hs => hs.agree hcover
  intro s l s' _ hsound hl hstep
  cases l with
  | start request =>
    cases hstep
    rcases hsound with ⟨t, ht, hspoiled⟩ | ⟨htracked, hcoherent⟩
    · exact .inl ⟨t, mem_append_left _ ht, hspoiled⟩
    · exact .inr ⟨htracked.started (hprogram request), hcoherent.started (hcover request)⟩
  | next i =>
    obtain ⟨request, upd, next, hi, rfl⟩ := Counted.step_next hstep
    exact Sound.moved hcover hsound hl hi

end Several

/-! ## Where a handler has got to -/

structure Staging (σ ρ α Stage : Type) where
  start : Stage
  rest : ρ → Stage → Handler σ α
  after : ρ → Stage → σ → Stage
  rest_after : ∀ {request stage upd next}, rest request stage = .call upd next →
    ∀ s, rest request (after request stage s) = next s

structure Staged (σ ρ Stage : Type) where
  shared : σ
  calls : List (ρ × Stage) := []

namespace Staging

variable {σ ρ α Stage : Type} (S : Staging σ ρ α Stage)

def step (s : Staged σ ρ Stage) : Event ρ → Option (Staged σ ρ Stage)
  | .start request => some { s with calls := s.calls ++ [(request, S.start)] }
  | .next i =>
    match s.calls[i]? with
    | none => none
    | some (request, stage) =>
      match S.rest request stage with
      | .done _ => none
      | .call upd _ =>
        some
          { shared := upd s.shared
            calls := s.calls.set i (request, S.after request stage s.shared) }

def machine (shared : σ) : Machine (Staged σ ρ Stage) (Event ρ) :=
  { init := { shared := shared }, step := S.step }

def pool (s : Staged σ ρ Stage) : Pool σ ρ α where
  shared := s.shared
  threads := s.calls.map fun call => ⟨call.1, S.rest call.1 call.2⟩

variable {S} {s s' : Staged σ ρ Stage} {shared : σ} {i : Nat}

theorem step_next (h : (S.machine shared).step s (.next i) = some s') :
    ∃ request stage upd next, s.calls[i]? = some (request, stage) ∧
      S.rest request stage = .call upd next ∧
      s' = { shared := upd s.shared
             calls := s.calls.set i (request, S.after request stage s.shared) } := by
  unfold machine step at h
  dsimp only at h
  split at h
  · cases h
  · next request stage hi =>
      split at h
      · cases h
      · next upd next hrest =>
          cases h
          exact ⟨request, stage, upd, next, hi, hrest, rfl⟩

variable {calls : List (ρ × Stage)} {call call' : ρ × Stage} {j : Nat}

theorem concat_getElem?
    (h : (calls ++ [call])[j]? = some call') : calls[j]? = some call' ∨ call' = call := by
  rw [getElem?_append] at h
  split at h
  · exact .inl h
  · rw [getElem?_singleton] at h
    split at h
    · cases h
      exact .inr rfl
    · cases h

theorem simulates {c c' : Counted σ ρ α} {event : Event ρ} (hpool : c.pool = S.pool s)
    (h : (handlers (fun request => S.rest request S.start) shared).step c event = some c') :
    ∃ s', (S.machine shared).step s event = some s' ∧ c'.pool = S.pool s' := by
  cases event with
  | start request =>
    cases h
    refine ⟨_, rfl, ?_⟩
    simp only [hpool, Pool.spawn, pool, map_append, map_cons, map_nil]
  | next i =>
    obtain ⟨request, upd, next, hi, rfl⟩ := Counted.step_next h
    rw [hpool, pool, getElem?_map] at hi
    obtain ⟨⟨request', stage⟩, hcall, hthread⟩ := Option.map_eq_some_iff.mp hi
    injection hthread with hrequest hrest
    dsimp only at hrequest hrest
    subst hrequest
    have hstep : (S.machine shared).step s (.next i) =
        some { shared := upd s.shared
               calls := s.calls.set i (request', S.after request' stage s.shared) } := by
      simp only [machine, step, hcall, hrest]
    refine ⟨_, hstep, ?_⟩
    simp only [Counted.moved, hpool, pool, map_set, S.rest_after hrest]

theorem throughout_of_staged {I : Pool σ ρ α → Prop} {J : Staged σ ρ Stage → Prop}
    (himp : ∀ {s}, J s → I (S.pool s)) {events : List (Event ρ)}
    (h : (S.machine shared).Throughout J (S.machine shared).init events) :
    (handlers (fun request => S.rest request S.start) shared).Throughout (fun c => I c.pool)
      (handlers (fun request => S.rest request S.start) shared).init events := by
  refine h.simulate (R := fun c s => c.pool = S.pool s) ?_ simulates rfl
  intro c s hpool hJ
  rw [hpool]
  exact himp hJ

end Staging

end AwgMesh.Lib
