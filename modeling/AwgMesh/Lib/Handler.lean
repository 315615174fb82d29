import Mathlib.Data.List.Basic

/-! # Handlers as sequences of atomic calls -/

namespace AwgMesh.Lib

open List

inductive Handler (σ α : Type) : Type where
  | done (a : α) : Handler σ α
  | call (upd : σ → σ) (next : σ → Handler σ α) : Handler σ α

namespace Handler

variable {σ α β : Type}

protected def bind : Handler σ α → (α → Handler σ β) → Handler σ β
  | .done a, k => k a
  | .call upd next, k => .call upd fun s => (next s).bind k

instance : Monad (Handler σ) where
  pure := .done
  bind := Handler.bind

def atomic (f : σ → σ × α) : Handler σ α :=
  .call (fun s => (f s).1) fun s => .done (f s).2

def read (f : σ → α) : Handler σ α := atomic fun s => (s, f s)

def outcome {ε : Type} (failure : Option ε) (f : σ → Except ε (σ × α)) (s : σ) : σ × Except ε α :=
  match failure, f s with
  | some err, _ => (s, .error err)
  | none, .error err => (s, .error err)
  | none, .ok (s', a) => (s', .ok a)

def attempt {ε : Type} (failure : Option ε) (f : σ → Except ε (σ × α)) : Handler σ (Except ε α) :=
  atomic (outcome failure f)

def andThen {ε : Type} (x : Handler σ (Except ε α)) (k : α → Handler σ (Except ε β)) :
    Handler σ (Except ε β) :=
  x >>= fun
    | .ok a => k a
    | .error err => pure (.error err)

def run : Handler σ α → σ → σ × α
  | .done a, s => (s, a)
  | .call upd next, s => (next s).run (upd s)

def Steps (Q : σ → σ → Prop) : Handler σ α → σ → Prop
  | .done _, _ => True
  | .call upd next, s => Q s (upd s) ∧ Steps Q (next s) (upd s)

/-! ## How `run` composes -/

@[simp] theorem run_pure (a : α) (s : σ) : (pure a : Handler σ α).run s = (s, a) := rfl

@[simp] theorem run_bind (x : Handler σ α) (k : α → Handler σ β) (s : σ) :
    (x >>= k).run s = (k (x.run s).2).run (x.run s).1 := by
  induction x generalizing s with
  | done a => rfl
  | call upd next ih => exact ih s (upd s)

@[simp] theorem run_map (f : α → β) (x : Handler σ α) (s : σ) :
    (f <$> x).run s = ((x.run s).1, f (x.run s).2) := run_bind x _ s

@[simp] theorem run_atomic (f : σ → σ × α) (s : σ) : (atomic f).run s = f s := rfl

variable {ε : Type}

theorem outcome_cases (failure : Option ε) (f : σ → Except ε (σ × α)) (s : σ) :
    (∃ err, outcome failure f s = (s, .error err)) ∨
      ∃ s' a, failure = none ∧ f s = .ok (s', a) ∧ outcome failure f s = (s', .ok a) := by
  unfold outcome
  cases failure with
  | some err => exact .inl ⟨err, rfl⟩
  | none =>
    cases hf : f s with
    | error err => exact .inl ⟨err, rfl⟩
    | ok out => exact .inr ⟨out.1, out.2, rfl, rfl, rfl⟩

@[simp] theorem run_attempt (failure : Option ε) (f : σ → Except ε (σ × α)) (s : σ) :
    (attempt failure f).run s = outcome failure f s := rfl

@[simp] theorem run_read (f : σ → α) (s : σ) : (read f).run s = (s, f s) := rfl

/-! ## How `Steps` composes -/

section Steps

variable {Q Q' : σ → σ → Prop} {x : Handler σ α} {k : α → Handler σ β} {s : σ}

theorem Steps.pure (a : α) (s : σ) : Steps Q (pure a : Handler σ α) s := trivial

theorem Steps.bind (hx : Steps Q x s) (hk : Steps Q (k (x.run s).2) (x.run s).1) :
    Steps Q (x >>= k) s := by
  induction x generalizing s with
  | done a => exact hk
  | call upd next ih => exact ⟨hx.1, ih s hx.2 hk⟩

theorem Steps.map (f : α → β) (hx : Steps Q x s) : Steps Q (f <$> x) s :=
  Steps.bind hx (Steps.pure _ _)

theorem Steps.atomic {f : σ → σ × α} (h : Q s (f s).1) : Steps Q (atomic f) s := ⟨h, trivial⟩

theorem Steps.read {f : σ → α} (h : Q s s) : Steps Q (read f) s := ⟨h, trivial⟩

theorem Steps.imp (himp : ∀ {s t}, Q s t → Q' s t) (h : Steps Q x s) : Steps Q' x s := by
  induction x generalizing s with
  | done a => trivial
  | call upd next ih => exact ⟨himp h.1, ih s h.2⟩

theorem Steps.run (hrefl : ∀ s, Q s s) (htrans : ∀ {s t u}, Q s t → Q t u → Q s u)
    (h : Steps Q x s) : Q s (x.run s).1 := by
  induction x generalizing s with
  | done a => exact hrefl s
  | call upd next ih => exact htrans h.1 (ih s h.2)

end Steps

/-! ## What a handler alone ends with -/

section Ends

variable {Post : σ → α → Prop} {Post' : σ → β → Prop} {x : Handler σ α} {k : α → Handler σ β}
  {s : σ}

def Ends (Post : σ → α → Prop) (x : Handler σ α) (s : σ) : Prop := Post (x.run s).1 (x.run s).2

theorem Ends.pure {a : α} (h : Post s a) : Ends Post (pure a) s := h

theorem Ends.bind (hx : Ends Post x s) (hk : ∀ s' a, Post s' a → Ends Post' (k a) s') :
    Ends Post' (x >>= k) s := by
  unfold Ends
  rw [run_bind]
  exact hk _ _ hx

theorem Ends.bind_any (hk : ∀ s' a, Ends Post' (k a) s') : Ends Post' (x >>= k) s := by
  unfold Ends
  rw [run_bind]
  exact hk _ _

theorem Ends.map {f : α → β} (hx : Ends Post x s) (hf : ∀ s' a, Post s' a → Post' s' (f a)) :
    Ends Post' (f <$> x) s :=
  hx.bind fun s' a ha => Ends.pure (hf s' a ha)

theorem Ends.mono {Post' : σ → α → Prop} (hx : Ends Post x s)
    (himp : ∀ s' a, Post s' a → Post' s' a) : Ends Post' x s := himp _ _ hx

variable {ε : Type} {Post : σ → Except ε α → Prop}

theorem Ends.andThen {x : Handler σ (Except ε α)} {k : α → Handler σ (Except ε β)}
    {Post' : σ → Except ε β → Prop} (hx : Ends Post x s)
    (herr : ∀ s' err, Post s' (.error err) → Post' s' (.error err))
    (hk : ∀ s' a, Post s' (.ok a) → Ends Post' (k a) s') : Ends Post' (andThen x k) s := by
  refine hx.bind ?_
  intro s' out hout
  cases out with
  | ok a => exact hk s' a hout
  | error err => exact Ends.pure (herr s' err hout)

theorem Ends.attempt {failure : Option ε} {f : σ → Except ε (σ × α)}
    (herr : ∀ err, failure = some err ∨ f s = .error err → Post s (.error err))
    (hok : ∀ t a, failure = none → f s = .ok (t, a) → Post t (.ok a)) :
    Ends Post (attempt failure f) s := by
  unfold Ends
  rw [run_attempt]
  unfold outcome
  cases failure with
  | some err => exact herr err (.inl rfl)
  | none =>
    cases hf : f s with
    | error err => exact herr err (.inr hf)
    | ok out => exact hok out.1 out.2 rfl hf

end Ends

/-! ## Handlers with a watcher

`μ` are the changes the watcher is notified of, `R` the changes that make no difference to it. -/

section Watched

variable {μ R : σ → σ → Prop} {F : σ → Prop}

def Catches (μ R : σ → σ → Prop) : Handler σ α → σ → Prop
  | .done _, _ => False
  | .call upd next, s =>
    (μ s (upd s) ∧ Steps R (next s) (upd s)) ∨ Catches μ R (next s) (upd s)

theorem calm_or_catches {x : Handler σ α} {s : σ} (hF : ∀ {s t}, R s t → F t → F s)
    (hrefl : ∀ s, R s s) (htrans : ∀ {s t u}, R s t → R t u → R s u)
    (h : Steps (fun s t => μ s t ∨ (F t → R s t)) x s) (hend : F (x.run s).1) :
    Steps R x s ∨ Catches μ R x s := by
  induction x generalizing s with
  | done a => exact .inl trivial
  | call upd next ih =>
    obtain ⟨hstep, hrest⟩ := h
    rcases ih s hrest hend with hcalm | hcatch
    · have hnow : F (upd s) := hF (hcalm.run hrefl htrans) hend
      rcases hstep with hμ | hR
      · exact .inr (.inl ⟨hμ, hcalm⟩)
      · exact .inl ⟨hR hnow, hcalm⟩
    · exact .inr (.inr hcatch)

end Watched

end Handler

/-! ## Handlers side by side -/

namespace Handler

variable {σ α β : Type}

def Guarded (J : σ → Prop) (Q : σ → σ → Prop) (R : α → Prop) : Handler σ α → Prop
  | .done a => R a
  | .call upd next => ∀ s, J s → Q s (upd s) ∧ (J (upd s) → Guarded J Q R (next s))

def isDone : Handler σ α → Bool
  | .done _ => true
  | .call _ _ => false

section Guarded

variable {J : σ → Prop} {Q : σ → σ → Prop} {R : α → Prop} {R' : β → Prop} {x : Handler σ α}
  {k : α → Handler σ β}

theorem Guarded.pure {a : α} (h : R a) : Guarded J Q R (pure a : Handler σ α) := h

theorem Guarded.bind (hx : Guarded J Q R x) (hk : ∀ a, R a → Guarded J Q R' (k a)) :
    Guarded J Q R' (x >>= k) := by
  induction x with
  | done a => exact hk a hx
  | call upd next ih =>
    intro s hs
    obtain ⟨hstep, hrest⟩ := hx s hs
    exact ⟨hstep, fun hJ => ih s (hrest hJ)⟩

theorem Guarded.map {f : α → β} (hx : Guarded J Q R x) (hf : ∀ a, R a → R' (f a)) :
    Guarded J Q R' (f <$> x) :=
  hx.bind fun a ha => Guarded.pure (hf a ha)

theorem Guarded.atomic {f : σ → σ × α} (h : ∀ s, J s → Q s (f s).1 ∧ (J (f s).1 → R (f s).2)) :
    Guarded J Q R (atomic f) := h

theorem Guarded.read {f : σ → α} (hrefl : ∀ s, J s → Q s s) (h : ∀ s, J s → R (f s)) :
    Guarded J Q R (read f) :=
  Guarded.atomic fun s hs => ⟨hrefl s hs, fun _ => h s hs⟩

end Guarded

end Handler

structure Thread (σ ρ α : Type) where
  request : ρ
  program : Handler σ α

structure Pool (σ ρ α : Type) where
  shared : σ
  threads : List (Thread σ ρ α) := []

namespace Pool

variable {σ ρ α : Type} {p q : Pool σ ρ α} {i : Nat}

def spawn (p : Pool σ ρ α) (request : ρ) (program : Handler σ α) : Pool σ ρ α :=
  { p with threads := p.threads ++ [⟨request, program⟩] }

/-- The next call of the `i`-th handler. -/
def advance (p : Pool σ ρ α) (i : Nat) : Option (Pool σ ρ α) :=
  match p.threads[i]? with
  | some ⟨request, .call upd next⟩ =>
    some { shared := upd p.shared, threads := p.threads.set i ⟨request, next p.shared⟩ }
  | _ => none

def inFlight (p : Pool σ ρ α) : List ρ :=
  (p.threads.filter fun t => !t.program.isDone).map (·.request)

theorem spawn_getElem? {request : ρ} {program : Handler σ α} {t : Thread σ ρ α}
    (h : (p.spawn request program).threads[i]? = some t) :
    p.threads[i]? = some t ∨ i = p.threads.length ∧ t = ⟨request, program⟩ := by
  unfold spawn at h
  rw [getElem?_append] at h
  split at h
  · exact .inl h
  · next hi =>
      right
      rw [getElem?_singleton] at h
      split at h
      · cases h
        exact ⟨by omega, rfl⟩
      · cases h

theorem mem_inFlight {t : Thread σ ρ α} (h : t ∈ p.threads) (hdone : t.program.isDone = false) :
    t.request ∈ p.inFlight := by
  unfold inFlight
  exact mem_map_of_mem (mem_filter.mpr ⟨h, by rw [hdone]; rfl⟩)

theorem advance_eq_some (h : p.advance i = some q) :
    ∃ request upd next, p.threads[i]? = some ⟨request, .call upd next⟩ ∧
      q = { shared := upd p.shared, threads := p.threads.set i ⟨request, next p.shared⟩ } := by
  unfold advance at h
  split at h
  · next request upd next hi =>
      cases h
      exact ⟨request, upd, next, hi, rfl⟩
  · cases h

def Guarded (J : σ → Prop) (Q : σ → σ → Prop) (p : Pool σ ρ α) : Prop :=
  ∀ t ∈ p.threads, t.program.Guarded J Q fun _ => True

variable {J : σ → Prop} {Q : σ → σ → Prop}

theorem Guarded.of_isDone (h : ∀ t ∈ p.threads, t.program.isDone = true) : p.Guarded J Q := by
  intro t ht
  have hdone := h t ht
  obtain ⟨request, program⟩ := t
  cases program with
  | done a => exact trivial
  | call upd next => cases hdone

theorem Guarded.advance (hp : p.Guarded J Q) (hJ : J p.shared) (hadv : p.advance i = some q) :
    Q p.shared q.shared ∧ (J q.shared → q.Guarded J Q) := by
  obtain ⟨request, upd, next, hi, rfl⟩ := advance_eq_some hadv
  obtain ⟨hstep, hrest⟩ := hp _ (mem_of_getElem? hi) p.shared hJ
  refine ⟨hstep, ?_⟩
  intro hJ' t ht
  rcases mem_or_eq_of_mem_set ht with hold | rfl
  · exact hp t hold
  · exact hrest hJ'

theorem Guarded.spawn (hp : p.Guarded J Q) {program : Handler σ α}
    (h : program.Guarded J Q fun _ => True) (request : ρ) :
    (p.spawn request program).Guarded J Q := by
  intro t ht
  rcases mem_append.mp ht with ht | ht
  · exact hp t ht
  · rw [mem_singleton] at ht
    exact ht ▸ h

end Pool

end AwgMesh.Lib
