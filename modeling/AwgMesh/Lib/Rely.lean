import AwgMesh.Lib.Sweep
import AwgMesh.Lib.FileSystem

/-! # What handlers can rely on -/

namespace AwgMesh.Lib

namespace Handler

variable {σ α β : Type}

/-- If the others keep to `R`, the handler does, and its answer meets `Post` from then on. -/
def Abides (R : σ → σ → Prop) (Post : σ → α → Prop) : Handler σ α → σ → Prop
  | .done a, s => ∀ s', R s s' → Post s' a
  | .call upd next, s => ∀ s', R s s' → R s' (upd s') ∧ Abides R Post (next s') (upd s')

section Rules

variable {R : σ → σ → Prop} {Post : σ → α → Prop} {Post' : σ → β → Prop} {x : Handler σ α}
  {k : α → Handler σ β} {s s' : σ}

theorem Abides.later (htrans : ∀ {s t u}, R s t → R t u → R s u) (h : Abides R Post x s)
    (hR : R s s') : Abides R Post x s' := by
  cases x with
  | done a => exact fun t ht => h t (htrans hR ht)
  | call upd next => exact fun t ht => h t (htrans hR ht)

theorem Abides.pure {a : α} (h : ∀ s', R s s' → Post s' a) : Abides R Post (pure a) s := h

theorem Abides.bind (hrefl : ∀ s, R s s) (hx : Abides R Post x s)
    (hk : ∀ s' a, Post s' a → Abides R Post' (k a) s') : Abides R Post' (x >>= k) s := by
  induction x generalizing s with
  | done a => exact hk s a (hx s (hrefl s))
  | call upd next ih =>
    intro t ht
    obtain ⟨hstep, hrest⟩ := hx t ht
    exact ⟨hstep, ih t hrest⟩

theorem Abides.map (hrefl : ∀ s, R s s) {f : α → β} (hx : Abides R Post x s)
    (hf : ∀ s' a, Post s' a → ∀ t, R s' t → Post' t (f a)) : Abides R Post' (f <$> x) s :=
  Abides.bind hrefl hx fun s' a ha => Abides.pure (hf s' a ha)

theorem Abides.frame {F : σ → Prop} (hF : ∀ {s t}, R s t → F s → F t)
    (h : Abides R Post x s) (hs : F s) : Abides R (fun t a => Post t a ∧ F t) x s := by
  induction x generalizing s with
  | done a => exact fun t ht => ⟨h t ht, hF ht hs⟩
  | call upd next ih =>
    intro t ht
    obtain ⟨hstep, hrest⟩ := h t ht
    exact ⟨hstep, ih t hrest (hF hstep (hF ht hs))⟩

theorem Abides.andThen {ε : Type} {x : Handler σ (Except ε α)} {k : α → Handler σ (Except ε β)}
    {Post : σ → Except ε α → Prop} {Post' : σ → Except ε β → Prop} (hrefl : ∀ s, R s s)
    (hx : Abides R Post x s)
    (herr : ∀ s' err, Post s' (.error err) → ∀ t, R s' t → Post' t (.error err))
    (hk : ∀ s' a, Post s' (.ok a) → Abides R Post' (k a) s') : Abides R Post' (andThen x k) s := by
  refine Abides.bind hrefl hx ?_
  intro s' out hout
  cases out with
  | ok a => exact hk s' a hout
  | error err => exact Abides.pure (herr s' err hout)

theorem Abides.atomic {f : σ → σ × α}
    (h : ∀ s', R s s' → R s' (f s').1 ∧ ∀ t, R (f s').1 t → Post t (f s').2) :
    Abides R Post (atomic f) s := h

theorem Abides.attempt {ε : Type} {failure : Option ε} {f : σ → Except ε (σ × α)}
    {Post : σ → Except ε α → Prop} (hrefl : ∀ s, R s s) (htrans : ∀ {s t u}, R s t → R t u → R s u)
    (herr : ∀ err t, R s t → Post t (.error err))
    (hok : ∀ s' t a, R s s' → f s' = .ok (t, a) → R s' t ∧ ∀ u, R t u → Post u (.ok a)) :
    Abides R Post (attempt failure f) s := by
  refine Abides.atomic fun s' hR => ?_
  rcases outcome_cases failure f s' with ⟨err, hout⟩ | ⟨t, a, -, hf, hout⟩
  · rw [hout]
    exact ⟨hrefl s', fun t ht => herr err t (htrans hR ht)⟩
  · rw [hout]
    exact hok s' t a hR hf

end Rules

end Handler

/-! ## Any number of handlers -/

section Pool

variable {σ ρ α : Type} {R : σ → σ → Prop} {Post : σ → α → Prop} {program : ρ → Handler σ α}
  {shared : σ}

theorem abides_of_reachable (hrefl : ∀ s, R s s) (htrans : ∀ {s t u}, R s t → R t u → R s u)
    (hprogram : ∀ request s, R shared s → (program request).Abides R Post s)
    {c : Counted σ ρ α} (h : (handlers program shared).Reachable c) :
    R shared c.pool.shared ∧ ∀ t ∈ c.pool.threads, t.program.Abides R Post c.pool.shared := by
  refine h.invariant (I := fun c => R shared c.pool.shared ∧
    ∀ t ∈ c.pool.threads, t.program.Abides R Post c.pool.shared) ⟨hrefl shared, nofun⟩ ?_
  rintro c event c' ⟨hshared, hthreads⟩ hstep
  cases event with
  | start request =>
    cases hstep
    refine ⟨hshared, ?_⟩
    intro t ht
    rcases List.mem_append.mp ht with ht | ht
    · exact hthreads t ht
    · rw [List.mem_singleton] at ht
      exact ht ▸ hprogram request _ hshared
  | next i =>
    obtain ⟨request, upd, next, hi, rfl⟩ := Counted.step_next hstep
    have habides := hthreads _ (List.mem_of_getElem? hi)
    obtain ⟨hR, hnext⟩ := habides c.pool.shared (hrefl _)
    refine ⟨htrans hshared hR, ?_⟩
    intro t ht
    rcases List.mem_or_eq_of_mem_set ht with hold | rfl
    · exact (hthreads t hold).later htrans hR
    · exact hnext

end Pool

/-! ## Files that several programs use -/

abbrev Files (P β : Type) := P → Option β

namespace Files

variable {P β : Type} [DecidableEq P]

def read (path : P) (s : Files P β) : Except OsError (Files P β × β) :=
  match s path with
  | some content => .ok (s, content)
  | none => .error .notExist

def link (path : P) (content : β) (s : Files P β) : Except OsError (Files P β × Unit) :=
  match s path with
  | some _ => .error .exist
  | none => .ok (Function.update s path (some content), ())

def write (path : P) (content : β) (s : Files P β) : Except OsError (Files P β × Unit) :=
  .ok (Function.update s path (some content), ())

def own (s : Files P β) : Except OsError (Files P β × Unit) := .ok (s, ())

def Grows (s t : Files P β) : Prop := ∀ path content, s path = some content → t path = some content

omit [DecidableEq P] in
theorem Grows.refl (s : Files P β) : Grows s s := fun _ _ h => h

omit [DecidableEq P] in
theorem Grows.trans {s t u : Files P β} (h : Grows s t) (h' : Grows t u) : Grows s u :=
  fun path content hget => h' path content (h path content hget)

omit [DecidableEq P] in
theorem read_eq_ok {path : P} {s t : Files P β} {content : β}
    (h : read path s = .ok (t, content)) : t = s ∧ s path = some content := by
  unfold read at h
  split at h
  · next hget =>
      cases h
      exact ⟨rfl, hget⟩
  · cases h

omit [DecidableEq P] in
@[simp] theorem outcome_read_fst (failure : Option OsError) (path : P) (s : Files P β) :
    (Handler.outcome failure (read path) s).1 = s := by
  rcases Handler.outcome_cases failure (read path) s with ⟨err, hout⟩ | ⟨t, content, -, hread, hout⟩
  · rw [hout]
  · rw [hout]
    exact (read_eq_ok hread).1

theorem link_eq_ok {path : P} {content : β} {s t : Files P β} {u : Unit}
    (h : link path content s = .ok (t, u)) :
    Grows s t ∧ t = Function.update s path (some content) := by
  unfold link at h
  split at h
  · cases h
  · next hnone =>
      cases h
      refine ⟨?_, rfl⟩
      intro path' content' hold
      have hne : path' ≠ path := by
        rintro rfl
        rw [hnone] at hold
        cases hold
      rw [Function.update_of_ne hne, hold]

end Files

end AwgMesh.Lib
