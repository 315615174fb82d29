import Mathlib.Order.Lattice
import Mathlib.Data.List.Induction

/-! # Keeping the newest message -/

namespace AwgMesh.Lib

open List

variable {μ ν : Type} [LinearOrder ν] (version : μ → ν)

def keepNewest : Option μ → μ → Option μ
  | none, m => some m
  | some kept, m => if version m ≤ version kept then some kept else some m

def EarliestNewest (msgs : List μ) (m : μ) : Prop :=
  ∃ before after, msgs = before ++ m :: after ∧
    (∀ x ∈ before, version x < version m) ∧ ∀ x ∈ after, version x ≤ version m

variable {version}

theorem EarliestNewest.singleton (m : μ) : EarliestNewest version [m] m :=
  ⟨[], [], rfl, forall_mem_nil _, forall_mem_nil _⟩

variable {msgs : List μ}

theorem EarliestNewest.le {m x : μ} (h : EarliestNewest version msgs m)
    (hx : x ∈ msgs) : version x ≤ version m := by
  obtain ⟨before, after, rfl, hbefore, hafter⟩ := h
  rw [mem_append, mem_cons] at hx
  rcases hx with hx | rfl | hx
  · exact (hbefore x hx).le
  · exact le_refl _
  · exact hafter x hx

theorem EarliestNewest.append {kept : μ} (h : EarliestNewest version msgs kept)
    (m : μ) : ∃ kept', keepNewest version (some kept) m = some kept' ∧
      EarliestNewest version (msgs ++ [m]) kept' := by
  unfold keepNewest
  dsimp only
  split
  next hle =>
    obtain ⟨before, after, rfl, hbefore, hafter⟩ := h
    refine ⟨kept, rfl, before, after ++ [m], by rw [append_assoc, cons_append], hbefore,
      ?_⟩
    rw [forall_mem_append]
    exact ⟨hafter, fun x hx => mem_singleton.mp hx ▸ hle⟩
  next hgt =>
    refine ⟨m, rfl, msgs, [], rfl, ?_, forall_mem_nil _⟩
    intro x hx
    exact lt_of_le_of_lt (h.le hx) (not_le.mp hgt)

theorem foldl_keepNewest (version : μ → ν) (msgs : List μ) :
    (msgs = [] ∧ msgs.foldl (keepNewest version) none = none) ∨
      ∃ m, msgs.foldl (keepNewest version) none = some m ∧ EarliestNewest version msgs m := by
  induction msgs using reverseRecOn with
  | nil => exact .inl ⟨rfl, rfl⟩
  | append_singleton msgs m ih =>
    rw [foldl_append, foldl_cons, foldl_nil]
    rcases ih with ⟨rfl, hfold⟩ | ⟨kept, hfold, hkept⟩
    · rw [hfold]
      exact .inr ⟨m, rfl, .singleton m⟩
    · rw [hfold]
      exact .inr (hkept.append m)

/-! ## A slot for a versioned value -/

structure Slot (ν β : Type) where
  seen : Bool
  version : ν
  value : β

namespace Slot

variable {β : Type} (version : μ → ν) (value : μ → β)

def receive (s : Slot ν β) (m : μ) : Slot ν β :=
  if !s.seen then { seen := true, version := version m, value := value m }
  else if version m ≤ s.version then s
  else { s with version := version m, value := value m }

def holding (s : Slot ν β) : Option μ → Slot ν β
  | none => s
  | some m => { seen := true, version := version m, value := value m }

variable {version value}

variable {s : Slot ν β}

theorem receive_of_seen (hs : s.seen = true) (m : μ) :
    s.receive version value m =
      if version m ≤ s.version then s else { s with version := version m, value := value m } := by
  unfold receive
  rw [if_neg (by rw [hs]; exact Bool.false_ne_true)]

theorem receive_holding (hs : s.seen = false) (kept : Option μ) (m : μ) :
    (s.holding version value kept).receive version value m =
      s.holding version value (keepNewest version kept m) := by
  cases kept with
  | none =>
    show s.receive version value m = _
    unfold receive
    rw [if_pos (by rw [hs]; rfl)]
    rfl
  | some k =>
    rw [receive_of_seen rfl, keepNewest]
    show (if version m ≤ version k then _ else _) = _
    split <;> rfl

theorem foldl_receive (hs : s.seen = false) (msgs : List μ) :
    msgs.foldl (receive version value) s =
      s.holding version value (msgs.foldl (keepNewest version) none) := by
  induction msgs using reverseRecOn with
  | nil => rfl
  | append_singleton msgs m ih =>
    rw [foldl_append, foldl_append, ih]
    exact receive_holding hs _ m

theorem version_le_foldl_receive (hs : s.seen = true) (msgs : List μ) :
    s.version ≤ (msgs.foldl (receive version value) s).version := by
  induction msgs generalizing s with
  | nil => exact le_refl _
  | cons m rest ih =>
    rw [foldl_cons, receive_of_seen hs]
    split
    · exact ih hs
    next hgt =>
      refine (not_le.mp hgt).le.trans ?_
      exact ih (s := { s with version := version m, value := value m }) hs

variable {msgs : List μ}

theorem foldl_receive_of_ne_nil (hs : s.seen = false)
    (hmsgs : msgs ≠ []) : ∃ m, EarliestNewest version msgs m ∧
      msgs.foldl (receive version value) s =
        { seen := true, version := version m, value := value m } := by
  rw [foldl_receive hs]
  rcases foldl_keepNewest version msgs with ⟨hnil, -⟩ | ⟨m, hfold, hm⟩
  · exact absurd hnil hmsgs
  · exact ⟨m, hm, by rw [hfold]; rfl⟩

theorem version_le_foldl_append (hs : s.seen = false) (hmsgs : msgs ≠ []) (more : List μ) :
    (msgs.foldl (receive version value) s).version ≤
      ((msgs ++ more).foldl (receive version value) s).version := by
  have hseen : (msgs.foldl (receive version value) s).seen = true := by
    obtain ⟨m, -, hslot⟩ := foldl_receive_of_ne_nil hs hmsgs
    rw [hslot]
  rw [foldl_append]
  exact version_le_foldl_receive hseen more

end Slot

end AwgMesh.Lib
