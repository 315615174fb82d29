import Mathlib.Data.List.DropRight

/-!
# Sticky ECMP rules

`EnableStickyECMP` and `DisableStickyECMP` of `pkg/routing/nftables.go`, from the network that
`net.ParseCIDR` gives on.
-/

namespace AwgMesh.Routing

open List

structure Network where
  ip : BitVec 32
  mask : BitVec 32
  deriving DecidableEq

inductive Expr where
  | payload (register : Nat) (networkHeader : Bool) (offset len : Nat)
  | bitwise (register : Nat) (mask xor : BitVec 32)
  | cmp (eq : Bool) (register : Nat) (data : BitVec 32)
  | ctState (register : Nat)
  | ctMark (register : Nat) (sourceRegister : Bool)
  | metaMark (register : Nat) (sourceRegister : Bool)
  deriving DecidableEq

def cidrFilterExprs (n : Network) : List Expr :=
  [.payload 2 true 16 4, .bitwise 2 n.mask 0, .cmp true 2 n.ip]

inductive Chain where
  | prerouting
  | postrouting

/-- `preExprs` restore the mark of an established connection, `postExprs` save that of a new one. -/
def stickyExprs (n : Network) : Chain → List Expr
  | .prerouting => cidrFilterExprs n ++ [.ctState 1, .bitwise 1 0x06000000 0, .cmp false 1 0,
      .ctMark 1 false, .metaMark 1 true]
  | .postrouting => cidrFilterExprs n ++ [.ctState 1, .bitwise 1 0x08000000 0, .cmp false 1 0,
      .metaMark 1 false, .ctMark 1 true]

def ruleMatchesCIDR (n : Network) : List Expr → Bool
  | .payload _ networkHeader offset len :: .bitwise _ mask _ :: .cmp eq _ data :: _ =>
    networkHeader && offset = 16 && len = 4 && mask = n.mask && eq && data = n.ip
  | _ => false

/-- The rules in the kernel, and whether the firewall value in use has its `table`. -/
structure System where
  table : Bool := false
  rules : Chain → List (List Expr) := fun _ => []

inductive Event where
  | restart
  | enable (n : Network)
  | disable (n : Network)
  deriving DecidableEq

def System.step (s : System) : Event → System
  | .restart => { s with table := false }
  | .enable n => { table := true, rules c := s.rules c ++ [stickyExprs n c] }
  | .disable n =>
    if s.table then { s with rules c := (s.rules c).filter (!ruleMatchesCIDR n ·) } else s

def run (ls : List Event) : System := ls.foldl System.step {}

/-! ## What the rules should be -/

def lastCall (n : Network) (ls : List Event) : Option Event :=
  (ls.filter fun e => e = .enable n ∨ e = .disable n).getLast?

/-- A rule is there exactly if the last call for its network enabled it. -/
structure FollowsLast (ls : List Event) : Prop where
  rules : ∀ n c, stickyExprs n c ∈ (run ls).rules c ↔ lastCall n ls = some (.enable n)
  others : ∀ s e n c, e ≠ .enable n → e ≠ .disable n →
    ((System.step s e).rules c).filter (ruleMatchesCIDR n) =
      (s.rules c).filter (ruleMatchesCIDR n)

/-- The process has enabled a network since it started. -/
def Armed (ls : List Event) : Prop := ∃ n, .enable n ∈ ls.rtakeWhile (· ≠ .restart)

/-- A network that is disabled in the end was disabled, since it was last enabled, by a process
that had enabled some network before. -/
def DisabledArmed (ls : List Event) : Prop :=
  ∀ n a b, ls = a ++ .enable n :: b → .enable n ∉ b → .disable n ∈ b →
    ∃ x, x ++ [.disable n] <+: b ∧ Armed (a ++ .enable n :: x)

/-! ## One call -/

variable {m n : Network} {c : Chain} {ls a b : List Event} {e : Event}

theorem ruleMatchesCIDR_stickyExprs :
    ruleMatchesCIDR n (stickyExprs m c) = decide (m = n) := by
  obtain ⟨ip, mask⟩ := m
  obtain ⟨ip', mask'⟩ := n
  cases c <;> simp [ruleMatchesCIDR, stickyExprs, cidrFilterExprs, Bool.and_comm]

theorem eq_of_ruleMatchesCIDR {rule : List Expr} (hm : ruleMatchesCIDR m rule = true)
    (hn : ruleMatchesCIDR n rule = true) : m = n := by
  obtain ⟨ip, mask⟩ := m
  obtain ⟨ip', mask'⟩ := n
  unfold ruleMatchesCIDR at hm hn
  split at hm
  · simp_all
  · cases hm

theorem run_concat (ls : List Event) (e : Event) : run (ls ++ [e]) = (run ls).step e := by
  rw [run, foldl_append]
  rfl

theorem armed_concat : Armed (ls ++ [e]) ↔ (∃ n, e = .enable n) ∨ e ≠ .restart ∧ Armed ls := by
  unfold Armed
  rw [rtakeWhile_concat]
  cases e <;> simp

theorem table_run_iff (ls : List Event) : (run ls).table = true ↔ Armed ls := by
  induction ls using reverseRecOn with
  | nil => simp [run, Armed]
  | append_singleton ls e ih =>
    rw [run_concat, armed_concat, ← ih]
    cases e with
    | restart => simp [System.step]
    | enable n => simp [System.step]
    | disable n => by_cases h : (run ls).table <;> simp [System.step, h]

theorem mem_rules_concat : stickyExprs n c ∈ (run (ls ++ [e])).rules c ↔
    e = .enable n ∨ stickyExprs n c ∈ (run ls).rules c ∧ (e = .disable n → ¬ Armed ls) := by
  rw [run_concat, ← table_run_iff]
  cases e with
  | restart => simp [System.step]
  | enable m =>
    have hinj : stickyExprs n c = stickyExprs m c ↔ m = n := by
      refine ⟨fun h => ?_, fun h => h ▸ rfl⟩
      have hmatch := ruleMatchesCIDR_stickyExprs (m := m) (n := n) (c := c)
      rw [← h, ruleMatchesCIDR_stickyExprs] at hmatch
      simpa using hmatch
    simp [System.step, hinj, or_comm]
  | disable m =>
    by_cases h : (run ls).table
    · simp [System.step, h, ruleMatchesCIDR_stickyExprs, @eq_comm _ n m]
    · simp [System.step, h]

theorem others_step (s : System) (henable : e ≠ .enable n) (hdisable : e ≠ .disable n) :
    ((s.step e).rules c).filter (ruleMatchesCIDR n) = (s.rules c).filter (ruleMatchesCIDR n) := by
  cases e with
  | restart => rfl
  | enable m =>
    have hne : m ≠ n := fun h => henable (h ▸ rfl)
    simp [System.step, filter_append, ruleMatchesCIDR_stickyExprs, hne]
  | disable m =>
    rw [System.step]
    split
    · rw [filter_filter]
      refine filter_congr fun rule _ => ?_
      cases hn : ruleMatchesCIDR n rule with
      | false => rfl
      | true =>
        cases hm : ruleMatchesCIDR m rule with
        | false => rfl
        | true => exact absurd (eq_of_ruleMatchesCIDR hm hn ▸ rfl) hdisable
    · rfl

/-! ## A sequence of calls -/

theorem not_mem_rules (h : .enable n ∉ ls) : stickyExprs n c ∉ (run ls).rules c := by
  induction ls using reverseRecOn with
  | nil => exact not_mem_nil
  | append_singleton ls e ih =>
    simp only [mem_append, mem_singleton, not_or] at h
    rw [mem_rules_concat]
    rintro (rfl | ⟨hmem, -⟩)
    · exact h.2 rfl
    · exact ih h.1 hmem

/-- After the last call that enables `n`, only an armed process takes its rules away. -/
theorem mem_rules_iff (h : .enable n ∉ b) :
    stickyExprs n c ∈ (run (a ++ .enable n :: b)).rules c ↔
      ∀ x, x ++ [.disable n] <+: b → ¬ Armed (a ++ .enable n :: x) := by
  induction b using reverseRecOn with
  | nil => simp [mem_rules_concat]
  | append_singleton b e ih =>
    simp only [mem_append, mem_singleton, not_or] at h
    rw [← cons_append, ← append_assoc, mem_rules_concat, ih h.1]
    constructor
    · rintro (rfl | ⟨hall, hlast⟩) x hx
      · exact absurd rfl h.2
      rcases prefix_concat_iff.mp hx with heq | hx
      · obtain ⟨rfl, he⟩ := append_inj' heq rfl
        exact hlast (singleton_inj.mp he).symm
      · exact hall x hx
    · intro hall
      refine .inr ⟨fun x hx => hall x (prefix_concat_iff.mpr (.inr hx)), ?_⟩
      rintro rfl
      exact hall b (prefix_concat_iff.mpr (.inl rfl))

theorem lastCall_concat : lastCall n (ls ++ [e]) =
    if e = .enable n ∨ e = .disable n then some e else lastCall n ls := by
  unfold lastCall
  rw [filter_append]
  split
  · next h => simp [h]
  · next h => simp [h]

theorem lastCall_eq_iff (h : .enable n ∉ b) :
    lastCall n (a ++ .enable n :: b) = some (.enable n) ↔ .disable n ∉ b := by
  induction b using reverseRecOn with
  | nil => simp [lastCall_concat]
  | append_singleton b e ih =>
    simp only [mem_append, mem_singleton, not_or] at h ⊢
    rw [← cons_append, ← append_assoc, lastCall_concat]
    split
    · next hcall => simp [hcall.resolve_left (Ne.symm h.2)]
    · next hcall => rw [ih h.1, and_iff_left fun he => hcall (.inr he.symm)]

theorem follows_last_iff (ls : List Event) : FollowsLast ls ↔ DisabledArmed ls := by
  constructor
  · rintro h n a b rfl henable hdisable
    by_contra hno
    have hmem := (mem_rules_iff (c := .prerouting) henable).mpr fun x hx ha => hno ⟨x, hx, ha⟩
    exact (lastCall_eq_iff henable).mp ((h.rules n .prerouting).mp hmem) hdisable
  · intro h
    refine ⟨fun n c => ?_, fun s e n c => others_step s⟩
    by_cases henable : .enable n ∈ ls
    · -- from the last call that enables it on
      obtain ⟨y, x, hrev, hy⟩ := eq_append_cons_of_mem (mem_reverse.mpr henable)
      obtain rfl : ls = x.reverse ++ .enable n :: y.reverse := by
        rw [← ls.reverse_reverse, hrev]
        simp
      rw [← mem_reverse] at hy
      rw [mem_rules_iff hy, lastCall_eq_iff hy]
      constructor
      · intro hno hdisable
        obtain ⟨z, hz, harmed⟩ := h n _ _ rfl hy hdisable
        exact hno z hz harmed
      · intro hnot z hz
        exact absurd (hz.subset (by simp)) hnot
    · refine iff_of_false (not_mem_rules henable) fun hlast => henable ?_
      exact (mem_filter.mp (mem_of_getLast? hlast)).1

def ten : Network := ⟨0x0a000000, 0xff000000⟩

/-- **A restart.** The new process has no table, so that the rules stay. -/
theorem disable_after_restart : ¬ FollowsLast [.enable ten, .restart, .disable ten] := by
  intro h
  exact absurd ((h.rules ten .prerouting).mp (by decide)) (by decide)

end AwgMesh.Routing
