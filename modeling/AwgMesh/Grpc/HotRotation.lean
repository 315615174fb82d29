import AwgMesh.Clock
import AwgMesh.Lib.Machine

/-!
# Hot rotation of tokens and certificates

`newTokenHashProvider` and `getServerCertificate` of `pkg/grpc/server.go`.
-/

namespace AwgMesh.Grpc

/-- Later versions of a file have later times. -/
def Increasing (mtime : Nat → Time) : Prop := ∀ m n, m < n → mtime m < mtime n

theorem Increasing.eq_iff {mtime : Nat → Time} (h : Increasing mtime) {m n : Nat} :
    mtime m = mtime n ↔ m = n := by
  refine ⟨fun heq => ?_, congrArg mtime⟩
  rcases Nat.lt_trichotomy m n with hlt | rfl | hlt
  · exact absurd (heq ▸ h m n hlt) (Int.lt_irrefl _)
  · rfl
  · exact absurd (heq ▸ h n m hlt) (Int.lt_irrefl _)

section TokenHash

variable {α : Type} (content : Nat → α) (mtime : Nat → Time)

structure HashProvider (α : Type) where
  cached : α
  cachedMtime : Time

def newTokenHashProvider (load stat : Nat) : HashProvider α where
  cached := content load
  cachedMtime := mtime stat

def HashProvider.call (p : HashProvider α) (stat load : Nat) : α × HashProvider α :=
  if mtime stat = p.cachedMtime then (p.cached, p)
  else (content load, { cached := content load, cachedMtime := mtime stat })

def HashProvider.calls (p : HashProvider α) : List (Nat × Nat) → HashProvider α
  | [] => p
  | c :: rest => HashProvider.calls (p.call content mtime c.1 c.2).2 rest

end TokenHash

section Certificate

variable {α β γ : Type} (pair : α → β → Option γ) (crt : Nat → α) (key : Nat → β)
  (crtMtime keyMtime : Nat → Time)

structure CertCache (γ : Type) where
  cert : γ
  crtMtime : Time
  keyMtime : Time

structure CertLoad where
  crtLoad : Nat
  keyLoad : Nat
  crtStat : Nat
  keyStat : Nat

/-- After any loads, the last one first. -/
def cacheAfter : List CertLoad → Option (CertCache γ)
  | [] => none
  | l :: earlier =>
    match pair (crt l.crtLoad) (key l.keyLoad) with
    | some cert => some { cert, crtMtime := crtMtime l.crtStat, keyMtime := keyMtime l.keyStat }
    | none => cacheAfter earlier

def getServerCertificate (cache : Option (CertCache γ)) (lastCrt lastKey : Nat) (fallback : γ) :
    γ :=
  match cache with
  | some c =>
    if crtMtime lastCrt = c.crtMtime ∧ keyMtime lastKey = c.keyMtime then c.cert
    else (pair (crt lastCrt) (key lastKey)).getD c.cert
  | none => (pair (crt lastCrt) (key lastKey)).getD fallback

def lastStored : List CertLoad → Option (CertLoad × γ)
  | [] => none
  | l :: earlier =>
    match pair (crt l.crtLoad) (key l.keyLoad) with
    | some cert => some (l, cert)
    | none => lastStored earlier

theorem cacheAfter_eq (loads : List CertLoad) :
    cacheAfter pair crt key crtMtime keyMtime loads =
      (lastStored pair crt key loads).map fun stored =>
        { cert := stored.2, crtMtime := crtMtime stored.1.crtStat,
          keyMtime := keyMtime stored.1.keyStat } := by
  induction loads with
  | nil => rfl
  | cons l earlier ih =>
    rw [cacheAfter, lastStored]
    cases pair (crt l.crtLoad) (key l.keyLoad) with
    | some cert => rfl
    | none => exact ih

inductive CertStep where
  | check (crtStat keyStat : Nat)
  | load (l : CertLoad)

/-- Calls that overlap: the cache, and the number of those that have found it old and not loaded. -/
def certCalls : Lib.Machine (Option (CertCache γ) × Nat) CertStep where
  init := (none, 0)
  step s
    | .check crtStat keyStat =>
      if ∃ c ∈ s.1, crtMtime crtStat = c.crtMtime ∧ keyMtime keyStat = c.keyMtime then some s
      else some (s.1, s.2 + 1)
    | .load l =>
      if s.2 = 0 then none
      else
        some (match pair (crt l.crtLoad) (key l.keyLoad) with
          | some cert =>
            some { cert, crtMtime := crtMtime l.crtStat, keyMtime := keyMtime l.keyStat }
          | none => s.1, s.2 - 1)

/-- Calls that check the cache first leave what any loads leave. -/
theorem reachable_cache_iff (cache : Option (CertCache γ)) :
    (∃ old, (certCalls pair crt key crtMtime keyMtime).Reachable (cache, old)) ↔
      ∃ loads, cacheAfter pair crt key crtMtime keyMtime loads = cache := by
  constructor
  · rintro ⟨old, h⟩
    refine h.invariant
      (I := fun s => ∃ loads, cacheAfter pair crt key crtMtime keyMtime loads = s.1) ⟨[], rfl⟩ ?_
    rintro s (⟨crtStat, keyStat⟩ | l) t ⟨loads, hloads⟩ hstep
    all_goals
      unfold certCalls at hstep
      dsimp only at hstep
      split at hstep <;> cases hstep
    · exact ⟨loads, hloads⟩
    · exact ⟨loads, hloads⟩
    · exact ⟨l :: loads, hloads ▸ rfl⟩
  · rintro ⟨loads, rfl⟩
    -- All check before the first of them loads.
    suffices h : ∀ old, (certCalls pair crt key crtMtime keyMtime).Reachable
        (cacheAfter pair crt key crtMtime keyMtime loads, old) from ⟨0, h 0⟩
    intro old
    induction loads generalizing old with
    | nil =>
      induction old with
      | zero => exact .init
      | succ old ih => exact ih.step (l := .check 0 0) (by simp [certCalls, cacheAfter])
    | cons l earlier ih => exact (ih (old + 1)).step (l := .load l) rfl

variable {pair crt key crtMtime keyMtime}

theorem certificate_iff (hcrt : Increasing crtMtime) (hkey : Increasing keyMtime)
    {lastCrt lastKey : Nat} {fresh : γ} (hfresh : pair (crt lastCrt) (key lastKey) = some fresh)
    (loads : List CertLoad) (fallback : γ) :
    getServerCertificate pair crt key crtMtime keyMtime
        (cacheAfter pair crt key crtMtime keyMtime loads) lastCrt lastKey fallback = fresh ↔
      ∀ stored ∈ lastStored pair crt key loads,
        stored.1.crtStat = lastCrt → stored.1.keyStat = lastKey → stored.2 = fresh := by
  rw [cacheAfter_eq]
  cases lastStored pair crt key loads with
  | none => simp [getServerCertificate, hfresh]
  | some stored =>
    simp only [Option.map_some, getServerCertificate, hfresh, Option.getD_some, Option.mem_some_iff,
      forall_eq', hcrt.eq_iff, hkey.eq_iff]
    split
    next h => exact ⟨fun heq _ _ => heq, fun heq => heq h.1.symm h.2.symm⟩
    next h => exact iff_of_true rfl fun h1 h2 => absurd ⟨h1.symm, h2.symm⟩ h

end Certificate

section

variable {α : Type} {content : Nat → α} {mtime : Nat → Time} (hmtime : Increasing mtime)

include hmtime

theorem calls_sound {last : Nat} {p : HashProvider α} {calls : List (Nat × Nat)}
    (hcalls : ∀ c ∈ calls, c.1 ≤ c.2 ∧ c.2 ≤ last)
    (hp : p.cachedMtime = mtime last → p.cached = content last) :
    (p.calls content mtime calls).cachedMtime = mtime last →
      (p.calls content mtime calls).cached = content last := by
  induction calls generalizing p with
  | nil => exact hp
  | cons c rest ih =>
    obtain ⟨⟨hle, hlast⟩, hrest⟩ := List.forall_mem_cons.mp hcalls
    refine ih hrest fun htime => ?_
    unfold HashProvider.call at htime ⊢
    split at htime
    next heq =>
      rw [if_pos heq]
      exact hp htime
    next hne =>
      rw [if_neg hne]
      have : c.1 = last := hmtime.eq_iff.mp htime
      exact congrArg content (by omega)

theorem tokenHash_iff {load stat last : Nat} {calls : List (Nat × Nat)}
    (hcalls : ∀ c ∈ calls, stat ≤ c.1 ∧ c.1 ≤ c.2 ∧ c.2 ≤ last) :
    ((newTokenHashProvider content mtime load stat).calls content mtime calls
      |>.call content mtime last last).1 = content last ↔
      (stat = last → content load = content last) := by
  by_cases hstat : stat = last
  · subst hstat
    have hhit : ∀ d, (newTokenHashProvider content mtime load stat).call content mtime stat d =
        (content load, newTokenHashProvider content mtime load stat) := fun d => if_pos rfl
    have hsame : (newTokenHashProvider content mtime load stat).calls content mtime calls =
        newTokenHashProvider content mtime load stat := by
      induction calls with
      | nil => rfl
      | cons c rest ih =>
        obtain ⟨hc, hrest⟩ := List.forall_mem_cons.mp hcalls
        have hcall : c.1 = stat := by omega
        rw [HashProvider.calls, hcall, hhit]
        exact ih hrest
    rw [hsame, hhit]
    exact ⟨fun h _ => h, fun h => h rfl⟩
  · have hsound := @calls_sound α content mtime hmtime last
      (newTokenHashProvider content mtime load stat) calls (fun c hc => (hcalls c hc).2)
      fun h => absurd (hmtime.eq_iff.mp h) hstat
    refine iff_of_true ?_ fun h => absurd h hstat
    unfold HashProvider.call
    split
    next heq => exact hsound heq.symm
    next => rfl

end

/-- **When a rotation is seen**. -/
theorem hot_rotation_seen_iff {α β γ δ : Type} (content : Nat → δ) (mtime : Nat → Time)
    (hmtime : Increasing mtime) (load stat last : Nat) (calls : List (Nat × Nat))
    (hcalls : ∀ c ∈ calls, stat ≤ c.1 ∧ c.1 ≤ c.2 ∧ c.2 ≤ last)
    (pair : α → β → Option γ) (crt : Nat → α) (key : Nat → β) (crtMtime keyMtime : Nat → Time)
    (hcrt : Increasing crtMtime) (hkey : Increasing keyMtime) (lastCrt lastKey : Nat) (fresh : γ)
    (hfresh : pair (crt lastCrt) (key lastKey) = some fresh) (loads : List CertLoad)
    (fallback : γ) :
    (((newTokenHashProvider content mtime load stat).calls content mtime calls
      |>.call content mtime last last).1 = content last ↔
      (stat = last → content load = content last)) ∧
    (getServerCertificate pair crt key crtMtime keyMtime
        (cacheAfter pair crt key crtMtime keyMtime loads) lastCrt lastKey fallback = fresh ↔
      ∀ stored ∈ lastStored pair crt key loads,
        stored.1.crtStat = lastCrt → stored.1.keyStat = lastKey → stored.2 = fresh) :=
  ⟨tokenHash_iff hmtime hcalls, certificate_iff hcrt hkey hfresh loads fallback⟩

def matching (crt key : Nat) : Option Nat := if crt = key then some crt else none

/-- The pair is loaded, and then the new certificate with the old key. -/
def halfRotated : List CertLoad := [⟨1, 0, 1, 0⟩, ⟨0, 0, 0, 0⟩]

theorem hot_rotation_seen_sample :
    ((newTokenHashProvider id Int.ofNat 0 0).calls id Int.ofNat [(0, 1)]
      |>.call id Int.ofNat 1 1).1 = 1 ∧
    getServerCertificate matching id id Int.ofNat Int.ofNat
      (cacheAfter matching id id Int.ofNat Int.ofNat halfRotated) 1 1 7 = 1 := by
  have hmtime : Increasing Int.ofNat := fun _ _ => Int.ofNat_lt.mpr
  obtain ⟨htoken, hcert⟩ := hot_rotation_seen_iff id Int.ofNat hmtime 0 0 1 [(0, 1)] (by decide)
    matching id id Int.ofNat Int.ofNat hmtime hmtime 1 1 1 rfl halfRotated 7
  refine ⟨htoken.mpr (by decide), hcert.mpr ?_⟩
  rintro _ ⟨⟩ ⟨⟩

/-- The hash is replaced between the load and the stat of the construction, and a certificate
between those of the first call: what is returned from then on is the old one. -/
theorem rotation_missed :
    ((newTokenHashProvider id Int.ofNat 0 1).call id Int.ofNat 1 1).1 = 0 ∧
      getServerCertificate (fun a b => if a = b then some a else none) id id Int.ofNat Int.ofNat
        (cacheAfter (fun a b => if a = b then some a else none) id id Int.ofNat Int.ofNat
          [{ crtLoad := 0, keyLoad := 0, crtStat := 1, keyStat := 1 }]) 1 1 7 = 0 := by
  decide

end AwgMesh.Grpc
