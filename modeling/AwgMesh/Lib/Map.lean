import Std.Data.ExtTreeMap.Lemmas
import Mathlib.Data.List.Basic

/-! # Finite maps in key order -/

namespace AwgMesh.Lib

open Std ExtTreeMap

abbrev OMap (K V : Type) [Ord K] := ExtTreeMap K V compare

namespace OMap

variable {K V : Type} [Ord K] [TransOrd K] [LawfulEqOrd K] [DecidableEq K]

section

variable (m : OMap K V)

include m

theorem getElem?_insert (k a : K) (v : V) :
    (m.insert k v)[a]? = if k = a then some v else m[a]? := by
  rw [ExtTreeMap.getElem?_insert]
  simp only [Std.compare_eq_iff_eq]

theorem comp_insert (k : K) (v : V) {β : Type} (g : Option V → β) :
    (fun a => g (m.insert k v)[a]?) = Function.update (fun a => g m[a]?) k (g (some v)) := by
  funext a
  rw [getElem?_insert, Function.update_apply]
  by_cases hk : k = a
  · rw [if_pos hk, if_pos hk.symm]
  · rw [if_neg hk, if_neg (Ne.symm hk)]

theorem getElem?_erase (k a : K) : (m.erase k)[a]? = if k = a then none else m[a]? := by
  rw [ExtTreeMap.getElem?_erase]
  simp only [Std.compare_eq_iff_eq]

theorem getElem?_erase_of_ne {k a : K} (h : k ≠ a) : (m.erase k)[a]? = m[a]? := by
  rw [getElem?_erase, if_neg h]

theorem erase_insert_self (k : K) (v : V) : (m.insert k v).erase k = m.erase k := by
  apply ext_getElem?
  intro a
  rw [getElem?_erase, getElem?_erase, getElem?_insert]
  split <;> rfl

theorem insert_insert_self (k : K) (v w : V) : (m.insert k v).insert k w = m.insert k w := by
  apply ext_getElem?
  intro a
  rw [getElem?_insert, getElem?_insert, getElem?_insert]
  split <;> rfl

theorem insert_erase_self (k : K) (v : V) : (m.erase k).insert k v = m.insert k v := by
  apply ext_getElem?
  intro a
  rw [getElem?_insert, getElem?_insert, getElem?_erase]
  split <;> rfl

end

variable {m : OMap K V}

theorem erase_eq_self {k : K} (h : m[k]? = none) : m.erase k = m := by
  apply ext_getElem?
  intro a
  rw [getElem?_erase]
  split
  · next hka => rw [← hka, h]
  · rfl

def vals (m : OMap K V) : List V := m.toList.map Prod.snd

omit [DecidableEq K] in
theorem mem_vals {v : V} : v ∈ m.vals ↔ ∃ k : K, m[k]? = some v := by
  unfold vals
  rw [List.mem_map]
  constructor
  · rintro ⟨⟨k, w⟩, hkw, rfl⟩
    exact ⟨k, mem_toList_iff_getElem?_eq_some.mp hkw⟩
  · rintro ⟨k, hk⟩
    exact ⟨(k, v), mem_toList_iff_getElem?_eq_some.mpr hk, rfl⟩

def prune (p : K → V → Bool) (m : OMap K V) : OMap K V :=
  m.toList.foldl (fun acc kv => if p kv.1 kv.2 then acc.erase kv.1 else acc) m

theorem getElem?_foldl_erase (p : K → V → Bool) (l : List (K × V)) (m : OMap K V) (a : K) :
    (l.foldl (fun acc kv => if p kv.1 kv.2 then acc.erase kv.1 else acc) m)[a]? =
      if l.any fun kv => kv.1 = a && p kv.1 kv.2 then none else m[a]? := by
  induction l generalizing m with
  | nil => rfl
  | cons kv l ih =>
    rw [List.foldl_cons, ih, List.any_cons]
    cases hp : p kv.1 kv.2 with
    | false => rw [Bool.and_false, Bool.false_or, if_neg Bool.false_ne_true]
    | true =>
      rw [if_pos rfl, getElem?_erase, Bool.and_true]
      by_cases ha : kv.1 = a
      · rw [if_pos ha, decide_eq_true ha, Bool.true_or, if_pos rfl]
        split <;> rfl
      · rw [if_neg ha, decide_eq_false ha, Bool.false_or]

theorem getElem?_prune (p : K → V → Bool) (m : OMap K V) (a : K) :
    (m.prune p)[a]? = m[a]?.filter fun v => !p a v := by
  unfold prune
  rw [getElem?_foldl_erase]
  cases hget : m[a]? with
  | none => simp
  | some v =>
    have hany : (m.toList.any fun kv => kv.1 = a && p kv.1 kv.2) = p a v := by
      rw [Bool.eq_iff_iff, List.any_eq_true]
      constructor
      · rintro ⟨⟨k, w⟩, hmem, hkw⟩
        obtain ⟨rfl, hp⟩ : k = a ∧ p k w = true := by simpa using hkw
        rw [mem_toList_iff_getElem?_eq_some, hget] at hmem
        cases hmem
        exact hp
      · intro hp
        exact ⟨(a, v), mem_toList_iff_getElem?_eq_some.mpr hget, by simp [hp]⟩
    rw [hany, Option.filter_some]
    cases p a v <;> rfl

omit [DecidableEq K] in
theorem map_vals_eq_keys {key : V → K} (h : ∀ {k : K} {v : V}, m[k]? = some v → key v = k)
    : m.vals.map key = m.keys := by
  unfold vals
  rw [List.map_map, ← map_fst_toList_eq_keys]
  apply List.map_congr_left
  intro kv hkv
  exact h (mem_toList_iff_getElem?_eq_some.mp hkv)

omit [DecidableEq K] in
theorem nodup_map_vals {key : V → K} (h : ∀ {k : K} {v : V}, m[k]? = some v → key v = k)
    : (m.vals.map key).Nodup := by
  rw [map_vals_eq_keys h]
  exact nodup_keys

end OMap

/-! ## Broadcast to bounded channels -/

structure Channel (M : Type) where
  buf : List M := []
  closed : Bool := false

namespace Channel

variable {M : Type}

def offer (cap : Nat) (m : M) (c : Channel M) : Channel M :=
  if c.closed then c
  else if c.buf.length < cap then { c with buf := c.buf ++ [m] }
  else { c with closed := true }

theorem offer_open {cap : Nat} {m : M} {c : Channel M} (h : (c.offer cap m).closed = false) :
    c.closed = false ∧ (c.offer cap m).buf = c.buf ++ [m] := by
  unfold offer at h ⊢
  split at h
  · next hc => rw [hc] at h; cases h
  · next hc =>
      split at h
      · next hlen => simp [hc, hlen]
      · cases h

theorem offer_buf (cap : Nat) (m : M) (c : Channel M) :
    (c.offer cap m).buf = c.buf ∨ (c.offer cap m).buf = c.buf ++ [m] := by
  unfold offer
  split
  · exact .inl rfl
  · split
    · exact .inr rfl
    · exact .inl rfl

end Channel

abbrev Hub (K M : Type) [Ord K] := OMap K (Channel M)

namespace Hub

variable {K M : Type} [Ord K] [TransOrd K] [LawfulEqOrd K] [DecidableEq K]

def publish (h : Hub K M) (cap : Nat) (m : M) : Hub K M := h.map fun _ c => c.offer cap m

def shut (h : Hub K M) (k : K) : Hub K M :=
  match h[k]? with
  | none => h
  | some c => h.insert k { c with closed := true }

def take (h : Hub K M) (k : K) : Option (M × Hub K M) :=
  match h[k]? with
  | none => none
  | some c =>
    match c.buf with
    | [] => none
    | m :: buf => some (m, h.insert k { c with buf := buf })

omit [DecidableEq K] in
theorem getElem?_publish (h : Hub K M) (cap : Nat) (m : M) (k : K) :
    (h.publish cap m)[k]? = (h[k]?).map (·.offer cap m) := by
  unfold publish
  rw [getElem?_map]

theorem getElem?_shut_of_ne {h : Hub K M} {k k' : K} (hne : k ≠ k') : (h.shut k)[k']? = h[k']? := by
  unfold shut
  split
  · rfl
  · rw [OMap.getElem?_insert, if_neg hne]

theorem getElem?_shut_isSome {h : Hub K M} {k k' : K} :
    ((h.shut k)[k']?).isSome = (h[k']?).isSome := by
  unfold shut
  split
  · rfl
  · next c hc =>
      rw [OMap.getElem?_insert]
      split
      · next hk => rw [← hk, hc]; rfl
      · rfl

omit [LawfulEqOrd K] [DecidableEq K] in
theorem take_eq_some {h h' : Hub K M} {k : K} {m : M} (ht : h.take k = some (m, h')) :
    ∃ c buf, h[k]? = some c ∧ c.buf = m :: buf ∧ h' = h.insert k { c with buf := buf } := by
  unfold take at ht
  split at ht
  · cases ht
  · next c hc =>
      split at ht
      · cases ht
      · next m' buf hbuf => cases ht; exact ⟨c, buf, hc, hbuf, rfl⟩

end Hub

end AwgMesh.Lib
