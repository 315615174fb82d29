import Mathlib.Data.List.Basic

/-! # Dealing out in turn -/

namespace AwgMesh.Lib

variable {α β : Type}

def deal (add : β → α → β) : (receivers : List β) → (i : Nat) → (items : List α) → List β
  | receivers, _, [] => receivers
  | receivers, i, item :: items =>
    deal add (receivers.modify (i % receivers.length) (add · item)) (i + 1) items

def hand (k j : Nat) : (i : Nat) → (items : List α) → List α
  | _, [] => []
  | i, item :: items =>
    if i % k = j then item :: hand k j (i + 1) items else hand k j (i + 1) items

theorem length_deal (add : β → α → β) (receivers : List β) (i : Nat) (items : List α) :
    (deal add receivers i items).length = receivers.length := by
  induction items generalizing receivers i with
  | nil => rfl
  | cons item items ih => rw [deal, ih, List.length_modify]

theorem deal_getElem? (add : β → α → β) (receivers : List β) (i j : Nat) (items : List α) :
    (deal add receivers i items)[j]? =
      receivers[j]?.map fun b => (hand receivers.length j i items).foldl add b := by
  induction items generalizing receivers i with
  | nil => simp [deal, hand]
  | cons item items ih =>
    rw [deal, ih, List.length_modify, List.getElem?_modify, hand]
    by_cases h : i % receivers.length = j
    · simp [h, Function.comp_def]
    · simp [h]

theorem mem_hand {k j i : Nat} {items : List α} {x : α} :
    x ∈ hand k j i items ↔ ∃ n, items[n]? = some x ∧ (i + n) % k = j := by
  induction items generalizing i with
  | nil => simp [hand]
  | cons item items ih =>
    have hsplit : (∃ n, (item :: items)[n]? = some x ∧ (i + n) % k = j) ↔
        (item = x ∧ i % k = j) ∨ ∃ n, items[n]? = some x ∧ (i + 1 + n) % k = j := by
      constructor
      · rintro ⟨n, hn, hmod⟩
        cases n with
        | zero => exact .inl ⟨Option.some.inj hn, hmod⟩
        | succ n => exact .inr ⟨n, hn, by rw [← hmod]; congr 1; omega⟩
      · rintro (⟨rfl, hmod⟩ | ⟨n, hn, hmod⟩)
        · exact ⟨0, rfl, hmod⟩
        · exact ⟨n + 1, hn, by rw [← hmod]; congr 1; omega⟩
    rw [hsplit, ← ih, hand]
    by_cases h : i % k = j
    · simp [h, eq_comm]
    · simp [h]

end AwgMesh.Lib
