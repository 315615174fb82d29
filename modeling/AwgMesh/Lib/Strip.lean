import Mathlib.Data.List.Basic

/-! # Stripping words off a list -/

namespace AwgMesh.Lib

open List

variable {α : Type} [DecidableEq α]

def dropWord : (w l : List α) → Option (List α)
  | [], l => some l
  | _ :: _, [] => none
  | a :: w, b :: l => if a = b then dropWord w l else none

theorem dropWord_eq_some {w l rest : List α} : dropWord w l = some rest ↔ l = w ++ rest := by
  induction w generalizing l with
  | nil => simp [dropWord, eq_comm]
  | cons a w ih =>
    cases l with
    | nil => simp [dropWord]
    | cons b l =>
      rw [dropWord]
      split
      · next hab => rw [ih, hab, cons_append, cons_inj_right]
      · next hab => simp [Ne.symm hab]

def stripOne (words : List (List α)) (l : List α) : Option (List α) :=
  words.findSome? fun w => dropWord w l

def stripFuel (words : List (List α)) : (fuel : Nat) → List α → List α
  | 0, l => l
  | fuel + 1, l =>
    match stripOne words l with
    | none => l
    | some rest => stripFuel words fuel rest

def stripWords (words : List (List α)) (l : List α) : List α := stripFuel words l.length l

def StartsWith (words : List (List α)) (l : List α) : Prop := ∃ w ∈ words, ∃ rest, l = w ++ rest

variable {words : List (List α)} {l rest : List α}

theorem stripOne_eq_none : stripOne words l = none ↔ ¬ StartsWith words l := by
  unfold stripOne StartsWith
  rw [findSome?_eq_none_iff]
  constructor
  · rintro h ⟨w, hw, rest, hl⟩
    have hdrop := dropWord_eq_some.mpr hl
    rw [h w hw] at hdrop
    cases hdrop
  · intro h w hw
    cases hdrop : dropWord w l with
    | none => rfl
    | some rest => exact absurd ⟨w, hw, rest, dropWord_eq_some.mp hdrop⟩ h

theorem stripOne_eq_some (h : stripOne words l = some rest) : ∃ w ∈ words, l = w ++ rest := by
  obtain ⟨w, hw, hdrop⟩ := exists_of_findSome?_eq_some h
  exact ⟨w, hw, dropWord_eq_some.mp hdrop⟩

section NonEmpty

variable (hne : ∀ w ∈ words, w ≠ [])

include hne

theorem length_lt_of_stripOne (h : stripOne words l = some rest) : rest.length < l.length := by
  obtain ⟨w, hw, rfl⟩ := stripOne_eq_some h
  have hpos : 0 < w.length := length_pos_iff.mpr (hne w hw)
  rw [length_append]
  omega

theorem length_stripFuel_le (fuel : Nat) (l : List α) :
    (stripFuel words fuel l).length ≤ l.length := by
  induction fuel generalizing l with
  | zero => exact Nat.le_refl _
  | succ fuel ih =>
    rw [stripFuel]
    split
    · exact Nat.le_refl _
    · next rest hrest =>
        exact Nat.le_trans (ih rest) (Nat.le_of_lt (length_lt_of_stripOne hne hrest))

theorem length_stripWords_le (l : List α) : (stripWords words l).length ≤ l.length :=
  length_stripFuel_le hne l.length l

theorem length_stripWords_lt (h : StartsWith words l) : (stripWords words l).length < l.length := by
  cases hone : stripOne words l with
  | none => exact absurd h (stripOne_eq_none.mp hone)
  | some rest =>
    have hlt := length_lt_of_stripOne hne hone
    obtain ⟨fuel, hfuel⟩ : ∃ fuel, l.length = fuel + 1 := ⟨l.length - 1, by omega⟩
    have hle := length_stripFuel_le hne fuel rest
    rw [stripWords, hfuel, stripFuel, hone]
    dsimp only
    omega

omit hne in
theorem stripWords_of_not_startsWith (h : ¬ StartsWith words l) : stripWords words l = l := by
  unfold stripWords
  cases l.length with
  | zero => rfl
  | succ fuel => rw [stripFuel, stripOne_eq_none.mpr h]

omit hne in
theorem mem_stripWords {c : α} (hc : ∀ w ∈ words, c ∉ w) (h : c ∈ l) : c ∈ stripWords words l := by
  unfold stripWords
  generalize l.length = fuel
  induction fuel generalizing l with
  | zero => exact h
  | succ fuel ih =>
    rw [stripFuel]
    split
    · exact h
    · next rest hrest =>
        obtain ⟨w, hw, rfl⟩ := stripOne_eq_some hrest
        exact ih ((mem_append.mp h).resolve_left (hc w hw))

theorem stripWords_eq_self_iff : stripWords words l = l ↔ ¬ StartsWith words l := by
  refine ⟨?_, stripWords_of_not_startsWith⟩
  intro heq hstarts
  have hlt := length_stripWords_lt hne hstarts
  rw [heq] at hlt
  omega

omit hne in
theorem stripWords_eq_of_stripOne (h : stripOne words l = some rest)
    (hrest : ¬ StartsWith words rest) : stripWords words l = rest := by
  have hnone : stripOne words rest = none := stripOne_eq_none.mpr hrest
  have hstop : ∀ fuel, stripFuel words fuel rest = rest := by
    intro fuel
    cases fuel with
    | zero => rfl
    | succ fuel => rw [stripFuel, hnone]
  cases l with
  | nil =>
    obtain ⟨w, -, hl⟩ := stripOne_eq_some h
    rw [(append_eq_nil_iff.mp hl.symm).2]
    rfl
  | cons a l =>
    show stripFuel words (l.length + 1) (a :: l) = rest
    rw [stripFuel, h]
    exact hstop l.length

end NonEmpty

omit [DecidableEq α] in
theorem startsWith_append_cons {c : α} {l r : List α} (hl : l ≠ [])
    (hc : ∀ w ∈ words, c ∈ w → w.length ≤ 1) :
    StartsWith words (l ++ c :: r) → StartsWith words l := by
  rintro ⟨w, hw, rest, heq⟩
  rcases append_eq_append_iff.mp heq with ⟨t, hwl, hcr⟩ | ⟨t, hlw, htr⟩
  · -- the word reaches beyond `l`, and so contains the symbol
    cases t with
    | nil => exact ⟨w, hw, [], by rw [hwl]; simp⟩
    | cons b t =>
      obtain ⟨rfl, -⟩ := cons.inj hcr
      have hlen := hc w hw (by rw [hwl]; simp)
      rw [hwl, length_append, length_cons] at hlen
      have hpos : 0 < l.length := length_pos_iff.mpr hl
      omega
  · exact ⟨w, hw, t, hlw⟩

end AwgMesh.Lib
