import AwgMesh.Clock
import AwgMesh.Lib.Strip
import Mathlib.Data.List.Infix

/-! # Texts as bytes -/

namespace AwgMesh

open Lib List

def ascii (s : String) : Bytes := s.toList.map fun c => UInt8.ofNat c.toNat

def chars (b : Bytes) : List Char := b.map fun x => Char.ofNat x.toNat

theorem length_ascii (s : String) : (ascii s).length = s.toList.length := length_map _

theorem chars_ascii {s : String} (h : ∀ c ∈ s.toList, c.toNat < 256) :
    chars (ascii s) = s.toList := by
  unfold chars ascii
  rw [map_map]
  refine (map_congr_left ?_).trans (map_id _)
  intro c hc
  simp [UInt8.toNat_ofNat', Nat.mod_eq_of_lt (h c hc)]

namespace ByteText

def lf : UInt8 := 10

def cr : UInt8 := 13

def spaceRunes : List Bytes :=
  [[0x09], [0x0a], [0x0b], [0x0c], [0x0d], [0x20], [0xc2, 0x85], [0xc2, 0xa0], [0xe1, 0x9a, 0x80],
    [0xe2, 0x80, 0x80], [0xe2, 0x80, 0x81], [0xe2, 0x80, 0x82], [0xe2, 0x80, 0x83],
    [0xe2, 0x80, 0x84], [0xe2, 0x80, 0x85], [0xe2, 0x80, 0x86], [0xe2, 0x80, 0x87],
    [0xe2, 0x80, 0x88], [0xe2, 0x80, 0x89], [0xe2, 0x80, 0x8a], [0xe2, 0x80, 0xa8],
    [0xe2, 0x80, 0xa9], [0xe2, 0x80, 0xaf], [0xe2, 0x81, 0x9f], [0xe3, 0x80, 0x80]]

def spaceRunesRev : List Bytes := spaceRunes.map reverse

def trimSpace (b : Bytes) : Bytes :=
  (stripWords spaceRunesRev (stripWords spaceRunes b).reverse).reverse

structure Trimmed (b : Bytes) : Prop where
  front : ¬ StartsWith spaceRunes b
  back : ¬ StartsWith spaceRunesRev b.reverse

theorem spaceRunes_ne_nil : ∀ w ∈ spaceRunes, w ≠ [] := by decide

theorem spaceRunesRev_ne_nil : ∀ w ∈ spaceRunesRev, w ≠ [] := by decide

variable {b : Bytes}

theorem trimSpace_eq_self_iff : trimSpace b = b ↔ Trimmed b := by
  constructor
  · intro h
    -- trimming only shortens, so neither end has lost anything
    have hback := length_stripWords_le spaceRunesRev_ne_nil (stripWords spaceRunes b).reverse
    have hlen := congrArg length h
    rw [trimSpace, length_reverse] at hlen
    rw [length_reverse, hlen] at hback
    have hfront : ¬ StartsWith spaceRunes b := by
      intro hstarts
      have hlt := length_stripWords_lt spaceRunes_ne_nil hstarts
      omega
    refine ⟨hfront, ?_⟩
    rw [trimSpace, stripWords_of_not_startsWith hfront] at h
    rw [← stripWords_eq_self_iff spaceRunesRev_ne_nil]
    exact reverse_eq_iff.mp h
  · rintro ⟨hfront, hback⟩
    rw [trimSpace, stripWords_of_not_startsWith hfront, stripWords_of_not_startsWith hback,
      reverse_reverse]

instance (b : Bytes) : Decidable (Trimmed b) := decidable_of_iff _ trimSpace_eq_self_iff

variable {c : UInt8}

theorem mem_trimSpace (hc : ∀ w ∈ spaceRunes, c ∉ w) (h : c ∈ b) : c ∈ trimSpace b := by
  have hrev : ∀ w ∈ spaceRunesRev, c ∉ w := by
    intro w hw
    obtain ⟨v, hv, rfl⟩ := mem_map.mp hw
    rw [mem_reverse]
    exact hc v hv
  rw [trimSpace, mem_reverse]
  exact mem_stripWords hrev (mem_reverse.mpr (mem_stripWords hc h))

theorem Trimmed.nil : Trimmed [] := trimSpace_eq_self_iff.mp rfl

def blanks : List UInt8 := [0x09, 0x0a, 0x0b, 0x0c, 0x0d, 0x20]

theorem mem_blanks :
    c ∈ blanks ↔ c = 0x09 ∨ c = 0x0a ∨ c = 0x0b ∨ c = 0x0c ∨ c = 0x0d ∨ c = 0x20 := by
  simp [blanks]

section

variable (hc : c ∈ blanks)

include hc

theorem length_le_one_of_blank :
    (∀ w ∈ spaceRunes, c ∈ w → w.length ≤ 1) ∧ ∀ w ∈ spaceRunesRev, c ∈ w → w.length ≤ 1 := by
  rcases mem_blanks.mp hc with rfl | rfl | rfl | rfl | rfl | rfl <;> decide

theorem stripOne_blank (b : Bytes) :
    stripOne spaceRunes (c :: b) = some b ∧ stripOne spaceRunesRev (c :: b) = some b := by
  rcases mem_blanks.mp hc with rfl | rfl | rfl | rfl | rfl | rfl <;> exact ⟨rfl, rfl⟩

theorem getLast?_ne_of_trimmed (h : Trimmed b) : b.getLast? ≠ some c := by
  intro hlast
  obtain ⟨front, rfl⟩ := getLast?_eq_some_iff.mp hlast
  have hword : [c] ∈ spaceRunesRev := by
    rcases mem_blanks.mp hc with rfl | rfl | rfl | rfl | rfl | rfl <;> decide
  exact h.back ⟨[c], hword, front.reverse, by simp⟩

theorem Trimmed.append_blank {a b : Bytes} (ha : Trimmed a) (hb : Trimmed b) (hane : a ≠ [])
    (hbne : b ≠ []) : Trimmed (a ++ c :: b) := by
  obtain ⟨hfront, hback⟩ := length_le_one_of_blank hc
  constructor
  · exact fun hs => ha.front (startsWith_append_cons hane hfront hs)
  · rw [reverse_append, reverse_cons, append_assoc, singleton_append]
    exact fun hs => hb.back (startsWith_append_cons (by simpa using hbne) hback hs)

theorem trimSpace_append_blank (h : Trimmed b) : trimSpace (b ++ [c]) = b := by
  by_cases hb : b = []
  · subst hb
    rcases mem_blanks.mp hc with rfl | rfl | rfl | rfl | rfl | rfl <;> rfl
  have hfront : ¬ StartsWith spaceRunes (b ++ [c]) := fun hs =>
    h.front (startsWith_append_cons hb (length_le_one_of_blank hc).1 hs)
  rw [trimSpace, stripWords_of_not_startsWith hfront, reverse_append, reverse_singleton,
    singleton_append, stripWords_eq_of_stripOne (stripOne_blank hc _).2 h.back,
    reverse_reverse]

theorem trimSpace_blank_cons (h : Trimmed b) : trimSpace (c :: b) = b := by
  rw [trimSpace, stripWords_eq_of_stripOne (stripOne_blank hc b).1 h.front,
    stripWords_of_not_startsWith h.back, reverse_reverse]

end

theorem notMem_of_range {lo hi x : UInt8} (h : ∀ y ∈ b, lo ≤ y ∧ y ≤ hi)
    (hx : x < lo ∨ hi < x) : x ∉ b := by
  intro hmem
  obtain ⟨hlo, hhi⟩ := h x hmem
  rcases hx with hx | hx
  · exact UInt8.not_le.mpr hx hlo
  · exact UInt8.not_le.mpr hx hhi

def Visible (b : Bytes) : Prop := ∀ x ∈ b, 0x21 ≤ x ∧ x ≤ 0x7e

theorem not_startsWith_of_visible {words : List Bytes}
    (hwords : ∀ w ∈ words, ∃ x ∈ w.head?, x < 0x21 ∨ 0x7e < x) (h : Visible b) :
    ¬ StartsWith words b := by
  rintro ⟨w, hw, rest, rfl⟩
  obtain ⟨x, hx, hout⟩ := hwords w hw
  exact notMem_of_range h hout (mem_append_left _ (mem_of_mem_head? hx))

theorem Visible.trimmed (h : Visible b) : Trimmed b where
  front := not_startsWith_of_visible (by decide) h
  back := not_startsWith_of_visible (by decide) fun x hx => h x (mem_reverse.mp hx)

/-! ## Splitting -/

def splitByte (sep : UInt8) : Bytes → List Bytes
  | [] => [[]]
  | c :: rest =>
    if c = sep then [] :: splitByte sep rest
    else match splitByte sep rest with
      | [] => [[c]]
      | e :: es => (c :: e) :: es

variable {sep : UInt8} {e : Bytes}

theorem splitByte_append (he : sep ∉ e) (b : Bytes) :
    splitByte sep (e ++ sep :: b) = e :: splitByte sep b := by
  induction e with
  | nil => exact if_pos rfl
  | cons c e ih =>
    rw [mem_cons, not_or] at he
    rw [cons_append, splitByte, if_neg (Ne.symm he.1), ih he.2]

theorem splitByte_of_notMem (he : sep ∉ e) : splitByte sep e = [e] := by
  induction e with
  | nil => rfl
  | cons c e ih =>
    rw [mem_cons, not_or] at he
    rw [splitByte, if_neg (Ne.symm he.1), ih he.2]

theorem splitByte_ne_nil (sep : UInt8) (b : Bytes) : splitByte sep b ≠ [] := by
  cases b with
  | nil => exact cons_ne_nil _ _
  | cons c rest =>
    rw [splitByte]
    split
    · exact cons_ne_nil _ _
    · split <;> exact cons_ne_nil _ _

theorem splitByte_append_sep (sep : UInt8) (a b : Bytes) :
    splitByte sep (a ++ sep :: b) = splitByte sep a ++ splitByte sep b := by
  induction a with
  | nil => exact if_pos rfl
  | cons c a ih =>
    rw [cons_append, splitByte, splitByte]
    split
    · rw [ih, cons_append]
    · obtain ⟨e, es, hsplit⟩ := exists_cons_of_ne_nil (splitByte_ne_nil sep a)
      rw [ih, hsplit]
      rfl

theorem mem_splitByte_or (sep : UInt8) (b : Bytes) (c : UInt8) (hc : c ∈ b) :
    c = sep ∨ ∃ e ∈ splitByte sep b, c ∈ e := by
  induction b with
  | nil => cases hc
  | cons x b ih =>
    cases hsplit : splitByte sep b with
    | nil => exact absurd hsplit (splitByte_ne_nil sep b)
    | cons e es =>
      rw [hsplit] at ih
      rw [splitByte, hsplit]
      rcases mem_cons.mp hc with rfl | hc
      · by_cases hx : c = sep <;> simp [hx]
      · rcases ih hc with hsep | ⟨l, hl, hin⟩
        · exact .inl hsep
        · rcases mem_cons.mp hl with rfl | hl <;> by_cases hx : x = sep <;> grind

theorem notMem_of_mem_splitByte (h : e ∈ splitByte sep b) : sep ∉ e := by
  induction b generalizing e with
  | nil =>
    rw [mem_singleton.mp h]
    exact not_mem_nil
  | cons c rest ih =>
    rw [splitByte] at h
    split at h
    · rcases mem_cons.mp h with rfl | h
      · exact not_mem_nil
      · exact ih h
    · next hc =>
        obtain ⟨d, ds, hsplit⟩ := exists_cons_of_ne_nil (splitByte_ne_nil sep rest)
        rw [hsplit] at h ih
        rcases mem_cons.mp h with rfl | h
        · rw [mem_cons, not_or]
          exact ⟨Ne.symm hc, ih mem_cons_self⟩
        · exact ih (mem_cons_of_mem d h)

def utf8 (s : String) : Bytes := s.toList.flatMap String.utf8EncodeChar

theorem utf8_injective {s t : String} (h : utf8 s = utf8 t) : s = t := by
  rw [← String.toByteArray_inj, ← String.utf8Encode_toList, ← String.utf8Encode_toList]
  exact congrArg toByteArray h

theorem utf8EncodeChar_cases (c : Char) :
    (c.toNat < 128 ∧ String.utf8EncodeChar c = [UInt8.ofNat c.toNat]) ∨
      (128 ≤ c.toNat ∧ ∃ first rest, String.utf8EncodeChar c = first :: rest ∧
        192 ≤ first.toNat ∧ ∀ b ∈ rest, 128 ≤ b.toNat ∧ b.toNat < 192) := by
  simp only [Char.toNat, String.utf8EncodeChar]
  generalize c.val.toNat = n
  split_ifs
  · exact .inl ⟨by omega, rfl⟩
  all_goals
    refine .inr ⟨by omega, _, _, rfl, ?_, ?_⟩
    · rw [UInt8.toNat_ofNat']
      omega
    · simp only [mem_cons, not_mem_nil, or_false, forall_eq_or_imp, forall_eq,
        UInt8.toNat_ofNat']
      omega

end ByteText

end AwgMesh
