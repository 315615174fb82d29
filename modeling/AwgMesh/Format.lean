import AwgMesh.Clock
import AwgMesh.Net.Spelling

/-!
# Quoted strings and times

`%q`, and `Format(time.RFC3339)` of a time in UTC with a reader of its text.
-/

namespace AwgMesh

open Net List

/-! ## Quoted strings -/

/-- A rune as `strconv.Quote` writes it; `isPrint` is the table of `strconv.IsPrint`. -/
def quoteRune (isPrint : Char → Bool) (c : Char) : List Char :=
  let hex (width : Nat) := (range width).reverse.map fun i => digitChar (c.toNat / 16 ^ i % 16)
  if c = '"' ∨ c = '\\' then ['\\', c]
  else if isPrint c then [c]
  else match c.toNat with
    | 7 => ['\\', 'a']
    | 8 => ['\\', 'b']
    | 9 => ['\\', 't']
    | 10 => ['\\', 'n']
    | 11 => ['\\', 'v']
    | 12 => ['\\', 'f']
    | 13 => ['\\', 'r']
    | n =>
      if n < 0x20 ∨ n = 0x7f then '\\' :: 'x' :: hex 2
      else if n < 0x10000 then '\\' :: 'u' :: hex 4
      else '\\' :: 'U' :: hex 8

def quote (isPrint : Char → Bool) (text : String) : String :=
  "\"" ++ String.ofList (text.toList.flatMap (quoteRune isPrint)) ++ "\""

theorem newline_notMem_quote {isPrint : Char → Bool} (h : isPrint '\n' = false) (text : String) :
    '\n' ∉ (quote isPrint text).toList := by
  have hdigit : ∀ d, digitChar d ≠ '\n' := by
    intro d heq
    exact absurd (heq ▸ hexDigit_digitChar d) (by decide)
  have hrune : ∀ c, '\n' ∉ quoteRune isPrint c := by
    intro c
    unfold quoteRune
    dsimp only
    split
    · next hc => rcases hc with rfl | rfl <;> decide
    split
    · next hprint =>
        rw [mem_singleton]
        rintro rfl
        rw [h] at hprint
        cases hprint
    split
    all_goals first | decide | split_ifs <;> simp [hdigit]
  simp [quote, hrune]

namespace Time

/-!
## The calendar

It is the Gregorian one in all years, as in `time`; a year is counted from March here, so that the
leap day ends it.
-/

/-- The year and the day of the year, for the days since the first of January of the year 1. -/
def marchDate (days : Int) : Int × Int :=
  let inEra := (days + 306) % 146097
  let century := min (inEra / 36524) 3
  let inCentury := inEra - 36524 * century
  let inCycle := inCentury % 1461
  let year := min (inCycle / 365) 3
  (400 * ((days + 306) / 146097) + 100 * century + 4 * (inCentury / 1461) + year,
    inCycle - 365 * year)

def date (days : Int) : Int × Int × Int :=
  let (year, day) := marchDate days
  let month := (5 * day + 2) / 153
  let dayOfMonth := day - (153 * month + 2) / 5 + 1
  if month < 10 then (year, month + 3, dayOfMonth) else (year + 1, month - 9, dayOfMonth)

def marchDays (year : Int) : Int := 365 * year + year / 4 - year / 100 + year / 400

def daysOf (year month day : Int) : Int :=
  if month ≤ 2 then marchDays (year - 1) + (153 * (month + 9) + 2) / 5 + day - 307
  else marchDays year + (153 * (month - 3) + 2) / 5 + day - 307

theorem marchDays_eq {era century cycle year : Int} (hcentury : 0 ≤ century ∧ century ≤ 3)
    (hcycle : 0 ≤ cycle ∧ cycle ≤ 24) (hyear : 0 ≤ year ∧ year ≤ 3) :
    marchDays (400 * era + 100 * century + 4 * cycle + year) =
      146097 * era + 36524 * century + 1461 * cycle + 365 * year := by
  unfold marchDays
  omega

theorem marchDate_spec (days : Int) : 0 ≤ (marchDate days).2 ∧ (marchDate days).2 ≤ 365 ∧
    marchDays (marchDate days).1 + (marchDate days).2 = days + 306 := by
  unfold marchDate
  extract_lets inEra century inCentury inCycle year
  have hcentury : 0 ≤ century ∧ century ≤ 3 := by omega
  have hcycle : 0 ≤ inCentury / 1461 ∧ inCentury / 1461 ≤ 24 := by omega
  have hyear : 0 ≤ year ∧ year ≤ 3 := by omega
  rw [marchDays_eq hcentury hcycle hyear]
  omega

theorem date_spec (days : Int) : (1 ≤ (date days).2.1 ∧ (date days).2.1 ≤ 12) ∧
    (1 ≤ (date days).2.2 ∧ (date days).2.2 ≤ 31) ∧
    daysOf (date days).1 (date days).2.1 (date days).2.2 = days := by
  obtain ⟨hlo, hhi, hdays⟩ := marchDate_spec days
  unfold date
  rcases hdate : marchDate days with ⟨year, day⟩
  rw [hdate] at hlo hhi hdays
  dsimp only at hlo hhi hdays ⊢
  unfold daysOf
  split
  · rw [if_neg (by dsimp only; omega)]
    dsimp only
    omega
  · rw [if_pos (by dsimp only; omega), Int.add_sub_cancel]
    dsimp only
    omega

example : [date 0, date 738944, date 739312] = [(1, 1, 1), (2024, 2, 29), (2025, 3, 3)] := by
  decide

/-! ## The text -/

def yearText (year : Int) : List Char :=
  let digits := numeral year.natAbs
  (if year < 0 then ['-'] else []) ++ replicate (4 - digits.length) '0' ++ digits

/-- The fields behind the year, each with the character before it. -/
def fields (second : Int) : List (Char × Int) :=
  let day := date (second / 86400)
  [('-', day.2.1), ('-', day.2.2), ('T', second % 86400 / 3600), (':', second % 3600 / 60),
    (':', second % 60)]

def fieldText (f : Char × Int) : List Char :=
  [f.1, digitChar (f.2.toNat / 10), digitChar (f.2.toNat % 10)]

def secondText (second : Int) : List Char :=
  yearText (date (second / 86400)).1 ++ ((fields second).flatMap fieldText ++ ['Z'])

def rfc3339 (t : Time) : String := String.ofList (secondText (t / 1000000000))

def readYear : List Char → Option Int
  | '-' :: cs => (unsigned cs).map fun n : Nat => -(n : Int)
  | cs => (unsigned cs).map fun n : Nat => (n : Int)

def readFields : (marks : List Char) → List Char → Option (List Int)
  | [], ['Z'] => some []
  | mark :: marks, c :: tens :: ones :: cs =>
    if c = mark then do
      let n ← digitsValue [tens, ones] 0
      return n :: (← readFields marks cs)
    else none
  | _, _ => none

/-- The year takes what is left before the last sixteen characters. -/
def readUnix (cs : List Char) : Option Int :=
  match readYear (cs.take (cs.length - 16)),
    readFields ['-', '-', 'T', ':', ':'] (cs.drop (cs.length - 16)) with
  | some year, some [month, day, hour, minute, second] =>
    some (daysOf year month day * 86400 + hour * 3600 + minute * 60 + second - zeroToUnix)
  | _, _ => none

theorem digitsValue_two {n : Int} (h : 0 ≤ n ∧ n < 100) :
    digitsValue [digitChar (n.toNat / 10), digitChar (n.toNat % 10)] 0 = some n.toNat := by
  show digitsValue ([_] ++ [_]) 0 = _
  rw [digitsValue_append, digitsValue_digitChar (by omega), Option.bind_some,
    digitsValue_digitChar (by omega)]
  congr 1
  omega

theorem digitsValue_zeros (k : Nat) : digitsValue (replicate k '0') 0 = some 0 := by
  induction k with
  | zero => rfl
  | succ k ih => exact ih

theorem readYear_yearText (year : Int) : readYear (yearText year) = some year := by
  have hvalue : unsigned (replicate (4 - (numeral year.natAbs).length) '0' ++
      numeral year.natAbs) = some year.natAbs := by
    rw [unsigned, if_neg (by simp [numeral_ne_nil]), digitsValue_append, digitsValue_zeros,
      Option.bind_some, digitsValue_numeral]
  unfold yearText
  dsimp only
  split
  · rw [append_assoc, singleton_append, readYear, hvalue, Option.map_some]
    congr 1
    omega
  · rw [nil_append, readYear, hvalue, Option.map_some]
    · congr 1
      omega
    · intro cs heq
      have hdigit : ∀ c ∈ replicate (4 - (numeral year.natAbs).length) '0' ++
          numeral year.natAbs, '0' ≤ c := by
        rw [forall_mem_append]
        refine ⟨fun c hc => ?_, fun c hc => (numeral_digits _ c hc).1⟩
        exact (mem_replicate.mp hc).2 ▸ Char.le_refl _
      exact absurd (hdigit '-' (heq ▸ mem_cons_self)) (by decide)

theorem readFields_flatMap {fields : List (Char × Int)} (h : ∀ f ∈ fields, 0 ≤ f.2 ∧ f.2 < 100) :
    readFields (fields.map (·.1)) (fields.flatMap fieldText ++ ['Z']) =
      some (fields.map (·.2)) := by
  induction fields with
  | nil => rfl
  | cons f fields ih =>
    obtain ⟨hf, hfields⟩ := forall_mem_cons.mp h
    simp only [map_cons, flatMap_cons, fieldText, cons_append, nil_append, readFields, if_true,
      digitsValue_two hf, ih hfields, Option.bind_eq_bind, Option.bind_some,
      Int.toNat_of_nonneg hf.1]
    rfl

theorem fields_range (second : Int) :
    ∀ f ∈ fields second, '-' ≤ f.1 ∧ 0 ≤ f.2 ∧ f.2 < 100 := by
  obtain ⟨hmonth, hday, -⟩ := date_spec (second / 86400)
  unfold fields
  generalize date (second / 86400) = day at hmonth hday
  simp only [forall_mem_cons]
  refine ⟨⟨by decide, ?_⟩, ⟨by decide, ?_⟩, ⟨by decide, ?_⟩, ⟨by decide, ?_⟩, ⟨by decide, ?_⟩,
    nofun⟩
  all_goals omega

theorem readUnix_secondText (second : Int) :
    readUnix (secondText second) = some (second - zeroToUnix) := by
  have hread := readFields_flatMap fun f hf => (fields_range second f hf).2
  have hlength : ((fields second).flatMap fieldText ++ ['Z']).length = 16 := rfl
  unfold readUnix secondText
  rw [length_append, hlength, Nat.add_sub_cancel, drop_left, take_left, readYear_yearText]
  change readFields ['-', '-', 'T', ':', ':'] _ = some [_, _, _, _, _] at hread
  rw [hread]
  dsimp only
  rw [(date_spec _).2.2]
  congr 1
  omega

theorem readUnix_rfc3339 (t : Time) : readUnix (rfc3339 t).toList = some t.unix := by
  rw [rfc3339, String.toList_ofList, readUnix_secondText]
  rfl

theorem yearText_chars (year : Int) : ∀ c ∈ yearText year, '-' ≤ c := by
  unfold yearText
  dsimp only
  rw [forall_mem_append, forall_mem_append]
  refine ⟨⟨?_, fun c hc => ?_⟩, fun c hc => ?_⟩
  · split <;> simp
  · rw [(mem_replicate.mp hc).2]
    decide
  · exact Char.le_trans (by decide) (numeral_digits _ c hc).1

theorem rfc3339_chars (t : Time) : ∀ c ∈ (rfc3339 t).toList, '-' ≤ c := by
  rw [rfc3339, String.toList_ofList, secondText, forall_mem_append, forall_mem_append]
  refine ⟨yearText_chars _, fun c hc => ?_, by simp⟩
  obtain ⟨f, hf, hc⟩ := mem_flatMap.mp hc
  obtain ⟨hmark, hrange⟩ := fields_range _ f hf
  have hdigit : ∀ {d : Nat}, d < 10 → '-' ≤ digitChar d :=
    fun hd => Char.le_trans (by decide) (isDigit_digitChar hd).1.1
  rw [fieldText, mem_cons, mem_cons, mem_singleton] at hc
  rcases hc with rfl | rfl | rfl
  · exact hmark
  · exact hdigit (by omega)
  · exact hdigit (by omega)

end Time

end AwgMesh
