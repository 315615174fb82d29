import Mathlib.Data.List.Basic
import Mathlib.Order.Lattice

/-!
# Fields with a head

A field is a head of fixed size, which says how long the content is and whether it is read or
passed over, and the content. A text that is cut off inside a field can be completed in many ways.
This module says, from what is there, whether one of them is read.
-/

namespace AwgMesh.Lib

open List

variable {β γ : Type}

/-! ## Readers -/

/-- What a head says, and what a head that is cut off can still say. -/
structure Head (β : Type) where
  size : Nat
  size_pos : 0 < size
  /-- A head that is not there at all can declare any length up to this one. -/
  limit : Nat
  /-- The content is read. A head that is cut off can still say so. -/
  reads : List β → Bool
  /-- The length of the content. A head that is cut off can declare no lesser one for a content of
  `need` or more. -/
  length : Nat → List β → Nat
  length_nil : ∀ need, length need [] = need
  complete : ∀ x {need}, need ≤ limit → ∃ y, (x ++ y).length = max x.length size ∧
    reads (x ++ y) = reads x ∧ length 0 (x ++ y) = length need x
  stable : ∀ {x}, size ≤ x.length → ∀ y need,
    reads (x ++ y) = reads x ∧ length need (x ++ y) = length 0 x
  least : ∀ {x y need}, size ≤ (x ++ y).length → need ≤ length 0 (x ++ y) →
    length need x ≤ length 0 (x ++ y)
  enough : ∀ {x need}, x.length < size → need ≤ length need x
  reads_of : ∀ {x y}, size ≤ (x ++ y).length → reads (x ++ y) = true → reads x = true
  undecided : ∀ {x y}, size ≤ (x ++ y).length → reads x = true → reads (x ++ y) = false →
    ∀ need, length need x = need

namespace Head

variable (h : Head β)

/-- One field: its content goes to `p`, or what follows it goes to `g`. -/
def field (p g : List β → Option γ) (xs : List β) : Option γ :=
  if xs.length < h.size + h.length 0 xs then none
  else if h.reads xs then p ((xs.drop h.size).take (h.length 0 xs))
  else g (xs.drop (h.size + h.length 0 xs))

/-- Fields up to the first one that is read. -/
def scan (p : List β → Option γ) (xs : List β) : Option γ :=
  if xs.length < h.size + h.length 0 xs then none
  else if h.reads xs then p ((xs.drop h.size).take (h.length 0 xs))
  else scan p (xs.drop (h.size + h.length 0 xs))
termination_by xs.length
decreasing_by
  have := h.size_pos
  rw [length_drop]
  omega

/-- A head that is always passed over. -/
def passing : Head β where
  size := h.size
  size_pos := h.size_pos
  limit := h.limit
  reads _ := false
  length := h.length
  length_nil := h.length_nil
  complete := by
    intro x need hneed
    obtain ⟨y, hy, -, hlength⟩ := h.complete x hneed
    exact ⟨y, hy, rfl, hlength⟩
  stable hx y need := ⟨rfl, (h.stable hx y need).2⟩
  least := h.least
  enough := h.enough
  reads_of _ hread := hread
  undecided _ hread := absurd hread Bool.false_ne_true

variable {h} {p g : List β → Option γ}

theorem scan_eq (xs : List β) : h.scan p xs = h.field p (h.scan p) xs := by
  rw [scan, field]

/-- What reads one field and goes on with itself is the scan. -/
theorem eq_scan {F : List β → Option γ} {P : List β → Prop} (hdrop : ∀ {xs} n, P xs → P (xs.drop n))
    (hstep : ∀ xs, P xs → F xs = h.field p F xs) {xs : List β} (hxs : P xs) :
    F xs = h.scan p xs := by
  induction hlen : xs.length using Nat.strong_induction_on generalizing xs with
  | _ n ih =>
    rw [hstep xs hxs, scan_eq, field, field]
    split_ifs
    · rfl
    · rfl
    · have := h.size_pos
      exact ih _ (by rw [length_drop]; omega) (hdrop _ hxs) rfl

theorem of_field {xs : List β} (hsome : (h.field p g xs).isSome) :
    h.size + h.length 0 xs ≤ xs.length ∧
      (h.reads xs = true ∧ (p ((xs.drop h.size).take (h.length 0 xs))).isSome ∨
        h.reads xs = false ∧ (g (xs.drop (h.size + h.length 0 xs))).isSome) := by
  unfold field at hsome
  split at hsome
  · cases hsome
  · next hfits =>
      refine ⟨not_lt.mp hfits, ?_⟩
      cases hread : h.reads xs <;> simpa [hread] using hsome

theorem field_append {z : List β} (hz : h.size ≤ z.length) {t : List β}
    (hfits : h.size + h.length 0 z ≤ (z ++ t).length) : h.field p g (z ++ t) =
      if h.reads z then p ((z.drop h.size ++ t).take (h.length 0 z))
      else g ((z.drop h.size ++ t).drop (h.length 0 z)) := by
  obtain ⟨hreads, hlength⟩ := h.stable hz t 0
  rw [field, hreads, hlength, if_neg (not_lt.mpr hfits), ← drop_append_of_le_length hz,
    drop_drop]

theorem field_cut {xs : List β} (hxs : xs.length < h.size) : h.field p g xs = none :=
  if_pos (by omega)

theorem field_content {head content : List β} (hhead : head.length = h.size)
    (hcontent : content.length = h.length 0 head) (rest : List β) :
    h.field p g (head ++ (content ++ rest)) = if h.reads head then p content else g rest := by
  rw [field_append hhead.ge (by simp; omega), drop_of_length_le hhead.le, nil_append,
    ← hcontent, take_left, drop_left]

/-- Behind a whole head the content is too short, or is there. -/
theorem field_cases (head : List β) (hhead : head.length = h.size) (rest : List β) :
    (rest.length < h.length 0 head ∧ ∀ p g : List β → Option γ,
        h.field p g (head ++ rest) = none) ∨
      ∃ content rest', rest = content ++ rest' ∧ content.length = h.length 0 head ∧
        ∀ p g : List β → Option γ, h.field p g (head ++ rest) =
          if h.reads head then p content else g rest' := by
  by_cases hshort : rest.length < h.length 0 head
  · refine .inl ⟨hshort, fun p g => if_pos ?_⟩
    rw [(h.stable hhead.ge rest 0).2, length_append]
    omega
  · have hsplit := (take_append_drop (h.length 0 head) rest).symm
    have hlength : (rest.take (h.length 0 head)).length = h.length 0 head := by
      rw [length_take]
      omega
    refine .inr ⟨_, _, hsplit, hlength, fun p g => ?_⟩
    rw [← field_content hhead hlength, take_append_drop]

/-- What a field gives is not changed by what comes behind it. -/
theorem field_extend {x : List β} (hsome : (h.field p g x).isSome) {t : List β}
    (hg : ∀ {xs}, (g xs).isSome → g (xs ++ t) = g xs) : h.field p g (x ++ t) = h.field p g x := by
  obtain ⟨hfits, hcases⟩ := of_field hsome
  obtain ⟨hread, hlength⟩ := h.stable (by omega : h.size ≤ x.length) t 0
  rw [field, field, hread, hlength, if_neg (by rw [length_append]; omega),
    if_neg (not_lt.mpr hfits), drop_append_of_le_length (by omega),
    take_append_of_le_length (by rw [length_drop]; omega),
    drop_append_of_le_length hfits]
  rcases hcases with ⟨hread, -⟩ | ⟨hread, hrest⟩
  · rw [if_pos hread, if_pos hread]
  · rw [hread, hg hrest]

theorem field_bind {δ : Type} (q : γ → Option δ) (x : List β) :
    (h.field p g x).bind q = h.field (fun y => (p y).bind q) (fun y => (g y).bind q) x := by
  unfold field
  split_ifs <;> rfl

end Head

/-! ## Completions -/

/-- Some text of length `n` that begins with `x` is read. -/
def Completes (p : List β → Option γ) (n : Nat) (x : List β) : Prop :=
  ∃ y, (x ++ y).length = n ∧ (p (x ++ y)).isSome

/-- Below `bound`, `open'` says which texts can be completed, and `need` is the least length. -/
structure Decides (bound need : Nat) (open' : Nat → List β → Prop) (p : List β → Option γ) :
    Prop where
  iff : ∀ {n x}, x.length ≤ n → n < bound → (open' n x ↔ Completes p n x)
  needs : ∀ {x}, x.length < bound → (p x).isSome → need ≤ x.length
  free : ∀ {n}, need ≤ n → n < bound → Completes p n []

/-- The head has room in `total`, and the content can be completed, or what follows it. What is cut
off counts with the least length that it can have. -/
def Head.Open (h : Head β) (need : Nat) (inner rest : Nat → List β → Prop) (total : Nat)
    (x : List β) : Prop :=
  if h.reads x then
    h.size + h.length need x ≤ total ∧
      inner (h.length need x) ((x.drop h.size).take (h.length need x))
  else if h.size + h.length 0 x ≤ total then
    rest (total - (h.size + h.length 0 x)) (x.drop (h.size + h.length 0 x))
  else False

/-- The same for fields up to the first one that is read. -/
def Head.ScanOpen (h : Head β) (need : Nat) (inner : Nat → List β → Prop) (total : Nat)
    (x : List β) : Prop :=
  if h.reads x then
    h.size + h.length need x ≤ total ∧
      inner (h.length need x) ((x.drop h.size).take (h.length need x))
  else if h.size + h.length 0 x ≤ total then
    h.ScanOpen need inner (total - (h.size + h.length 0 x)) (x.drop (h.size + h.length 0 x))
  else False
termination_by total
decreasing_by
  have := h.size_pos
  omega

section

variable {h : Head β} {bound need gneed total : Nat} {inner rest : Nat → List β → Prop}
  {p g : List β → Option γ} {x : List β}

/-- A content that is cut to `xs`, completed, and followed by anything. -/
theorem take_completed {xs w : List β} {n : Nat} (hw : (xs.take n ++ w).length = n) (t : List β) :
    n ≤ (xs ++ (w ++ t)).length ∧ (xs ++ (w ++ t)).take n = xs.take n ++ w := by
  by_cases hxs : xs.length ≤ n
  · rw [take_of_length_le hxs] at hw ⊢
    rw [← append_assoc, take_left' hw]
    exact ⟨by rw [length_append]; omega, rfl⟩
  · have hnil : w = [] := by
      rw [length_append, length_take] at hw
      exact eq_nil_of_length_eq_zero (by omega)
    subst hnil
    rw [take_append_of_le_length (by omega)]
    simp
    omega

theorem drop_completed {y : List β} {size : Nat} (hy : (x ++ y).length = max x.length size) :
    (x ++ y).drop size = x.drop size := by
  rw [length_append] at hy
  by_cases hx : size ≤ x.length
  · rw [eq_nil_of_length_eq_zero (by omega : y.length = 0), append_nil]
  · rw [drop_of_length_le (by rw [length_append]; omega),
      drop_of_length_le (by omega)]

theorem Head.completes_of_open [Inhabited β] (hneed : need ≤ h.limit)
    (hp : h.reads x = true → Decides bound need inner p)
    (hg : h.reads x = false → Decides bound gneed rest g)
    (hx : x.length ≤ total) (htotal : total ≤ bound) (hopen : h.Open need inner rest total x) :
    Completes (h.field p g) total x := by
  have hpos := h.size_pos
  unfold Head.Open at hopen
  split_ifs at hopen with hread hfits
  · obtain ⟨hfits, hinner⟩ := hopen
    obtain ⟨y, hy, hready, hlength⟩ := h.complete x hneed
    have hdrop := drop_completed hy
    rw [← hlength] at hfits hinner
    obtain ⟨w, hw, hname⟩ :=
      ((hp hread).iff (length_take_le _ _) (by omega)).mp hinner
    -- the missing part of the head, that of the content, and what fills the container
    generalize hfill : replicate (total - (x ++ y ++ w).length) (default : β) = fill
    obtain ⟨hlong, htake⟩ := take_completed hw fill
    have hwhole : (x ++ (y ++ (w ++ fill))).length = total := by
      simp [← hfill] at hw hy ⊢
      omega
    refine ⟨y ++ (w ++ fill), hwhole, ?_⟩
    rw [← append_assoc] at hwhole ⊢
    rw [Head.field_append (by omega) (by omega), if_pos (hready.trans hread), hdrop, htake]
    exact hname
  · obtain ⟨y, hy, hready, hlength⟩ := h.complete x (Nat.zero_le h.limit)
    have hdrop := drop_completed hy
    rw [Bool.not_eq_true] at hread
    rw [← hlength] at hfits hopen
    obtain ⟨y', hy', hname⟩ :=
      ((hg hread).iff (by rw [length_drop]; omega) (by omega)).mp hopen
    generalize hfill :
      replicate (h.length 0 (x ++ y) - (x.drop h.size).length) (default : β) = fill
    have hrest : (x.drop h.size ++ (fill ++ y')).drop (h.length 0 (x ++ y)) =
        x.drop (h.size + h.length 0 (x ++ y)) ++ y' := by
      rw [← hfill, drop_append, drop_append, drop_drop]
      simp
    have hwhole : (x ++ (y ++ (fill ++ y'))).length = total := by
      simp [← hfill] at hy hy' ⊢
      omega
    refine ⟨y ++ (fill ++ y'), hwhole, ?_⟩
    rw [← append_assoc] at hwhole ⊢
    rw [Head.field_append (by omega) (by omega), hready, hread, hdrop, hrest]
    exact hname

theorem Head.open_of_completes (hle : need ≤ gneed)
    (hp : ∀ z, h.reads z = true → Decides bound need inner p)
    (hg : ∀ z, h.reads z = false → Decides bound gneed rest g)
    (htotal : total ≤ bound) (hc : Completes (h.field p g) total x) :
    h.Open need inner rest total x := by
  have hpos := h.size_pos
  obtain ⟨y, rfl, hname⟩ := hc
  obtain ⟨hfits, ⟨hread, hname⟩ | ⟨hread, hname⟩⟩ := Head.of_field hname <;> unfold Head.Open
  · have hp := hp _ hread
    have hneed := hp.needs (by rw [length_take]; omega) hname
    rw [length_take, length_drop] at hneed
    have hleast := h.least (by omega) (show need ≤ h.length 0 (x ++ y) by omega)
    rw [if_pos (h.reads_of (by omega) hread)]
    refine ⟨by omega, (hp.iff (length_take_le _ _) (by omega)).mpr ?_⟩
    by_cases hx : h.size ≤ x.length
    · have hlength : h.length need x = h.length 0 (x ++ y) := by
        have := (h.stable hx [] need).2
        rw [append_nil] at this
        rw [this, (h.stable hx y 0).2]
      rw [hlength]
      rw [drop_append_of_le_length hx, take_append] at hname
      refine ⟨_, ?_, hname⟩
      rw [← take_append, ← drop_append_of_le_length hx, length_take,
        length_drop]
      omega
    -- of a content there is something only behind a whole head
    · rw [drop_of_length_le (by omega), take_nil]
      exact hp.free (h.enough (by omega)) (by omega)
  · have hg := hg _ hread
    have hneed := hg.needs (by rw [length_drop]; omega) hname
    rw [length_drop] at hneed
    by_cases hopen : h.reads x = true
    · have hx : x.length < h.size := by
        by_contra hx
        rw [(h.stable (not_lt.mp hx) y 0).1, hopen] at hread
        cases hread
      have hp := hp x hopen
      rw [if_pos hopen, h.undecided (by omega) hopen hread, drop_of_length_le (by omega),
        take_nil]
      exact ⟨by omega, (hp.iff (Nat.zero_le _) (by omega)).mpr (hp.free le_rfl (by omega))⟩
    · have hleast := h.least (show h.size ≤ (x ++ y).length by omega) (Nat.zero_le _)
      rw [if_neg hopen, if_pos (by omega)]
      refine (hg.iff (by rw [length_drop, length_append]; omega) (by omega)).mpr ?_
      by_cases hx : h.size ≤ x.length
      · have hlength : h.length 0 x = h.length 0 (x ++ y) := (h.stable hx y 0).2.symm
        rw [hlength]
        rw [drop_append] at hname
        refine ⟨_, ?_, hname⟩
        rw [← drop_append, length_drop]
      · rw [drop_of_length_le (by omega)]
        exact hg.free (by omega) (by omega)

theorem Decides.mono {open' : Nat → List β → Prop} (hp : Decides bound need open' p) {bound' : Nat}
    (hle : bound' ≤ bound) : Decides bound' need open' p where
  iff hx hn := hp.iff hx (hn.trans_le hle)
  needs hx := hp.needs (hx.trans_le hle)
  free hneed hn := hp.free hneed (hn.trans_le hle)

/-- **A field is decided where its content and what follows it are**. -/
theorem Head.decides_field [Inhabited β] (hneed : need ≤ h.limit) (hle : need ≤ gneed)
    (hp : ∀ z, h.reads z = true → Decides bound need inner p)
    (hg : ∀ z, h.reads z = false → Decides bound gneed rest g) :
    Decides (bound + 1) (h.size + if h.reads [] then need else gneed) (h.Open need inner rest)
      (h.field p g) where
  iff hx hn := ⟨h.completes_of_open hneed (hp _) (hg _) hx (by omega),
    h.open_of_completes hle hp hg (by omega)⟩
  needs := by
    intro x hx hname
    have hpos := h.size_pos
    obtain ⟨hfits, ⟨hread, hname⟩ | ⟨hread, hname⟩⟩ := Head.of_field hname
    · have := (hp x hread).needs (by rw [length_take, length_drop]; omega) hname
      rw [length_take] at this
      rw [if_pos (h.reads_of (x := []) (show h.size ≤ x.length by omega) hread)]
      omega
    · have := (hg x hread).needs (by rw [length_drop]; omega) hname
      rw [length_drop] at this
      split <;> omega
  free := by
    intro n hn hlt
    have hpos := h.size_pos
    refine h.completes_of_open hneed (hp _) (hg _) (Nat.zero_le _) (by omega) ?_
    unfold Head.Open
    rw [h.length_nil, h.length_nil, drop_nil, drop_nil, take_nil]
    split_ifs at hn ⊢ with hread hfits
    · have hp := hp _ hread
      exact ⟨hn, (hp.iff (Nat.zero_le _) (by omega)).mpr (hp.free le_rfl (by omega))⟩
    · have hg := hg _ (Bool.not_eq_true _ ▸ hread)
      exact (hg.iff (Nat.zero_le _) (by omega)).mpr (hg.free (by omega) (by omega))
    · omega

theorem Head.decides_scan [Inhabited β] (hneed : need ≤ h.limit) (hread : h.reads [] = true)
    (hp : ∀ bound, Decides bound need inner p) (bound : Nat) :
    Decides bound (h.size + need) (h.ScanOpen need inner) (h.scan p) := by
  induction bound with
  | zero => constructor <;> (intros; omega)
  | succ bound ih =>
    have hopen : h.Open need inner (h.ScanOpen need inner) = h.ScanOpen need inner := by
      funext total x
      rw [Head.ScanOpen, Head.Open]
    have hscan : h.field p (h.scan p) = h.scan p := funext fun xs => (Head.scan_eq xs).symm
    have hfield := h.decides_field hneed (Nat.le_add_left need h.size) (fun _ _ => hp bound)
      (fun _ _ => ih)
    rwa [hopen, hscan, if_pos hread] at hfield

end

end AwgMesh.Lib
