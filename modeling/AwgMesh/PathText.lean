import AwgMesh.ByteText

/-! # Paths as texts -/

namespace AwgMesh.PathText

open ByteText List

def slash : UInt8 := 0x2f

def backslash : UInt8 := 0x5c

def dot : Bytes := [0x2e]

def dotdot : Bytes := [0x2e, 0x2e]

def IsName (b : Bytes) : Prop := b ≠ [] ∧ b ≠ dot ∧ b ≠ dotdot ∧ slash ∉ b

instance : DecidablePred IsName := fun b =>
  inferInstanceAs (Decidable (b ≠ [] ∧ b ≠ dot ∧ b ≠ dotdot ∧ slash ∉ b))

abbrev Name := {b : Bytes // IsName b}

abbrev Path := List Name

/-! ## Elements -/

def split (b : Bytes) : List Bytes := splitByte slash b

def join : List Bytes → Bytes
  | [] => []
  | [e] => e
  | e :: es => e ++ slash :: join es

variable {es : List Bytes}

theorem join_cons (e : Bytes) (h : es ≠ []) : join (e :: es) = e ++ slash :: join es := by
  cases es with
  | nil => exact absurd rfl h
  | cons d es => rfl

theorem join_concat (e : Bytes) (h : es ≠ []) : join (es ++ [e]) = join es ++ slash :: e := by
  induction es with
  | nil => exact absurd rfl h
  | cons d es ih =>
    cases es with
    | nil => rfl
    | cons d' es =>
      have hne : d' :: es ≠ [] := cons_ne_nil d' es
      rw [cons_append, join_cons d (by simp), ih hne, join_cons d hne, append_assoc,
        cons_append]

variable {e : Bytes}

theorem split_append (he : slash ∉ e) (b : Bytes) :
    split (e ++ slash :: b) = e :: split b := splitByte_append he b

theorem split_join (hne : es ≠ []) (hes : ∀ e ∈ es, slash ∉ e) : split (join es) = es := by
  induction es with
  | nil => exact absurd rfl hne
  | cons e es ih =>
    cases es with
    | nil => exact splitByte_of_notMem (hes e mem_cons_self)
    | cons e' es =>
      rw [join, split_append (hes e mem_cons_self),
        ih (cons_ne_nil e' es) fun d hd => hes d (mem_cons_of_mem e hd)]
      exact cons_ne_nil e' es

theorem split_join_slash (hne : es ≠ []) (hes : ∀ e ∈ es, slash ∉ e) :
    split (join es ++ [slash]) = es ++ [[]] := by
  induction es with
  | nil => exact absurd rfl hne
  | cons e es ih =>
    cases es with
    | nil => exact split_append (hes e mem_cons_self) []
    | cons e' es =>
      rw [join, append_assoc, cons_append, split_append (hes e mem_cons_self),
        ih (cons_ne_nil e' es) fun d hd => hes d (mem_cons_of_mem e hd)]
      · rfl
      · exact cons_ne_nil e' es

theorem mem_join {c : UInt8} (hc : c ≠ slash) : c ∈ join es ↔ ∃ e ∈ es, c ∈ e := by
  induction es with
  | nil => simp [join]
  | cons e es ih =>
    cases es with
    | nil => simp [join]
    | cons e' es =>
      rw [join, mem_append, mem_cons, ih]
      · simp [hc]
      · exact cons_ne_nil e' es

theorem exists_join_concat (es : List Bytes) : ∃ b, ∀ e, join (es ++ [e]) = b ++ e := by
  induction es with
  | nil => exact ⟨[], fun _ => rfl⟩
  | cons d es ih =>
    obtain ⟨b, hb⟩ := ih
    refine ⟨d ++ slash :: b, fun e => ?_⟩
    rw [cons_append, join, hb]
    · simp
    · simp

/-! ## Cleaning -/

def push (rooted : Bool) (stack : List Bytes) (e : Bytes) : List Bytes :=
  if e = [] ∨ e = dot then stack
  else if e = dotdot then
    match stack with
    | [] => if rooted then [] else [dotdot]
    | top :: rest => if top = dotdot then dotdot :: top :: rest else rest
  else e :: stack

def clean (p : Bytes) : Bytes :=
  let rooted := p.head? = some slash
  let es := ((split p).foldl (push rooted) []).reverse
  if rooted then slash :: join es
  else if es = [] then dot
  else join es

variable {rooted : Bool}

theorem foldl_push (hes : ∀ e ∈ es, IsName e)
    (stack : List Bytes) : es.foldl (push rooted) stack = es.reverse ++ stack := by
  induction es generalizing stack with
  | nil => rfl
  | cons e es ih =>
    obtain ⟨hnil, hdot, hdotdot, -⟩ := hes e mem_cons_self
    have hpush : push rooted stack e = e :: stack := by
      unfold push
      rw [if_neg (by simp [hnil, hdot]), if_neg hdotdot]
    rw [foldl_cons, hpush, ih fun d hd => hes d (mem_cons_of_mem e hd)]
    simp

theorem head?_join_ne_slash (hes : ∀ e ∈ es, e ≠ [] ∧ slash ∉ e) :
    (join es).head? ≠ some slash := by
  cases es with
  | nil => simp [join]
  | cons e es =>
    obtain ⟨hnil, hslash⟩ := hes e mem_cons_self
    obtain ⟨c, e, rfl⟩ := exists_cons_of_ne_nil hnil
    rw [mem_cons, not_or] at hslash
    cases es <;> simpa [join] using Ne.symm hslash.1

theorem clean_join (hne : es ≠ []) (hes : ∀ e ∈ es, IsName e) : clean (join es) = join es := by
  have hsplit := split_join hne fun e he => (hes e he).2.2.2
  have hhead := head?_join_ne_slash fun e he => ⟨(hes e he).1, (hes e he).2.2.2⟩
  unfold clean
  simp only [hhead, hsplit, foldl_push hes, append_nil, reverse_reverse,
    if_neg hne, if_false]

def isAbs (p : Bytes) : Bool := p.head? = some slash

def stack (p : Bytes) : List Bytes := (split p).foldl (push (isAbs p)) []

def render (rooted : Bool) (st : List Bytes) : Bytes :=
  if rooted then slash :: join st.reverse
  else if st = [] then dot
  else join st.reverse

theorem clean_eq_render (p : Bytes) : clean p = render (isAbs p) (stack p) := by
  unfold clean render stack isAbs
  by_cases h : p.head? = some slash <;> simp [h]

inductive Clean (rooted : Bool) : List Bytes → Prop
  | nil : Clean rooted []
  | name {e : Bytes} {st : List Bytes} : IsName e → Clean rooted st → Clean rooted (e :: st)
  | up {st : List Bytes} : rooted = false → (∀ d ∈ st, d = dotdot) → Clean rooted st →
      Clean rooted (dotdot :: st)

variable {st : List Bytes}

theorem Clean.tail (h : Clean rooted (e :: st)) : Clean rooted st := by
  cases h with
  | name _ h => exact h
  | up _ _ h => exact h

theorem Clean.element (h : Clean rooted st) : ∀ e ∈ st, e ≠ [] ∧ slash ∉ e := by
  induction h with
  | nil => exact nofun
  | name hname _ ih => exact forall_mem_cons.mpr ⟨⟨hname.1, hname.2.2.2⟩, ih⟩
  | up _ _ _ ih => exact forall_mem_cons.mpr ⟨by decide, ih⟩

theorem Clean.push (h : Clean rooted st) (he : slash ∉ e) : Clean rooted (push rooted st e) := by
  unfold PathText.push
  split
  · exact h
  next hskip =>
  rw [not_or] at hskip
  split
  · next hup =>
      cases st with
      | nil =>
        cases rooted with
        | true => exact Clean.nil
        | false => exact Clean.up rfl nofun Clean.nil
      | cons top rest =>
        show Clean rooted (if top = dotdot then dotdot :: top :: rest else rest)
        split
        · next htop =>
            subst htop
            cases h with
            | name hname _ => exact absurd rfl hname.2.2.1
            | up hrooted hall hrest =>
              exact Clean.up hrooted (forall_mem_cons.mpr ⟨rfl, hall⟩)
                (Clean.up hrooted hall hrest)
        · exact h.tail
  · next hup => exact Clean.name ⟨hskip.1, hskip.2, hup, he⟩ h

theorem Clean.push_eq (h : Clean rooted (e :: st)) : PathText.push rooted st e = e :: st := by
  unfold PathText.push
  cases h with
  | name hname _ => rw [if_neg (not_or.mpr ⟨hname.1, hname.2.1⟩), if_neg hname.2.2.1]
  | up hrooted hall _ =>
    rw [if_neg (by decide), if_pos rfl]
    cases st with
    | nil => rw [hrooted]; rfl
    | cons top rest => exact if_pos (hall top mem_cons_self)

theorem Clean.foldl_push (h : Clean rooted st) :
    st.reverse.foldl (PathText.push rooted) [] = st := by
  induction st with
  | nil => rfl
  | cons e st ih =>
    rw [reverse_cons, foldl_append, ih h.tail]
    exact h.push_eq

theorem clean_stack (p : Bytes) : Clean (isAbs p) (stack p) := by
  have hfold : ∀ {rooted : Bool} {es st : List Bytes}, (∀ e ∈ es, slash ∉ e) → Clean rooted st →
      Clean rooted (es.foldl (push rooted) st) := by
    intro rooted es
    induction es with
    | nil => exact fun _ h => h
    | cons e es ih =>
      intro st hes h
      rw [foldl_cons]
      exact ih (fun d hd => hes d (mem_cons_of_mem e hd)) (h.push (hes e mem_cons_self))
  exact hfold (fun e => notMem_of_mem_splitByte) Clean.nil

section Rendered

variable {rooted : Bool} {st : List Bytes} (h : Clean rooted st)

include h

theorem Clean.isAbs_render : isAbs (render rooted st) = rooted := by
  cases rooted with
  | true => rfl
  | false =>
    rw [isAbs, decide_eq_false_iff_not, render, if_neg Bool.false_ne_true]
    split
    · decide
    · exact head?_join_ne_slash fun e he => h.element e (mem_reverse.mp he)

theorem Clean.split_reverse (hne : st ≠ []) : split (join st.reverse) = st.reverse :=
  split_join (mt reverse_eq_nil_iff.mp hne) fun e he =>
    (h.element e (mem_reverse.mp he)).2

theorem Clean.split_render (hne : st ≠ []) :
    split (render rooted st) = if rooted then [] :: st.reverse else st.reverse := by
  cases rooted with
  | true => exact (split_append not_mem_nil _).trans (congrArg _ (h.split_reverse hne))
  | false => rw [render, if_neg Bool.false_ne_true, if_neg hne, h.split_reverse hne]; rfl

theorem Clean.stack_render (hne : st ≠ []) : stack (render rooted st) = st := by
  rw [stack, h.isAbs_render, h.split_render hne]
  cases rooted with
  | true => exact h.foldl_push
  | false => exact h.foldl_push

theorem Clean.clean_render (hne : st ≠ []) : clean (render rooted st) = render rooted st := by
  rw [clean_eq_render, h.isAbs_render, h.stack_render hne]

end Rendered

theorem render_cons (rooted : Bool) (hne : st ≠ []) (e : Bytes) :
    render rooted (e :: st) = render rooted st ++ slash :: e := by
  have hrev := join_concat e (mt reverse_eq_nil_iff.mp hne)
  unfold render
  rw [reverse_cons, hrev, if_neg (cons_ne_nil e st), if_neg hne]
  split <;> rfl

def joinText (a b : Bytes) : Bytes :=
  if a ≠ [] then clean (a ++ slash :: b)
  else if b ≠ [] then clean b
  else []

theorem head?_stack_clean {p b : Bytes} (h : (stack p).head? = some b) :
    (stack (clean p)).head? = some b := by
  have hne : stack p ≠ [] := by
    intro hnil
    rw [hnil] at h
    cases h
  rw [clean_eq_render, (clean_stack p).stack_render hne, h]

variable {b : Bytes}

theorem head?_stack_joinText (a : Bytes) (hb : IsName b) :
    (stack (joinText a b)).head? = some b := by
  have hsplit : split b = [b] := splitByte_of_notMem hb.2.2.2
  have hpush : ∀ rooted st, push rooted st b = b :: st := fun rooted st =>
    foldl_push (fun e he => mem_singleton.mp he ▸ hb) st
  unfold joinText
  split
  · refine head?_stack_clean ?_
    rw [stack, split, splitByte_append_sep, foldl_append]
    rw [split] at hsplit
    rw [hsplit, foldl_cons, foldl_nil, hpush, head?_cons]
  · rw [if_pos hb.1]
    refine head?_stack_clean ?_
    rw [stack, hsplit, foldl_cons, foldl_nil, hpush, head?_cons]

theorem joinText_inj {a b c : Bytes} (hb : IsName b) (hc : IsName c)
    (h : joinText a b = joinText a c) : b = c := by
  have hhead := head?_stack_joinText a hb
  rw [h, head?_stack_joinText a hc] at hhead
  exact (Option.some.inj hhead).symm

def elements (p : Bytes) : List Bytes :=
  let q := if isAbs p then p.tail else p
  if q = [] ∨ q = dot then [] else split q

theorem Clean.elements_render (h : Clean rooted st)
    (hne : st ≠ []) : elements (render rooted st) = st.reverse := by
  have hsplit := h.split_reverse hne
  have hproper : ¬ (join st.reverse = [] ∨ join st.reverse = dot) := by
    -- either text would be a single element that a clean path does not have
    rintro (heq | heq)
    all_goals
      rw [heq] at hsplit
      have hst : st.reverse = [_] := hsplit.symm
      rw [reverse_eq_iff] at hst
      subst hst
      cases h with
      | name hname _ => exact absurd hname (by decide)
  unfold elements
  rw [h.isAbs_render]
  cases rooted with
  | true => exact (if_neg hproper).trans hsplit
  | false =>
    rw [render, if_neg Bool.false_ne_true, if_neg Bool.false_ne_true, if_neg hne]
    exact (if_neg hproper).trans hsplit

def climb (base target : List Bytes) : Option Bytes :=
  if base.head? = some dotdot then none
  else some (join (base.map (fun _ => dotdot) ++ target))

def relFrom : List Bytes → List Bytes → Option Bytes
  | b :: base, t :: target =>
    if b = t then relFrom base target else climb (b :: base) (t :: target)
  | base, target => climb base target

def relText (basepath targpath : Bytes) : Option Bytes :=
  let base := clean basepath
  let targ := clean targpath
  if targ = base then some dot
  else if isAbs base ≠ isAbs targ then none
  else relFrom (elements base) (elements targ)

theorem relFrom_append (base : List Bytes) (e : Bytes) : relFrom base (base ++ [e]) = some e := by
  induction base with
  | nil => rfl
  | cons b base ih => rw [cons_append, relFrom, if_pos rfl, ih]

theorem Clean.relText_child (h : Clean rooted st) (hne : st ≠ []) (he : IsName e) :
    relText (render rooted st) (render rooted (e :: st)) = some e := by
  have hchild : Clean rooted (e :: st) := Clean.name he h
  have hdiff : render rooted (e :: st) ≠ render rooted st := by
    intro heq
    have hst := congrArg stack heq
    rw [hchild.stack_render (cons_ne_nil e st), h.stack_render hne] at hst
    exact absurd (congrArg length hst) (by simp)
  unfold relText
  simp only [h.clean_render hne, hchild.clean_render (cons_ne_nil e st), if_neg hdiff,
    h.isAbs_render, hchild.isAbs_render, ne_eq, not_true_eq_false, if_false, h.elements_render hne,
    hchild.elements_render (cons_ne_nil e st), reverse_cons]
  exact relFrom_append st.reverse e

/-! ## Absolute paths -/

def enter (base : Path) (e : Bytes) : Path :=
  if e = dotdot then base.tail
  else if h : IsName e then ⟨e, h⟩ :: base
  else base

def resolve (base : Path) (p : Bytes) : Path := (split p).foldl enter base

def abs (cwd : Path) (p : Bytes) : Path :=
  resolve (if p.head? = some slash then [] else cwd) p

def spell (q : Path) : Bytes := join (q.reverse.map Subtype.val)

variable {q : Path}

theorem isName_of_mem (h : e ∈ q.reverse.map Subtype.val) : IsName e := by
  obtain ⟨x, -, rfl⟩ := mem_map.mp h
  exact x.2

theorem notMem_slash_of_mem (h : e ∈ q.reverse.map Subtype.val) :
    slash ∉ e := (isName_of_mem h).2.2.2

theorem map_val_ne_nil (h : q ≠ []) : q.reverse.map Subtype.val ≠ [] :=
  mt map_eq_nil_iff.mp (mt reverse_eq_nil_iff.mp h)

theorem exists_spell_cons (q : Path) : ∃ b, ∀ x : Name, spell (x :: q) = b ++ x.1 := by
  obtain ⟨b, hb⟩ := exists_join_concat (q.reverse.map Subtype.val)
  refine ⟨b, fun x => ?_⟩
  rw [spell, reverse_cons, map_append]
  exact hb x.1

theorem spell_ne_dot (hq : q ≠ []) : spell q ≠ dot := by
  intro h
  have hsplit : split (spell q) = q.reverse.map Subtype.val :=
    split_join (map_val_ne_nil hq) fun _ => notMem_slash_of_mem
  rw [h] at hsplit
  have hdot : dot ∈ q.reverse.map Subtype.val := hsplit ▸ (by decide : dot ∈ split dot)
  exact (isName_of_mem hdot).2.1 rfl

def text (p : Path) : Bytes := slash :: spell p

theorem enter_name (base : Path) (x : Name) : enter base x.1 = x :: base := by
  rw [enter, if_neg x.2.2.2.1, dif_pos x.2]

theorem foldl_enter (base q : Path) : (q.reverse.map Subtype.val).foldl enter base = q ++ base := by
  induction q with
  | nil => rfl
  | cons x q ih =>
    rw [reverse_cons, map_append, foldl_append, ih]
    exact enter_name (q ++ base) x

theorem resolve_spell (base q : Path) : resolve base (spell q) = q ++ base := by
  by_cases hq : q = []
  · subst hq
    rfl
  · rw [resolve, spell, split_join (map_val_ne_nil hq) fun _ => notMem_slash_of_mem, foldl_enter]

theorem resolve_spell_slash (base : Path) (hq : q ≠ []) :
    resolve base (spell q ++ [slash]) = q ++ base := by
  rw [resolve, spell, split_join_slash (map_val_ne_nil hq) fun _ => notMem_slash_of_mem,
    foldl_append, foldl_enter]
  rfl

theorem resolve_name (base : Path) (hb : IsName b) : resolve base b = ⟨b, hb⟩ :: base := by
  rw [resolve, split, splitByte_of_notMem hb.2.2.2]
  exact enter_name base ⟨b, hb⟩

theorem abs_child (cwd : Path) {p b : Bytes} (hp : p ≠ []) (hb : IsName b) :
    abs cwd (p ++ slash :: b) = ⟨b, hb⟩ :: abs cwd p := by
  have hhead : (p ++ slash :: b).head? = p.head? := by
    obtain ⟨c, p, rfl⟩ := exists_cons_of_ne_nil hp
    rfl
  have hsplit : split (p ++ slash :: b) = split p ++ [b] :=
    (splitByte_append_sep slash p b).trans
      (congrArg (split p ++ ·) (splitByte_of_notMem hb.2.2.2))
  rw [abs, abs, hhead, resolve, resolve, hsplit, foldl_append]
  exact enter_name _ ⟨b, hb⟩

theorem resolve_text (p : Path) : resolve [] (text p) = p := by
  have hsplit : split (text p) = [] :: split (spell p) := split_append not_mem_nil (spell p)
  rw [resolve, hsplit, foldl_cons]
  exact (resolve_spell [] p).trans (append_nil p)

theorem abs_text (cwd p : Path) : abs cwd (text p) = p := by
  have hroot : (text p).head? = some slash := rfl
  rw [abs, if_pos hroot, resolve_text]

def relElements : List Name → List Name → List Bytes
  | b :: base, t :: target =>
    if b = t then relElements base target
    else (b :: base).map (fun _ => dotdot) ++ (t :: target).map Subtype.val
  | base, target => base.map (fun _ => dotdot) ++ target.map Subtype.val

def rel (base target : Path) : Bytes :=
  let es := relElements base.reverse target.reverse
  if es = [] then dot else join es

theorem relElements_append (base target : List Name) :
    relElements base (base ++ target) = target.map Subtype.val := by
  induction base with
  | nil => cases target <;> rfl
  | cons b base ih => rw [cons_append, relElements, if_pos rfl, ih]

theorem rel_append (base : Path) (hq : q ≠ []) : rel base (q ++ base) = spell q := by
  rw [rel, reverse_append, relElements_append]
  exact if_neg (map_val_ne_nil hq)

theorem rel_self (base : Path) : rel base base = dot := by
  have hes : relElements base.reverse base.reverse = [] := by
    have happend := relElements_append base.reverse []
    rwa [append_nil] at happend
  rw [rel, hes, if_pos rfl]

theorem relElements_of_not_prefix {base target : List Name} (h : ¬ base <+: target) :
    ∃ es, relElements base target = dotdot :: es := by
  induction base generalizing target with
  | nil => exact absurd nil_prefix h
  | cons b base ih =>
    cases target with
    | nil => exact ⟨_, rfl⟩
    | cons t target =>
      rw [relElements]
      split
      · next heq => exact ih fun hpfx => h (heq ▸ cons_prefix_cons.mpr ⟨rfl, hpfx⟩)
      · exact ⟨_, rfl⟩

theorem dotdot_prefix_rel {base target : Path} (h : ¬ base <:+ target) :
    dotdot <+: rel base target := by
  obtain ⟨es, hes⟩ := relElements_of_not_prefix (mt reverse_prefix.mp h)
  rw [rel, hes, if_neg (cons_ne_nil dotdot es)]
  cases es with
  | nil => exact prefix_refl dotdot
  | cons e es => exact prefix_append dotdot _

end AwgMesh.PathText
