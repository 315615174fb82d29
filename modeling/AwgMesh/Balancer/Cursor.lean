import AwgMesh.Balancer.Engine

/-!
# The round-robin cursor

`nextHealthyDumb` (`pkg/balancer/selector.go`) never resets its cursor.
-/

namespace AwgMesh.Balancer

open Lib RoundRobin List

/-! ## Fairness -/

variable {egresses : List EgressTarget}

theorem normalizeEgressesFrom_nodup {i : Nat} {acc x : Indexed}
    (hacc : acc.egresses.Nodup) (h : normalizeEgressesFrom egresses i acc = .ok x) :
    x.egresses.Nodup := by
  fun_induction normalizeEgressesFrom egresses i acc with
  | case1 => cases h; exact hacc
  | case2 => cases h
  | case3 => cases h
  | case4 _ _ _ acc next _ hfresh ih =>
    apply ih _ h
    rw [Indexed.push, nodup_append]
    refine ⟨hacc, by simp, ?_⟩
    -- the ID of the new target is not taken
    rintro old hold new hnew rfl
    have htaken := acc.byID_iff.mpr ⟨hold, rfl⟩
    rw [mem_singleton.mp hnew, hfresh] at htaken
    cases htaken

theorem newSnapshot_weighted {s : Snapshot} (h : newSnapshot egresses = .ok s) :
    s.egresses.Nodup ∧ s.weighted = expandWeights s.egresses := by
  unfold newSnapshot normalizeEgresses at h
  split at h
  · cases h
  next indexed hok =>
  cases h
  split at hok
  · cases hok
  · exact ⟨normalizeEgressesFrom_nodup nodup_nil hok, rfl⟩

theorem count_expandWeights (hnodup : egresses.Nodup)
    {egress : EgressTarget} (hmem : egress ∈ egresses) :
    (expandWeights egresses).count egress = egress.weight.toNat := by
  unfold expandWeights
  induction egresses with
  | nil => cases hmem
  | cons first rest ih =>
    obtain ⟨hfirst, hrest⟩ := nodup_cons.mp hnodup
    rw [flatMap_cons, count_append, count_replicate]
    rcases mem_cons.mp hmem with rfl | hmem
    · have hnone : (rest.flatMap fun e => replicate e.weight.toNat e).count egress = 0 := by
        simp only [count_eq_zero, mem_flatMap, mem_replicate, not_exists, not_and]
        rintro e he - rfl
        exact hfirst he
      simp [hnone]
    · have hne : first ≠ egress := by
        rintro rfl
        exact hfirst hmem
      simp [hne, ih hrest hmem]

theorem length_expandWeights
    (hpos : ∀ egress ∈ egresses, 0 < egress.weight) :
    ((expandWeights egresses).length : Int) = (egresses.map (·.weight)).sum := by
  unfold expandWeights
  induction egresses with
  | nil => rfl
  | cons first rest ih =>
    obtain ⟨hfirst, hrest⟩ := forall_mem_cons.mp hpos
    rw [flatMap_cons, length_append, length_replicate, Nat.cast_add, ih hrest,
      map_cons, sum_cons, Int.toNat_of_nonneg hfirst.le]

namespace Engine

def chosen (e : Engine) : List (DecisionRequest × Time × Time) → List (Option EgressTarget)
  | [] => []
  | (req, now, clock) :: calls =>
    let (e', result) := e.select req now clock
    (result.toOption.map Decision.egress) :: e'.chosen calls

variable {e : Engine}

theorem select_turn {req : DecisionRequest} (now clock : Time)
    (hmode : e.cfg.mode = .dumb) (hkey : req.flowKey.empty)
    (hhealthy : ∀ egress ∈ e.registry.egresses, e.isHealthy egress)
    (hne : e.registry.weighted ≠ []) :
    ∃ entries d, e.select req now clock = (e.moved (e.rrCursor + 1) entries, .ok d) ∧
      e.registry.weighted[e.rrCursor % e.registry.weighted.length]? = some d.egress := by
  have hpos : 0 < e.registry.weighted.length := length_pos_iff.mpr hne
  obtain ⟨x, hx⟩ : ∃ x, e.registry.weighted[e.rrCursor % e.registry.weighted.length]? = some x :=
    ⟨_, getElem?_eq_getElem (Nat.mod_lt _ hpos)⟩
  have hpass : ∀ y ∈ e.registry.weighted, e.isHealthy y := fun y hy =>
    hhealthy y (e.registry.mem_weighted.mp hy)
  have houtcome := e.select_outcome req now clock
  generalize e.select req now clock = r at houtcome
  cases houtcome with
  | sticky hsticky => simp [stickyEgress, hkey] at hsticky
  | pinned _ hpinned => simp [pinnedEgress, hmode] at hpinned
  | dumb cursor _ _ hscan hd =>
    rw [← Nat.sub_add_cancel hpos,
      scan_of_pass hx (hpass x (mem_of_getElem? hx))] at hscan
    cases hscan
    exact ⟨_, _, rfl, hx.trans (congrArg some hd.symm)⟩
  | failed _ _ _ hnone =>
    have := hpass x (mem_of_getElem? hx)
    rw [hnone x (mem_of_getElem? hx)] at this
    cases this

theorem chosen_eq_turns (hmode : e.cfg.mode = .dumb)
    (hhealthy : ∀ egress ∈ e.registry.egresses, e.isHealthy egress)
    (hne : e.registry.weighted ≠ []) {calls : List (DecisionRequest × Time × Time)}
    (hkeys : ∀ call ∈ calls, call.1.flowKey.empty) :
    e.chosen calls = turns e.registry.weighted calls.length e.rrCursor := by
  induction calls generalizing e with
  | nil => rfl
  | cons call calls ih =>
    obtain ⟨req, now, clock⟩ := call
    obtain ⟨hkey, hkeys⟩ := forall_mem_cons.mp hkeys
    obtain ⟨entries, d, hselect, hd⟩ := select_turn now clock hmode hkey hhealthy hne
    rw [chosen, hselect, length_cons, turns_succ, hd]
    exact congrArg _ (ih (e := e.moved (e.rrCursor + 1) entries) hmode hhealthy hne hkeys)

/-- **Exact weighted fairness**. -/
theorem weighted_fairness {egresses : List EgressTarget} {s : Snapshot}
    (hsnapshot : newSnapshot egresses = .ok s) {e : Engine} (hregistry : e.registry = s)
    (hmode : e.cfg.mode = .dumb) (hhealthy : ∀ egress ∈ s.egresses, e.isHealthy egress)
    {calls : List (DecisionRequest × Time × Time)} (hkeys : ∀ call ∈ calls, call.1.flowKey.empty)
    {k : Nat} (hlength : (calls.length : Int) = k * (s.egresses.map (·.weight)).sum)
    {egress : EgressTarget} (hegress : egress ∈ s.egresses) :
    ((e.chosen calls).count (some egress) : Int) = k * egress.weight := by
  subst hregistry
  obtain ⟨hnodup, hweighted⟩ := newSnapshot_weighted hsnapshot
  have hne : e.registry.weighted ≠ [] :=
    ne_nil_of_mem (e.registry.mem_weighted.mpr hegress)
  rw [← length_expandWeights e.registry.weight_pos, ← hweighted] at hlength
  rw [chosen_eq_turns hmode hhealthy hne hkeys,
    show calls.length = k * e.registry.weighted.length by exact_mod_cast hlength,
    count_turns, hweighted, count_expandWeights hnodup hegress, Nat.cast_mul,
    Int.toNat_of_nonneg (e.registry.weight_pos egress hegress).le]

def weighing (id : String) (weight : Int) : EgressTarget := ⟨id, "172.21.92.10:51821", weight⟩

theorem weighted_fairness_two_rounds : ∃ s, newSnapshot [weighing "eu" 2, weighing "ru" 1] = .ok s ∧
    let e : Engine :=
      { cfg := twoEgresses .dumb, registry := s, labelMap := ∅, flowIdle := 1, rrCursor := 5 }
    ∀ egress ∈ [weighing "eu" 2, weighing "ru" 1],
      ((e.chosen (replicate 6 ({}, 1, 1))).count (some egress) : Int) =
        (2 : Nat) * egress.weight := by
  have hnew : (newSnapshot [weighing "eu" 2, weighing "ru" 1]).toOption.map (·.egresses) =
      some [weighing "eu" 2, weighing "ru" 1] := by decide
  obtain ⟨s, hs, hegresses⟩ := Option.map_eq_some_iff.mp hnew
  refine ⟨s, eq_ok_of_toOption hs, ?_⟩
  intro e egress hmem
  apply weighted_fairness (eq_ok_of_toOption hs) rfl rfl
  · exact fun _ _ => rfl
  · intro call hcall
    rw [eq_of_mem_replicate hcall]
    decide
  · rw [hegresses]
    decide
  · rw [hegresses]
    exact hmem

end Engine

/-! ## The cursor of a machine -/

/-- A look of the loop in `nextHealthyDumb`. -/
structure Look where
  length : Nat
  index : Int
  deriving DecidableEq

def Look.Valid (look : Look) : Prop := 0 ≤ look.index ∧ look.index < look.length

inductive Verdict where
  | found (egress : EgressTarget)
  | noHealthy
  | outOfRange
  deriving DecidableEq

variable {w : Nat}

def lookAt (cursor : BitVec w) (length : Nat) : Look := ⟨length, cursor.toInt.tmod length⟩

/-- The loop of `nextHealthyDumb`. -/
def lookLoop (healthy : EgressTarget → Bool) (weighted : List EgressTarget) :
    (left : Nat) → BitVec w → List Look × BitVec w × Verdict
  | 0, cursor => ([], cursor, .noHealthy)
  | left + 1, cursor =>
    let look := lookAt cursor weighted.length
    match if 0 ≤ look.index then weighted[look.index.toNat]? else none with
    | none => ([look], cursor + 1, .outOfRange)
    | some candidate =>
      if healthy candidate then ([look], cursor + 1, .found candidate)
      else
        let (looks, rest) := lookLoop healthy weighted left (cursor + 1)
        (look :: looks, rest)

theorem lookLoop_eq_scan (hw : 0 < w) (healthy : EgressTarget → Bool)
    {weighted : List EgressTarget} (hne : weighted ≠ []) {left cursor : Nat}
    (hcursor : cursor + left ≤ 2 ^ (w - 1)) :
    (lookLoop healthy weighted left (BitVec.ofNat w cursor)).2 =
      (BitVec.ofNat w (RoundRobin.scan healthy weighted left cursor).1,
        (RoundRobin.scan healthy weighted left cursor).2.elim .noHealthy .found) := by
  induction left generalizing cursor with
  | zero => rfl
  | succ left ih =>
    have hlt := Nat.mod_lt cursor (length_pos_iff.mpr hne)
    have hindex : (lookAt (BitVec.ofNat w cursor) weighted.length).index =
        (cursor % weighted.length : Nat) := by
      have hint : (BitVec.ofNat w cursor).toInt = cursor := by
        have hhalf := Nat.two_pow_pred_add_two_pow_pred hw
        rw [BitVec.toInt_eq_toNat_cond, BitVec.toNat_ofNat, Nat.mod_eq_of_lt (by omega),
          if_pos (by omega)]
      rw [lookAt, hint]
      exact (Int.ofNat_tmod _ _).symm
    have hnext : BitVec.ofNat w cursor + 1 = BitVec.ofNat w (cursor + 1) := by
      rw [BitVec.ofNat_add]
      rfl
    rw [lookLoop, RoundRobin.scan]
    simp only [hindex, Int.natCast_nonneg, if_true, Int.toNat_natCast,
      getElem?_eq_getElem hlt, hnext]
    split_ifs
    · rfl
    · exact ih (by omega)

/-- As long as the cursor has not wrapped, the machine does what `nextHealthyDumb` does, whose
cursor is unbounded. -/
theorem Engine.nextHealthyDumb_eq_lookLoop (hw : 0 < w) {e : Engine}
    (hne : e.registry.weighted ≠ [])
    (hcursor : e.rrCursor + e.registry.weighted.length ≤ 2 ^ (w - 1)) :
    (lookLoop e.isHealthy e.registry.weighted e.registry.weighted.length
      (BitVec.ofNat w e.rrCursor)).2 = (BitVec.ofNat w e.nextHealthyDumb.1.rrCursor,
        e.nextHealthyDumb.2.toOption.elim .noHealthy .found) := by
  rw [lookLoop_eq_scan hw _ hne hcursor, nextHealthyDumb, if_neg hne]
  obtain ⟨cursor, found⟩ :=
    RoundRobin.scan e.isHealthy e.registry.weighted e.registry.weighted.length e.rrCursor
  cases found <;> rfl

def trace : BitVec w → List (List EgressTarget × (EgressTarget → Bool)) → List Look
  | _, [] => []
  | cursor, (weighted, healthy) :: calls =>
    match lookLoop healthy weighted weighted.length cursor with
    | (looks, _, .outOfRange) => looks
    | (looks, cursor, _) => looks ++ trace cursor calls

def Counts (cursor : BitVec w) (looks : List Look) : Prop :=
  ∀ n look, looks[n]? = some look → look = lookAt (cursor + BitVec.ofNat w n) look.length

theorem Counts.append {cursor : BitVec w} {looks rest : List Look} (hlooks : Counts cursor looks)
    (hrest : Counts (cursor + BitVec.ofNat w looks.length) rest) :
    Counts cursor (looks ++ rest) := by
  intro n look hlook
  rw [getElem?_append] at hlook
  split at hlook
  · exact hlooks n look hlook
  · next hn =>
      have hcursor : cursor + BitVec.ofNat w looks.length + BitVec.ofNat w (n - looks.length) =
          cursor + BitVec.ofNat w n := by
        rw [BitVec.add_assoc, ← BitVec.ofNat_add, Nat.add_sub_cancel' (not_lt.mp hn)]
      rw [← hcursor]
      exact hrest _ look hlook

theorem counts_singleton (cursor : BitVec w) (length : Nat) :
    Counts cursor [lookAt cursor length] := by
  intro n look hlook
  cases n with
  | zero => cases hlook; simp [lookAt]
  | succ n => simp at hlook

theorem lookLoop_spec (healthy : EgressTarget → Bool) (weighted : List EgressTarget) (left : Nat)
    (cursor : BitVec w) {looks : List Look} {after : BitVec w} {verdict : Verdict}
    (h : lookLoop healthy weighted left cursor = (looks, after, verdict)) :
    Counts cursor looks ∧ after = cursor + BitVec.ofNat w looks.length ∧
      (∀ look ∈ looks, look.length = weighted.length) ∧ (0 < left → looks ≠ []) ∧
      (verdict = .outOfRange → ∃ look ∈ looks, ¬look.Valid) := by
  induction left generalizing cursor looks with
  | zero =>
    cases h
    simp [Counts]
  | succ left ih =>
    rw [lookLoop] at h
    dsimp only at h
    split at h
    · next hnone =>
        cases h
        refine ⟨counts_singleton _ _, by simp, by simp [lookAt], by simp, ?_⟩
        intro _
        refine ⟨_, mem_singleton_self _, ?_⟩
        rintro ⟨hnonneg, hlt⟩
        rw [if_pos hnonneg, getElem?_eq_none_iff] at hnone
        have hlt : (lookAt cursor weighted.length).index < weighted.length := hlt
        omega
    · split at h
      · cases h
        exact ⟨counts_singleton _ _, by simp, by simp [lookAt], by simp, by simp⟩
      · generalize hrest : lookLoop healthy weighted left (cursor + 1) = rest at h
        obtain ⟨looks', rest⟩ := rest
        cases h
        obtain ⟨hcounts, hafter, hlength, -, hpanic⟩ := ih _ hrest
        refine ⟨(counts_singleton cursor _).append (by simpa using hcounts), ?_, ?_, by simp, ?_⟩
        · rw [hafter, BitVec.add_assoc]
          simp [BitVec.ofNat_add, BitVec.add_comm]
        · simpa [lookAt] using hlength
        · intro hverdict
          obtain ⟨look, hmem, hlook⟩ := hpanic hverdict
          exact ⟨look, mem_cons_of_mem _ hmem, hlook⟩

variable {calls : List (List EgressTarget × (EgressTarget → Bool))}

theorem trace_spec (cursor : BitVec w) (hne : ∀ call ∈ calls, call.1 ≠ []) :
    Counts cursor (trace cursor calls) ∧
      (∀ look ∈ trace cursor calls, ∃ call ∈ calls, look.length = call.1.length) ∧
      ((∀ look ∈ trace cursor calls, look.Valid) → calls.length ≤ (trace cursor calls).length) := by
  induction calls generalizing cursor with
  | nil => simp [trace, Counts]
  | cons call calls ih =>
    obtain ⟨weighted, healthy⟩ := call
    obtain ⟨hfirst, hne⟩ := forall_mem_cons.mp hne
    generalize hloop : lookLoop healthy weighted weighted.length cursor = result
    obtain ⟨looks, after, verdict⟩ := result
    obtain ⟨hcounts, rfl, hlength, hsome, hpanic⟩ := lookLoop_spec _ _ _ _ hloop
    have hown : ∀ look ∈ looks, ∃ call ∈ (weighted, healthy) :: calls,
        look.length = call.1.length := fun look hmem =>
      ⟨_, mem_cons_self, hlength look hmem⟩
    by_cases hverdict : verdict = .outOfRange
    · obtain ⟨bad, hmem, hbad⟩ := hpanic hverdict
      subst hverdict
      simp only [trace, hloop]
      exact ⟨hcounts, hown, fun h => absurd (h bad hmem) hbad⟩
    · have htrace : trace cursor ((weighted, healthy) :: calls) =
          looks ++ trace (cursor + BitVec.ofNat w looks.length) calls := by
        rw [trace, hloop]
        cases verdict <;> first | rfl | exact absurd rfl hverdict
      obtain ⟨hrest, hlengths, hmany⟩ := ih (cursor + BitVec.ofNat w looks.length) hne
      rw [htrace]
      refine ⟨hcounts.append hrest, ?_, ?_⟩
      · intro look hlook
        rcases mem_append.mp hlook with hlook | hlook
        · exact hown look hlook
        · obtain ⟨call, hcall, heq⟩ := hlengths look hlook
          exact ⟨call, mem_cons_of_mem _ hcall, heq⟩
      · intro hvalid
        have hone := length_pos_iff.mpr (hsome (length_pos_iff.mpr hfirst))
        have hrest := hmany fun look hlook => hvalid look (mem_append_right _ hlook)
        rw [length_append, length_cons]
        omega

variable {length : Nat}

theorem lookAt_valid_iff (cursor : BitVec w) (hpos : 0 < length) :
    (lookAt cursor length).Valid ↔ 0 ≤ cursor.toInt ∨ (length : Int) ∣ cursor.toInt := by
  have hlt : cursor.toInt.tmod length < length := Int.tmod_lt_of_pos _ (by exact_mod_cast hpos)
  change (0 ≤ cursor.toInt.tmod length ∧ cursor.toInt.tmod length < length) ↔ _
  rw [and_iff_left hlt, Int.dvd_iff_tmod_eq_zero]
  rcases Int.le_total 0 cursor.toInt with hsign | hsign
  · simp [hsign, Int.tmod_nonneg]
  · have hneg := Int.tmod_nonneg (length : Int) (Int.neg_nonneg_of_nonpos hsign)
    rw [Int.neg_tmod] at hneg
    constructor
    · intro h
      exact .inr (by omega)
    · rintro (h | h)
      · simp [le_antisymm hsign h]
      · omega

theorem lookAt_ofNat_valid_iff (hw : 0 < w) (n : Nat) (hpos : 0 < length) :
    (lookAt (BitVec.ofNat w n) length).Valid ↔
      n % 2 ^ w < 2 ^ (w - 1) ∨ length ∣ 2 ^ w - n % 2 ^ w := by
  have hlt : n % 2 ^ w < 2 ^ w := Nat.mod_lt _ (Nat.two_pow_pos w)
  have hhalf := Nat.two_pow_pred_add_two_pow_pred hw
  rw [lookAt_valid_iff _ hpos, BitVec.toInt_eq_toNat_cond, BitVec.toNat_ofNat]
  split
  · exact iff_of_true (.inl (by omega)) (.inl (by omega))
  · have hneg : ((n % 2 ^ w : Nat) : Int) - (2 ^ w : Nat) = -((2 ^ w - n % 2 ^ w : Nat) : Int) := by
      omega
    rw [hneg, Int.dvd_neg, Int.natCast_dvd_natCast]
    exact or_congr_left (iff_of_false (by omega) (by omega))

theorem look_valid_iff (hw : 0 < w) (hne : ∀ call ∈ calls, call.1 ≠ []) {n : Nat} {look : Look}
    (hlook : (trace 0#w calls)[n]? = some look) :
    look.Valid ↔ n % 2 ^ w < 2 ^ (w - 1) ∨ look.length ∣ 2 ^ w - n % 2 ^ w := by
  obtain ⟨hcounts, hlengths, -⟩ := trace_spec 0#w hne
  obtain ⟨call, hcall, hlength⟩ := hlengths look (mem_of_getElem? hlook)
  have hpos : 0 < look.length := hlength ▸ length_pos_iff.mpr (hne call hcall)
  rw [← lookAt_ofNat_valid_iff hw n hpos, ← BitVec.zero_add (BitVec.ofNat w n),
    ← hcounts n look hlook]

/-- **When the index is valid**. -/
theorem index_valid_iff (hw : w = 32 ∨ w = 64)
    {calls : List (List EgressTarget × (EgressTarget → Bool))} (hne : ∀ call ∈ calls, call.1 ≠ []) :
    (∀ look ∈ trace 0#w calls, 0 ≤ look.index ∧ look.index < look.length) ↔
      ∀ n look, (trace 0#w calls)[n]? = some look →
        n % 2 ^ w < 2 ^ (w - 1) ∨ look.length ∣ 2 ^ w - n % 2 ^ w := by
  have hpos : 0 < w := by omega
  constructor
  · intro hvalid n look hlook
    exact (look_valid_iff hpos hne hlook).mp (hvalid look (mem_of_getElem? hlook))
  · intro hcond look hmem
    obtain ⟨n, hlook⟩ := mem_iff_getElem?.mp hmem
    exact (look_valid_iff hpos hne hlook).mpr (hcond n look hlook)

theorem index_valid_iff_first :
    trace 0#64 [(replicate 3 (Engine.weighing "eu" 3), fun _ => true)] = [⟨3, 0⟩] ∧
      ∀ look ∈ trace 0#64 [(replicate 3 (Engine.weighing "eu" 3), fun _ => true)],
        0 ≤ look.index ∧ look.index < look.length := by
  have htrace : trace 0#64 [(replicate 3 (Engine.weighing "eu" 3), fun _ => true)] =
      [⟨3, 0⟩] := by decide
  refine ⟨htrace, (index_valid_iff (.inr rfl) (by decide)).mpr ?_⟩
  intro n look hlook
  rw [htrace] at hlook
  cases n with
  | zero => exact .inl (by decide)
  | succ n => cases hlook

theorem exists_out_of_range (hw : 0 < w) (hodd : ¬3 ∣ 2 ^ w - 2 ^ (w - 1) % 2 ^ w) :
    ∃ calls, (∀ call ∈ calls, call.1 ≠ []) ∧ ∃ look ∈ trace 0#w calls, ¬look.Valid := by
  let call : List EgressTarget × (EgressTarget → Bool) :=
    (replicate 3 (Engine.weighing "eu" 3), fun _ => true)
  let calls := replicate (2 ^ (w - 1) + 1) call
  have hcall : ∀ c ∈ calls, c = call := fun c hc => eq_of_mem_replicate hc
  have hne : ∀ c ∈ calls, c.1 ≠ [] := fun c hc => by simp [hcall c hc, call]
  refine ⟨calls, hne, ?_⟩
  by_contra hall
  have hvalid : ∀ look ∈ trace 0#w calls, look.Valid := by simpa using hall
  obtain ⟨-, hlengths, hmany⟩ := trace_spec 0#w hne
  have hlong : 2 ^ (w - 1) < (trace 0#w calls).length := by
    simpa [calls, Nat.succ_le_iff] using hmany hvalid
  have hlook := getElem?_eq_getElem hlong
  have hmem := mem_of_getElem? hlook
  obtain ⟨c, hc, hlength⟩ := hlengths _ hmem
  rcases (look_valid_iff hw hne hlook).mp (hvalid _ hmem) with hlow | hdvd
  · rw [Nat.mod_eq_of_lt (Nat.pow_lt_pow_right (by omega) (by omega))] at hlow
    exact absurd hlow (lt_irrefl _)
  · rw [hlength, hcall c hc] at hdvd
    exact hodd hdvd

/-- **The cursor wraps**: on 32 and on 64 bits there are runs with an index out of range. -/
theorem index_out_of_range :
    (∃ calls, (∀ call ∈ calls, call.1 ≠ []) ∧
      ∃ look ∈ trace 0#32 calls, ¬(0 ≤ look.index ∧ look.index < look.length)) ∧
    ∃ calls, (∀ call ∈ calls, call.1 ≠ []) ∧
      ∃ look ∈ trace 0#64 calls, ¬(0 ≤ look.index ∧ look.index < look.length) :=
  ⟨exists_out_of_range (by decide) (by decide), exists_out_of_range (by decide) (by decide)⟩

end AwgMesh.Balancer
