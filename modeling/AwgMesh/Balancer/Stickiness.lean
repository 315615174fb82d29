import AwgMesh.Balancer.Engine

/-! # Flows keep their egress -/

namespace AwgMesh.Balancer

open Lib Engine List

namespace Engine

variable {e : Engine} {req : DecisionRequest} {f key : FlowKey} {now clock bound : Time}
  {egress : EgressTarget}

def Leads (e : Engine) (f : FlowKey) (egress : EgressTarget) (bound : Time) : Prop :=
  ∃ entry, e.flowEntries[f.string]? = some entry ∧ entry.egressID = egress.id ∧
    bound ≤ entry.expiresAt

theorem leads_recorded (hkey : req.flowKey.empty = false) (cursor : Nat) :
    (e.moved cursor (e.recorded req.flowKey now egress)).Leads req.flowKey egress
      (now + e.flowIdle) := by
  refine ⟨⟨egress.id, now + e.flowIdle⟩, ?_, rfl, le_rfl⟩
  rw [flowEntries_moved]
  unfold recorded
  simp [hkey]

section

variable (h : e.Leads f egress bound)

include h

theorem Leads.mono {bound' : Time} (hle : bound' ≤ bound) : e.Leads f egress bound' := by
  obtain ⟨entry, hget, hid, hexp⟩ := h
  exact ⟨entry, hget, hid, hle.trans hexp⟩

theorem Leads.stickyEgress (hlt : now < bound) (husable : e.Usable egress)
    (hkey : key.empty = false) (hstring : key.string = f.string) :
    e.stickyEgress key now = some egress := by
  obtain ⟨entry, hget, hid, hexp⟩ := h
  have hlive : now < entry.expiresAt := lt_of_lt_of_le hlt hexp
  have hlookup : e.registry.lookup entry.egressID = some egress :=
    Snapshot.lookup_eq_some.mpr ⟨husable.1, hid.symm⟩
  unfold Engine.stickyEgress
  rw [hkey, hstring, hget]
  simp [hlive, hlookup, husable.2]

theorem Leads.expireFlows (hlt : now < bound) : (e.expireFlows now).Leads f egress bound := by
  obtain ⟨entry, hget, hid, hexp⟩ := h
  refine ⟨entry, ?_, hid, hexp⟩
  rw [getElem?_expireFlows, hget]
  simpa using lt_of_lt_of_le hlt hexp

theorem Leads.recorded (hlt : now < bound) (hne : key.empty = true ∨ key.string ≠ f.string)
    (cursor : Nat) (other : EgressTarget) :
    (e.moved cursor (e.recorded key now other)).Leads f egress bound := by
  obtain ⟨entry, hget, hid, hexp⟩ := h.expireFlows hlt
  refine ⟨entry, ?_, hid, hexp⟩
  rw [flowEntries_moved, Engine.recorded]
  rcases hne with hkey | hstring
  · rw [if_pos hkey, hget]
  · split
    · exact hget
    · rw [OMap.getElem?_insert, if_neg hstring, hget]

theorem Leads.others (hlt : now < bound) (hne : key.empty = true ∨ key.string ≠ f.string)
    (cursor : Nat) :
    (e.moved cursor (e.others key now)).Leads f egress bound := by
  obtain ⟨entry, hget, hid, hexp⟩ := h.expireFlows hlt
  refine ⟨entry, ?_, hid, hexp⟩
  rw [flowEntries_moved, Engine.others]
  rcases hne with hkey | hstring
  · rw [if_pos hkey, hget]
  · split
    · exact hget
    · rw [OMap.getElem?_erase_of_ne _ hstring, hget]

theorem Leads.select (hlt : effective now clock < bound) (husable : e.Usable egress)
    (hbound : bound ≤ effective now clock + e.flowIdle) :
    (e.select req now clock).1.Leads f egress bound := by
  by_cases hsame : req.flowKey.empty = false ∧ req.flowKey.string = f.string
  · obtain ⟨hkey, hstring⟩ := hsame
    obtain ⟨d, -, hselect⟩ := select_of_sticky (h.stickyEgress hlt husable hkey hstring)
    rw [hselect]
    obtain ⟨entry, hget, hid, hexp⟩ := (leads_recorded hkey e.rrCursor).mono hbound
    exact ⟨entry, hstring ▸ hget, hid, hexp⟩
  · have hne : req.flowKey.empty = true ∨ req.flowKey.string ≠ f.string := by
      cases hkey : req.flowKey.empty with
      | true => exact .inl rfl
      | false => exact .inr fun hstring => hsame ⟨hkey, hstring⟩
    have hout := e.select_outcome req now clock
    generalize e.select req now clock = out at hout
    cases hout with
    | sticky => exact h.recorded hlt hne _ _
    | pinned => exact h.recorded hlt hne _ _
    | dumb cursor => exact h.recorded hlt hne _ _
    | failed cursor => exact h.others hlt hne _

theorem Leads.select_self (hlt : effective now clock < bound) (husable : e.Usable egress)
    (hf : f.empty = false) (hreq : req.flowKey = f) :
    (∃ d, (e.select req now clock).2 = .ok d ∧ d.egress = egress) ∧
      (e.select req now clock).1.Leads f egress (effective now clock + e.flowIdle) := by
  subst hreq
  obtain ⟨d, hd, hselect⟩ := select_of_sticky (h.stickyEgress hlt husable hf rfl)
  rw [hselect]
  exact ⟨⟨d, rfl, hd⟩, leads_recorded hf e.rrCursor⟩

end

theorem replace_cases (e : Engine) (egresses : List EgressTarget) :
    ∃ snapshot, e.replace egresses = { e with registry := snapshot } := by
  unfold replace
  cases newSnapshot egresses with
  | error err => exact ⟨e.registry, rfl⟩
  | ok snapshot => exact ⟨snapshot, rfl⟩

theorem flowIdle_perform (e : Engine) (op : Op) : (e.perform op).flowIdle = e.flowIdle := by
  cases op with
  | select req now clock =>
    have hout := e.select_outcome req now clock
    rw [perform]
    generalize e.select req now clock = out at hout
    cases hout <;> exact flowIdle_moved e _ _
  | setHealth egressID healthy checkedAt lastError =>
    rw [perform, setHealth]
  | replace egresses =>
    obtain ⟨snapshot, hreplace⟩ := e.replace_cases egresses
    rw [perform, hreplace]

theorem flowEntries_perform (e : Engine) {op : Op} (h : op.time? = none) :
    (e.perform op).flowEntries = e.flowEntries := by
  cases op with
  | select req now clock => cases h
  | setHealth egressID healthy checkedAt lastError =>
    rw [perform, setHealth]
  | replace egresses =>
    obtain ⟨snapshot, hreplace⟩ := e.replace_cases egresses
    rw [perform, hreplace]

theorem usable_select {x : EgressTarget} : (e.select req now clock).1.Usable x ↔ e.Usable x := by
  have hout := e.select_outcome req now clock
  generalize e.select req now clock = out at hout
  cases hout <;> rw [Usable, registry_moved, isHealthy_moved, Usable]

end Engine

/-! ## Runs -/

def Op.timeOf (f : FlowKey) : Op → Option Time
  | .select req now clock => if req.flowKey = f then some (effective now clock) else none
  | _ => none

variable {f : FlowKey}

theorem Op.timeOf_select {req : DecisionRequest} (h : req.flowKey = f) (now clock : Time) :
    Op.timeOf f (.select req now clock) = some (effective now clock) := if_pos h

/-- The selections of `f` follow each other in less than `idle`. -/
def GapsBelow (f : FlowKey) (idle : Duration) (ops : List Op) : Prop :=
  (ops.filterMap (Op.timeOf f)).IsChain fun earlier later => later - earlier < idle

def SelectsReturn (f : FlowKey) (egress : EgressTarget) (e : Engine) (op : Op) : Prop :=
  ∀ req now clock, op = .select req now clock → req.flowKey = f →
    ∃ d, (e.select req now clock).2 = .ok d ∧ d.egress = egress

variable {e₀ e : Engine} {op : Op} {ops : List Op}

theorem along_balancer_cons {C : Engine → Op → Prop} :
    (balancer e₀).Along C e (op :: ops) ↔ C e op ∧ (balancer e₀).Along C (e.perform op) ops := by
  apply and_congr_right
  intro _
  constructor
  · intro h
    exact h _ rfl
  · intro h t ht
    exact Option.some.inj ht ▸ h

theorem throughout_balancer_cons {I : Engine → Prop} :
    (balancer e₀).Throughout I e (op :: ops) ↔
      I e ∧ (balancer e₀).Throughout I (e.perform op) ops := by
  apply and_congr_right
  intro _
  constructor
  · intro h
    exact h _ rfl
  · intro h t ht
    exact Option.some.inj ht ▸ h

theorem along_selectsReturn {egress : EgressTarget} {idle : Duration}
    (hf : f.empty = false) {prev last : Time} (hidle : e.flowIdle = idle)
    (hlast : last ≤ prev) (hleads : e.Leads f egress (last + idle) ∨ last + idle ≤ prev)
    (htimes : (prev :: ops.filterMap Op.time?).IsChain (· ≤ ·))
    (hgaps : (last :: ops.filterMap (Op.timeOf f)).IsChain fun a b => b - a < idle)
    (hstay : (balancer e₀).Throughout (fun e => e.Usable egress) e ops) :
    (balancer e₀).Along (SelectsReturn f egress) e ops := by
  induction ops generalizing e prev last with
  | nil => trivial
  | cons op ops ih =>
    obtain ⟨husable, hnext⟩ := throughout_balancer_cons.mp hstay
    have hidle' : (e.perform op).flowIdle = idle := (e.flowIdle_perform op).trans hidle
    apply along_balancer_cons.mpr
    cases op with
    | select req now clock =>
      obtain ⟨hascend, htimes⟩ := isChain_cons_cons.mp htimes
      have hprev : prev ≤ effective now clock := hascend
      rw [perform] at hnext hidle' ⊢
      by_cases hreq : req.flowKey = f
      · rw [filterMap_cons_some (Op.timeOf_select hreq now clock)] at hgaps
        obtain ⟨hbelow, hgaps⟩ := isChain_cons_cons.mp hgaps
        have hgap : effective now clock - last < idle := hbelow
        have hlt : effective now clock < last + idle := Int.lt_add_of_sub_left_lt hgap
        have hlead : e.Leads f egress (last + idle) :=
          hleads.resolve_right (not_le.mpr (hprev.trans_lt hlt))
        obtain ⟨hreturn, hlead'⟩ := hlead.select_self hlt husable hf hreq
        rw [hidle] at hlead'
        refine ⟨?_, ih hidle' le_rfl (.inl hlead') htimes hgaps hnext⟩
        rintro _ _ _ ⟨⟩ -
        exact hreturn
      · rw [filterMap_cons_none (by simp [Op.timeOf, hreq])] at hgaps
        have hleads' : (e.select req now clock).1.Leads f egress (last + idle) ∨
            last + idle ≤ effective now clock := by
          by_cases hlt : effective now clock < last + idle
          · have hlead : e.Leads f egress (last + idle) :=
              hleads.resolve_right (not_le.mpr (hprev.trans_lt hlt))
            have hbound : last + idle ≤ effective now clock + e.flowIdle :=
              Int.add_le_add (hlast.trans hprev) hidle.ge
            exact .inl (hlead.select hlt husable hbound)
          · exact .inr (not_lt.mp hlt)
        refine ⟨?_, ih hidle' (hlast.trans hprev) hleads' htimes hgaps hnext⟩
        rintro _ _ _ ⟨⟩ hf'
        exact absurd hf' hreq
    | setHealth egressID healthy checkedAt lastError =>
      refine ⟨by rintro _ _ _ ⟨⟩, ih hidle' hlast ?_ htimes hgaps hnext⟩
      rwa [Leads, e.flowEntries_perform rfl]
    | replace egresses =>
      refine ⟨by rintro _ _ _ ⟨⟩, ih hidle' hlast ?_ htimes hgaps hnext⟩
      rwa [Leads, e.flowEntries_perform rfl]

/-- **Flows keep their egress.** -/
theorem flow_keeps_egress {e : Engine} {req : DecisionRequest} {now clock : Time} {d : Decision}
    {ops : List Op} (hkey : req.flowKey.empty = false) (hfirst : (e.select req now clock).2 = .ok d)
    (htimes : TimesAscend (.select req now clock :: ops))
    (hgaps : GapsBelow req.flowKey e.flowIdle (.select req now clock :: ops))
    (hstay : (balancer e).Throughout (fun s => s.Usable d.egress) (e.select req now clock).1 ops) :
    (balancer e).Along (SelectsReturn req.flowKey d.egress) (e.select req now clock).1 ops := by
  have hleads : (e.select req now clock).1.Leads req.flowKey d.egress
      (effective now clock + e.flowIdle) := by
    have hout := e.select_outcome req now clock
    generalize e.select req now clock = out at hout hfirst
    cases hout with
    | sticky hsticky hd => cases hfirst; exact hd ▸ leads_recorded hkey _
    | pinned hsticky hpinned hd => cases hfirst; exact hd ▸ leads_recorded hkey _
    | dumb cursor hsticky hpinned hscan hd => cases hfirst; exact hd ▸ leads_recorded hkey _
    | failed => cases hfirst
  have hgaps' : (effective now clock :: ops.filterMap (Op.timeOf req.flowKey)).IsChain
      fun a b => b - a < e.flowIdle := by
    unfold GapsBelow at hgaps
    rwa [filterMap_cons_some (Op.timeOf_select rfl now clock)] at hgaps
  have hidle : (e.select req now clock).1.flowIdle = e.flowIdle := by
    have hperform := e.flowIdle_perform (.select req now clock)
    rwa [perform] at hperform
  exact along_selectsReturn hkey hidle le_rfl (.inl hleads) htimes hgaps' hstay

/-- Two flows taking turns. -/
theorem flow_keeps_egress_alternating :
    ∃ e d, newEngine (twoEgresses .dumb) = .ok e ∧ (e.select labelledFlow 10 10).2 = .ok d ∧
      (balancer e).Along (SelectsReturn labelledFlow.flowKey d.egress)
        (e.select labelledFlow 10 10).1
        [.select { flowKey := { source := "other" } } 11 11, .select labelledFlow 12 12] := by
  have hrun : ((newEngine (twoEgresses .dumb)).toOption.bind fun e =>
      (e.select labelledFlow 10 10).2.toOption.map fun _ => e.flowIdle) =
        some 30000000000 := by decide
  obtain ⟨e, hnew, hrest⟩ := Option.bind_eq_some_iff.mp hrun
  obtain ⟨d, hd, hidle⟩ := Option.map_eq_some_iff.mp hrest
  have hfirst := eq_ok_of_toOption hd
  have husable : e.Usable d.egress := usable_of_select hfirst
  refine ⟨e, d, eq_ok_of_toOption hnew, hfirst, flow_keeps_egress rfl hfirst ?_ ?_ ?_⟩
  · show IsChain (· ≤ ·) [10, 11, 12]
    simp
  · show IsChain (fun a b => b - a < e.flowIdle) [10, 12]
    simp [hidle]
  · refine throughout_balancer_cons.mpr ⟨usable_select.mpr husable, ?_⟩
    refine throughout_balancer_cons.mpr ⟨usable_select.mpr ?_, ?_⟩
    · exact usable_select.mpr husable
    · exact usable_select.mpr (usable_select.mpr (usable_select.mpr husable))

/-- **The empty key is nobody's flow**. -/
theorem empty_key_alternates :
    ∃ cfg e req now clock d ops, newEngine cfg = .ok e ∧ (e.select req now clock).2 = .ok d ∧
      TimesAscend (.select req now clock :: ops) ∧
      GapsBelow req.flowKey e.flowIdle (.select req now clock :: ops) ∧
      (balancer e).Throughout (fun s => s.Usable d.egress) (e.select req now clock).1 ops ∧
      ¬ (balancer e).Along (SelectsReturn req.flowKey d.egress) (e.select req now clock).1 ops := by
  have hrun : ((newEngine (twoEgresses .dumb)).toOption.bind fun e =>
      (e.select {} 10 10).2.toOption.map fun d =>
        (e.flowIdle, d.egress.id, ((e.select {} 10 10).1.select {} 11 11).2.toOption.map fun d =>
          d.egress.id)) = some (30000000000, "egress-ru", some "egress-eu") := by decide
  obtain ⟨e, hnew, hrest⟩ := Option.bind_eq_some_iff.mp hrun
  obtain ⟨d, hd, heq⟩ := Option.map_eq_some_iff.mp hrest
  obtain ⟨hidle, hid, hother⟩ : _ ∧ _ ∧ _ := by simpa only [Prod.mk.injEq] using heq
  have hfirst := eq_ok_of_toOption hd
  have husable : e.Usable d.egress := usable_of_select hfirst
  refine ⟨_, e, {}, 10, 10, d, [.select {} 11 11], eq_ok_of_toOption hnew, hfirst, ?_, ?_, ?_, ?_⟩
  · show IsChain (· ≤ ·) [10, 11]
    simp
  · show IsChain (fun a b => b - a < e.flowIdle) [10, 11]
    simp [hidle]
  · refine throughout_balancer_cons.mpr ⟨usable_select.mpr husable, ?_⟩
    exact usable_select.mpr (usable_select.mpr husable)
  · intro h
    obtain ⟨d', hd', heg⟩ := (along_balancer_cons.mp h).1 {} 11 11 rfl rfl
    rw [hd'] at hother
    have hid' : d'.egress.id = "egress-eu" := Option.some.inj hother
    rw [heg, hid] at hid'
    revert hid'
    decide

end AwgMesh.Balancer
