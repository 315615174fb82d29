import AwgMesh.MeshCtl.IPRange

/-! # Range commands and the nodes of a range -/

namespace AwgMesh.MeshCtl.IPRange

open Lib Net TopologyV1 List

def nodeAddrs (t : Topology) : List Addr := (nodes t).filterMap fun n => parseAddr n.2.2

def inRanges (ranges : List NamedRange) (ip : Addr) : Bool :=
  ranges.any fun nr => (parseRange nr).toOption.any fun r => r.contains (some ip)

def rangesNamed (t : Topology) (name : String) : List NamedRange :=
  t.overlay.ranges.filter fun nr => nr.name = name

/-- Every node that was in a range is in one again. -/
def KeepsCover (read : Addr → Addr) (t t' : Topology) : Prop :=
  ∀ ip ∈ nodeAddrs t,
    inRanges t.overlay.ranges (read ip) = true → inRanges t'.overlay.ranges (read ip) = true

/-- The nodes of the range are in the new CIDR. -/
def ResizeKeeps (read : Addr → Addr) (t : Topology) : Command → Prop
  | .resize name cidr => ∀ ip ∈ nodeAddrs t,
      inRanges (rangesNamed t name) (read ip) = true → (parsePrefix cidr).any (·.contains (read ip))
  | _ => True

/-- What `delete` does not see. -/
def DeleteSees (t : Topology) : Command → Prop
  | .delete name => ∀ ip ∈ nodeAddrs t,
      ip.is4In6 = true → inRanges (rangesNamed t name) (normalizeAddr ip) = false
  | _ => True

instance (read : Addr → Addr) (t t' : Topology) : Decidable (KeepsCover read t t') :=
  inferInstanceAs (Decidable (∀ ip ∈ _, _))

instance (read : Addr → Addr) (t : Topology) : DecidablePred (ResizeKeeps read t)
  | .resize .. => inferInstanceAs (Decidable (∀ ip ∈ _, _))
  | .add .. | .rename .. | .delete .. | .setBalancer .. => isTrue trivial

section

variable {t t' : Topology} {taken given rest : List NamedRange} {nr : NamedRange} {r : Range}
  {ip : Addr}

/-! ## Addresses in ranges -/

theorem inRanges_iff {ranges : List NamedRange} :
    inRanges ranges ip = true ↔
      ∃ nr ∈ ranges, ∃ r, parseRange nr = .ok r ∧ r.contains (some ip) = true := by
  unfold inRanges
  rw [any_eq_true]
  refine exists_congr fun nr => and_congr_right fun _ => ?_
  cases parseRange nr <;> simp [Except.toOption]

theorem inRanges_perm {ranges ranges' : List NamedRange} (h : ranges.Perm ranges') :
    inRanges ranges ip = inRanges ranges' ip := by
  rw [Bool.eq_iff_iff, inRanges_iff, inRanges_iff]
  exact exists_congr fun nr => and_congr_left' h.mem_iff

theorem inRanges_append : inRanges (taken ++ rest) ip = (inRanges taken ip || inRanges rest ip) :=
  any_append

theorem inRanges_singleton (hr : parseRange nr = .ok r) :
    inRanges [nr] ip = r.contains (some ip) := by
  simp [inRanges, hr, Except.toOption]

theorem not_inRanges_of_apart (hr : parseRange nr = .ok r) (hin : r.contains (some ip) = true)
    (h : ∀ other ∈ rest, Apart nr other) : inRanges rest ip = false := by
  by_contra hrest
  obtain ⟨other, hother, ro, hro, hino⟩ := inRanges_iff.mp (Bool.of_not_eq_false hrest)
  have hapart : rangesOverlap r ro = false := h other hother r ro hr hro
  have hover : rangesOverlap r ro = true :=
    Bool.or_eq_true_iff.mpr (Prefix.contains_masked_of_mem hin hino)
  rw [hapart] at hover
  cases hover

/-! ## Edits -/

theorem Edit.keepsCover_iff (h : Edit t t' taken given rest) (hdisjoint : ∀ ip,
      inRanges taken ip = true → inRanges rest ip = false) (read : Addr → Addr) :
    KeepsCover read t t' ↔ ∀ ip ∈ nodeAddrs t,
      inRanges taken (read ip) = true → inRanges given (read ip) = true := by
  obtain ⟨ranges, rfl, hperm⟩ := h.after
  refine forall₂_congr fun ip _ => ?_
  change (inRanges t.overlay.ranges (read ip) = true → inRanges ranges (read ip) = true) ↔ _
  rw [inRanges_perm h.before, inRanges_perm hperm, inRanges_append, inRanges_append]
  cases htaken : inRanges taken (read ip) with
  | false => simp +contextual
  | true => simp [hdisjoint _ htaken]

theorem Edit.taken_spec (h : Edit t t' [nr] given rest) (ht : Valid t) :
    ∃ r, parseRange nr = .ok r ∧ rangesNamed t nr.name = [nr] ∧
      ∀ ip, inRanges [nr] ip = true → inRanges rest ip = false := by
  obtain ⟨⟨space, hspace, -⟩, -⟩ := errorFree_validateTopology.mp ht
  obtain ⟨⟨r, hr, -⟩, hothers, -⟩ := Laid.cons_iff.mp (h.laid hspace ht)
  refine ⟨r, hr, ?_, ?_⟩
  · have hnone : rest.filter (fun other => decide (other.name = nr.name)) = [] :=
      filter_eq_nil_iff.mpr fun other hother => by simp [(hothers other hother).1]
    have hperm := h.before.filter fun other => decide (other.name = nr.name)
    rw [filter_append, hnone, append_nil, filter_cons_of_pos (by simp)] at hperm
    exact perm_singleton.mp hperm
  · intro ip hin
    rw [inRanges_singleton hr] at hin
    exact not_inRanges_of_apart hr hin fun other hother => (hothers other hother).2

theorem Edit.keepsCover_of_network {nr' : NamedRange} {r' : Range}
    (h : Edit t t' [nr] [nr'] rest) (ht : Valid t) (hr' : parseRange nr' = .ok r')
    (hcidr : nr'.cidr = nr.cidr) (read : Addr → Addr) : KeepsCover read t t' := by
  obtain ⟨r, hr, -, hdisjoint⟩ := h.taken_spec ht
  rw [h.keepsCover_iff hdisjoint]
  intro ip _ hin
  rw [inRanges_singleton hr] at hin
  rw [inRanges_singleton hr']
  unfold Range.contains at hin ⊢
  rw [network_eq_of_cidr_eq hr' hr hcidr]
  exact hin

/-! ## One command -/

theorem keepsCover_run_iff {cmd : Command} (ht : Valid t) (h : cmd.run t = .ok t')
    (read : Addr → Addr) :
    KeepsCover read t t' ↔ ResizeKeeps read t cmd ∧ ∀ name, cmd = .delete name → ∀ ip ∈ nodeAddrs t,
        inRanges (rangesNamed t name) (read ip) = false := by
  cases cmd with
  | add name cidr balancerIP =>
    obtain ⟨r, -, hedit, -⟩ := add_ok h
    refine iff_of_true ?_ ⟨trivial, nofun⟩
    rw [hedit.keepsCover_iff nofun]
    exact fun _ _ => nofun
  | resize name cidr =>
    obtain ⟨nr, rest, r, rfl, hedit, hr, -⟩ := resize_ok h
    obtain ⟨-, -, hnamed, hdisjoint⟩ := hedit.taken_spec ht
    rw [hedit.keepsCover_iff hdisjoint, and_iff_left nofun]
    obtain ⟨⟨network, hp, hn⟩, -⟩ := parseRange_ok hr
    simp only [ResizeKeeps, hnamed, hp, Option.any_some]
    refine forall₂_congr fun ip _ => imp_congr_right fun _ => ?_
    rw [inRanges_singleton hr, Range.contains, hn, Prefix.contains_masked]
  | rename name newName =>
    obtain ⟨nr, rest, rfl, hedit, -⟩ := rename_ok h
    obtain ⟨r, hr, -⟩ := hedit.taken_spec ht
    exact iff_of_true (hedit.keepsCover_of_network ht (parseRange_name hr newName) rfl read)
      ⟨trivial, nofun⟩
  | delete name =>
    obtain ⟨nr, rest, r, rfl, hedit, -⟩ := delete_ok h
    obtain ⟨-, -, hnamed, hdisjoint⟩ := hedit.taken_spec ht
    rw [hedit.keepsCover_iff hdisjoint]
    constructor
    · intro hkeep
      refine ⟨trivial, fun name' heq ip hip => ?_⟩
      cases heq
      rw [hnamed]
      exact Bool.eq_false_iff.mpr fun hin => Bool.noConfusion (hkeep ip hip hin)
    · rintro ⟨-, hnone⟩ ip hip hin
      rw [← hnamed, hnone nr.name rfl ip hip] at hin
      cases hin
  | setBalancer name balancerIP =>
    obtain ⟨nr, rest, r, bip, rfl, hedit, hne, hr, hbip, -⟩ := setBalancer_ok h
    exact iff_of_true
      (hedit.keepsCover_of_network ht (parseRange_balancer hr hne hbip) rfl read)
      ⟨trivial, nofun⟩

theorem not_inRanges_of_delete {name : String} (ht : Valid t) (h : delete t name = .ok t')
    (hip : ip ∈ nodeAddrs t) : inRanges (rangesNamed t name) ip = false := by
  obtain ⟨nr, rest, r, rfl, hedit, hr, hnodes⟩ := delete_ok h
  obtain ⟨-, -, hnamed, -⟩ := hedit.taken_spec ht
  obtain ⟨n, hn, hparse⟩ := mem_filterMap.mp hip
  rw [hnamed, inRanges_singleton hr]
  exact hnodes n hn ip hparse

end

/-- **Nodes and their ranges** over a successful command. -/
theorem node_ranges_kept_iff (t t' : Topology) (cmd : Command) (ht : Valid t)
    (h : cmd.run t = .ok t') :
    (KeepsCover id t t' ↔ ResizeKeeps id t cmd) ∧
      (KeepsCover normalizeAddr t t' ↔ ResizeKeeps normalizeAddr t cmd ∧ DeleteSees t cmd) := by
  constructor
  · rw [keepsCover_run_iff ht h, and_iff_left]
    rintro name rfl ip hip
    exact not_inRanges_of_delete ht h hip
  · rw [keepsCover_run_iff ht h]
    refine and_congr_right fun _ => ?_
    cases cmd with
    | delete name =>
      constructor
      · exact fun hnone ip hip _ => hnone name rfl ip hip
      · intro hsees name' heq ip hip
        cases heq
        cases hm : ip.is4In6 with
        | true => exact hsees ip hip hm
        | false =>
          have hsame : normalizeAddr ip = ip := by simp [normalizeAddr, hm]
          rw [hsame]
          exact not_inRanges_of_delete ht h hip
    | add name cidr balancerIP => exact iff_of_true (fun _ heq => Command.noConfusion heq) trivial
    | resize name cidr => exact iff_of_true (fun _ heq => Command.noConfusion heq) trivial
    | rename name newName => exact iff_of_true (fun _ heq => Command.noConfusion heq) trivial
    | setBalancer name balancerIP =>
      exact iff_of_true (fun _ heq => Command.noConfusion heq) trivial

/-- The range of the home mesh can grow without losing the master. -/
theorem node_ranges_kept_grown :
    KeepsCover id homeMesh (withRanges homeMesh [{ name := "lan", cidr := "10.0.0.0/14" }]) :=
  (node_ranges_kept_iff homeMesh _ (.resize "lan" "10.0.0.0/14") (by decide) (by rfl)).1.mpr
    (by decide)

/-- It can also be moved away from the master. -/
theorem resize_leaves_node :
    Valid homeMesh ∧ ∃ t', (Command.resize "lan" "10.2.0.0/16").run homeMesh = .ok t' ∧ Valid t' ∧
      ¬ KeepsCover id homeMesh t' := by
  refine ⟨by decide, withRanges homeMesh [{ name := "lan", cidr := "10.2.0.0/16" }], by rfl,
    by decide, by decide⟩

end AwgMesh.MeshCtl.IPRange
