import AwgMesh.Lib.Sorting
import AwgMesh.MeshCtl.NodeDir
import Mathlib.Data.Prod.Lex
import Mathlib.Data.String.Basic

/-! # The plan of a mesh upgrade: `buildMeshUpgradePlan` of `cmd/mesh-ctl/cmd/upgrade.go` -/

namespace AwgMesh.MeshCtl.UpgradePlan

open SchemaV2 Lib Lib.Checks List

structure Entry where
  phase : Nat
  phaseName : String
  nodeName : String
  roles : List String
  targetVersion : String
  parallel : Bool
  status : String

inductive PlanError where
  | topologyRequired
  | notPresent (name : String)
  | moreThanOnce (name : String)

def roleStrings (n : NodeV2) : List String := n.roles.map Role.text

def makeUpgradePlanEntry (phase : Nat) (phaseName : String) (version : String) (parallel : Bool)
    (n : NodeV2) : Entry :=
  ⟨phase, phaseName, n.name, roleStrings n, version, parallel, "planned"⟩

/-- The map `nodeByName`: of two nodes of one name the later one is in it. -/
def nodeByName (nodes : List NodeV2) (name : String) : Option NodeV2 :=
  nodes.reverse.find? (·.name = name)

def manualEntries (nodes : List NodeV2) (version : String) :
    (i : Nat) → (seen : List String) → List String → Except PlanError (List Entry)
  | _, _, [] => .ok []
  | i, seen, name :: rest => do
    let node ← require (nodeByName nodes name) (.notPresent name)
    refuseIf (name ∈ seen) (.moreThanOnce name)
    let entries ← manualEntries nodes version (i + 1) (name :: seen) rest
    return makeUpgradePlanEntry (i + 1) "manual" version false node :: entries

inductive Phase where
  | masters
  | meshRoles
  | clients
  deriving DecidableEq

def Phase.number : Phase → Nat
  | .masters => 1
  | .meshRoles => 2
  | .clients => 3

def Phase.name : Phase → String
  | .masters => "masters"
  | .meshRoles => "mesh-roles"
  | .clients => "clients"

def phaseOf (n : NodeV2) : Phase :=
  if .master ∈ n.roles then .masters else if .client ∈ n.roles then .clients else .meshRoles

def phaseEntry (version : String) (n : NodeV2) : Entry :=
  makeUpgradePlanEntry (phaseOf n).number (phaseOf n).name version (phaseOf n != .masters) n

/-- The three loops over the sorted nodes. -/
def automaticEntries (version : String) (sorted : List NodeV2) : List Entry :=
  [Phase.masters, .meshRoles, .clients].flatMap fun phase =>
    (sorted.filter (phaseOf · = phase)).map (phaseEntry version)

def buildMeshUpgradePlan (sorter : Sorter NodeV2.name) (topo : Option TopologyV2)
    (version : String) (manualOrder : List String) : Except PlanError (List Entry) := do
  let topo ← require topo .topologyRequired
  if manualOrder ≠ [] then manualEntries topo.nodes version 0 [] manualOrder
  else return automaticEntries version (sorter.sort topo.nodes)

/-! ## What a plan should be -/

/-- Each node once, with its own roles: masters in phase 1, clients in phase 3, the others in phase
2, and by name inside a phase. -/
structure Arranged (version : String) (nodes : List NodeV2) (plan : List Entry) : Prop where
  perm : (plan.map fun e => (e.nodeName, e.roles)).Perm
    (nodes.map fun n => (n.name, roleStrings n))
  phases : ∀ e ∈ plan, e.targetVersion = version ∧ ∃ n ∈ nodes, e.nodeName = n.name ∧
    e.phase = if .master ∈ n.roles then 1 else if .client ∈ n.roles then 3 else 2
  ordered : plan.Pairwise fun a b => toLex (a.phase, a.nodeName) ≤ toLex (b.phase, b.nodeName)

/-- The nodes of an order, in that order and with their own roles. -/
structure Follows (nodes : List NodeV2) (order : List String) (plan : List Entry) : Prop where
  names : plan.map Entry.nodeName = order
  roles : ∀ e ∈ plan, ∀ n ∈ nodes, n.name = e.nodeName → e.roles = roleStrings n

/-- A plan for every topology and every order, which depends on neither the sorting procedure nor
the order of declaration. -/
structure Faithful (t : TopologyV2) : Prop where
  automatic : ∀ sorter version, ∃ plan,
    buildMeshUpgradePlan sorter (some t) version [] = .ok plan ∧ Arranged version t.nodes plan
  rearranged : ∀ sorter sorter' version nodes, nodes.Perm t.nodes →
    buildMeshUpgradePlan sorter' (some { t with nodes }) version [] =
      buildMeshUpgradePlan sorter (some t) version []
  manual : ∀ sorter version order, order ≠ [] → order.Nodup →
    (∀ name ∈ order, ∃ n ∈ t.nodes, n.name = name) → ∃ plan,
      buildMeshUpgradePlan sorter (some t) version order = .ok plan ∧ Follows t.nodes order plan

/-- Nodes of one name have the same roles. -/
def NamesakesAlike (nodes : List NodeV2) : Prop :=
  ∀ a ∈ nodes, ∀ b ∈ nodes, a.name = b.name → roleStrings a = roleStrings b

variable {nodes : List NodeV2} {version : String}

/-! ## Without an order -/

theorem perm_automaticEntries (l : List NodeV2) :
    (automaticEntries version l).Perm (l.map (phaseEntry version)) := by
  unfold automaticEntries
  rw [← map_flatMap]
  refine Perm.map _ ?_
  induction l with
  | nil => exact .nil
  | cons n l ih =>
    simp only [flatMap_cons, flatMap_nil, append_nil] at ih ⊢
    have hcons := ih.cons n
    cases hn : phaseOf n with
    | masters => simpa [hn] using hcons
    | meshRoles => simpa [hn] using perm_middle.trans hcons
    | clients =>
      simp only [filter_cons, hn, ← append_assoc] at hcons ⊢
      exact perm_middle.trans hcons

section

variable (sorter : Sorter NodeV2.name) (version : String) (nodes : List NodeV2)

theorem perm_sorted : (automaticEntries version (sorter.sort nodes)).Perm
    (nodes.map (phaseEntry version)) :=
  (perm_automaticEntries _).trans ((sorter.perm nodes).map _)

theorem ordered_sorted : (automaticEntries version (sorter.sort nodes)).Pairwise fun a b =>
    toLex (a.phase, a.nodeName) ≤ toLex (b.phase, b.nodeName) := by
  simp only [automaticEntries, pairwise_flatMap, pairwise_map, forall_mem_map,
    mem_filter, decide_eq_true_eq]
  constructor
  · intro phase _
    refine ((sorter.ordered nodes).filter _).imp_of_mem ?_
    intro a b ha hb hab
    simp only [mem_filter, decide_eq_true_eq] at ha hb
    refine Prod.Lex.toLex_le_toLex.mpr (.inr ⟨?_, hab⟩)
    simp only [phaseEntry, makeUpgradePlanEntry, ha, hb]
  · have hphases : [Phase.masters, .meshRoles, .clients].Pairwise (·.number < ·.number) := by
      decide
    refine hphases.imp ?_
    rintro p q hpq a ⟨-, rfl⟩ b ⟨-, rfl⟩
    exact Prod.Lex.toLex_le_toLex.mpr (.inl hpq)

theorem number_phaseOf (n : NodeV2) : (phaseOf n).number =
    if .master ∈ n.roles then 1 else if .client ∈ n.roles then 3 else 2 := by
  unfold phaseOf
  split_ifs <;> rfl

theorem arranged_sorted :
    Arranged version nodes (automaticEntries version (sorter.sort nodes)) := by
  have hperm := perm_sorted sorter version nodes
  refine ⟨?_, ?_, ordered_sorted sorter version nodes⟩
  · have hmap := hperm.map fun e => (e.nodeName, e.roles)
    rwa [map_map] at hmap
  · intro e he
    obtain ⟨n, hn, rfl⟩ := mem_map.mp (hperm.mem_iff.mp he)
    exact ⟨rfl, n, hn, rfl, number_phaseOf n⟩

end

theorem phaseEntry_congr {a b : NodeV2} (hname : a.name = b.name)
    (hroles : roleStrings a = roleStrings b) (h : (phaseOf a).number = (phaseOf b).number) :
    phaseEntry version a = phaseEntry version b := by
  have hphase : phaseOf a = phaseOf b := by
    cases ha : phaseOf a <;> cases hb : phaseOf b <;> rw [ha, hb] at h <;> first | rfl | cases h
  simp only [phaseEntry, makeUpgradePlanEntry, hname, hroles, hphase]

theorem sorted_unique (halike : NamesakesAlike nodes) {nodes' : List NodeV2}
    (hperm : nodes'.Perm nodes) (sorter sorter' : Sorter NodeV2.name) (version : String) :
    automaticEntries version (sorter'.sort nodes') =
      automaticEntries version (sorter.sort nodes) := by
  have h := perm_sorted sorter version nodes
  have h' := perm_sorted sorter' version nodes'
  refine Perm.eq_of_pairwise ?_ (ordered_sorted sorter' version nodes')
    (ordered_sorted sorter version nodes) (h'.trans ((hperm.map _).trans h.symm))
  intro x y hx hy hxy hyx
  obtain ⟨a, ha, rfl⟩ := mem_map.mp (h'.mem_iff.mp hx)
  obtain ⟨b, hb, rfl⟩ := mem_map.mp (h.mem_iff.mp hy)
  obtain ⟨hnumber, hname⟩ := Prod.mk.inj (toLex.injective (le_antisymm hxy hyx))
  exact phaseEntry_congr hname (halike a (hperm.mem_iff.mp ha) b hb hname) hnumber

/-! ## With an order -/

theorem exists_nodeByName {name : String} (h : ∃ n ∈ nodes, n.name = name) :
    ∃ n ∈ nodes, n.name = name ∧ nodeByName nodes name = some n := by
  obtain ⟨m, hm, hname⟩ := h
  have hsome : (nodeByName nodes name).isSome :=
    find?_isSome.mpr ⟨m, mem_reverse.mpr hm, decide_eq_true hname⟩
  obtain ⟨n, hn⟩ := Option.isSome_iff_exists.mp hsome
  have hfound := find?_some hn
  exact ⟨n, mem_reverse.mp (mem_of_find?_eq_some hn), of_decide_eq_true hfound, hn⟩

theorem exists_manualEntries (halike : NamesakesAlike nodes) (version : String)
    {order seen : List String} (i : Nat) (hnodup : order.Nodup) (hseen : order.Disjoint seen)
    (hdeclared : ∀ name ∈ order, ∃ n ∈ nodes, n.name = name) :
    ∃ plan, manualEntries nodes version i seen order = .ok plan ∧ Follows nodes order plan := by
  induction order generalizing i seen with
  | nil => exact ⟨[], rfl, rfl, nofun⟩
  | cons name rest ih =>
    rw [nodup_cons] at hnodup
    rw [disjoint_cons_left] at hseen
    rw [forall_mem_cons] at hdeclared
    obtain ⟨plan, hplan, hnames, hroles⟩ := ih (i + 1) hnodup.2
      (disjoint_cons_right.mpr ⟨hnodup.1, hseen.2⟩) hdeclared.2
    obtain ⟨n, hn, rfl, hfound⟩ := exists_nodeByName hdeclared.1
    refine ⟨makeUpgradePlanEntry (i + 1) "manual" version false n :: plan, ?_, ?_, ?_⟩
    · rw [manualEntries, hfound]
      simp [require, refuseIf, hseen.1, hplan]
    · exact congrArg (n.name :: ·) hnames
    · exact forall_mem_cons.mpr ⟨fun m hm hname => halike n hn m hm hname.symm, hroles⟩

theorem Faithful.namesakesAlike {t : TopologyV2} (h : Faithful t) : NamesakesAlike t.nodes := by
  intro a ha b hb hname
  obtain ⟨plan, -, hnames, hroles⟩ := h.manual (Sorter.stable _) "" [a.name]
    (cons_ne_nil _ _) (nodup_singleton _) (by simpa using ⟨a, ha, rfl⟩)
  obtain ⟨e, rfl, he⟩ := map_eq_singleton_iff.mp hnames
  rw [← hroles e mem_cons_self a ha he.symm]
  exact hroles e mem_cons_self b hb (hname.symm.trans he.symm)

theorem faithful_iff (t : TopologyV2) : Faithful t ↔ NamesakesAlike t.nodes := by
  refine ⟨Faithful.namesakesAlike, fun halike =>
    ⟨fun sorter version => ⟨_, rfl, arranged_sorted sorter version _⟩, ?_, ?_⟩⟩
  · intro sorter sorter' version nodes hperm
    exact congrArg Except.ok (sorted_unique halike hperm sorter sorter' version)
  · intro sorter version order hne hnodup hdeclared
    obtain ⟨plan, hplan, hfollows⟩ := exists_manualEntries halike version 0 hnodup
      (disjoint_nil_right order) hdeclared
    exact ⟨plan, (if_pos hne).trans hplan, hfollows⟩

/-- **Accepted namesakes.** An order can name only the second. -/
theorem namesakes_not_faithful : validateV2 namesakes = .ok () ∧ ¬ Faithful namesakes := by
  refine ⟨by decide, fun h => ?_⟩
  have halike := h.namesakesAlike
  rw [NamesakesAlike] at halike
  exact absurd halike (by decide)

end AwgMesh.MeshCtl.UpgradePlan
