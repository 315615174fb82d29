import AwgMesh.PathText
import AwgMesh.Topology.V2
import Mathlib.Data.List.Nodup

/-!
# Looking up a node and its directory

`findTopologyNode` and `safeNodeConfigDir` of `cmd/mesh-ctl/cmd/node.go`.
-/

namespace AwgMesh.MeshCtl

open Lib.Checks PathText SchemaV2 List
open ByteText (utf8 utf8_injective)

/-! ## The functions -/

inductive NodeNameError where
  | nameRequired
  | topologyRequired
  | notDeclared (trimmed : String)
  | notSegment (name : String)
  | outside (name : String)
  deriving DecidableEq

def findTopologyNode (topo : Option TopologyV2) (name : String) : Except NodeNameError NodeV2 := do
  let trimmed := trimSpace name
  refuseIf (trimmed = "") .nameRequired
  let topo ← require topo .topologyRequired
  require (topo.nodes.find? fun node => node.name = trimmed) (.notDeclared trimmed)

def nodesDir (configDir : Bytes) : Bytes := clean (joinText configDir (utf8 "nodes"))

def safeNodeConfigDir (configDir : Bytes) (name : String) : Except NodeNameError Bytes := do
  let trimmed := trimSpace name
  refuseIf (trimmed = "") .nameRequired
  refuseIf (utf8 trimmed = dot ∨ utf8 trimmed = dotdot ∨ slash ∈ utf8 trimmed ∨
    backslash ∈ utf8 trimmed) (.notSegment name)
  let root := nodesDir configDir
  let dir := clean (joinText root (utf8 trimmed))
  let rel ← require (relText root dir) (.outside name)
  refuseIf (rel = dot ∨ dotdot.isPrefixOf rel = true ∨ isAbs rel = true) (.outside name)
  pure dir

/-! ## Directories -/

theorem nodesDir_eq_render (configDir : Bytes) :
    ∃ rooted st, nodesDir configDir = render rooted st ∧ Clean rooted st ∧ st ≠ [] := by
  have hnodes : IsName (utf8 "nodes") := by decide
  -- the last element stays, whatever is before it
  have hstack : ∃ p, joinText configDir (utf8 "nodes") = clean p ∧ stack p ≠ [] := by
    unfold joinText
    split
    · refine ⟨_, rfl, ?_⟩
      have hsplit := ByteText.splitByte_append_sep slash configDir (utf8 "nodes")
      rw [ByteText.splitByte_of_notMem hnodes.2.2.2] at hsplit
      rw [stack, split, hsplit, foldl_append]
      exact cons_ne_nil _ _
    · exact ⟨utf8 "nodes", rfl, by decide⟩
  obtain ⟨p, hjoin, hne⟩ := hstack
  refine ⟨isAbs p, stack p, ?_, clean_stack p, hne⟩
  rw [nodesDir, hjoin, clean_eq_render p, (clean_stack p).clean_render hne]

theorem clean_join_child {rooted : Bool} {st : List Bytes} (h : Clean rooted st) (hne : st ≠ [])
    {b : Bytes} (hb : IsName b) :
    clean (joinText (render rooted st) b) = render rooted (b :: st) := by
  have hchild : Clean rooted (b :: st) := Clean.name hb h
  have hroot : render rooted st ≠ [] := by
    intro hnil
    have hstack := h.stack_render hne
    rw [hnil] at hstack
    exact hne hstack.symm
  rw [joinText, if_pos hroot, ← render_cons rooted hne, hchild.clean_render (cons_ne_nil b st),
    hchild.clean_render (cons_ne_nil b st)]

theorem utf8_eq_nil {s : String} : utf8 s = [] ↔ s = "" :=
  ⟨fun h => utf8_injective (t := "") h, fun h => by rw [h]; rfl⟩

theorem safeNodeConfigDir_eq_ok {configDir : Bytes} {name : String} {dir : Bytes} :
    safeNodeConfigDir configDir name = .ok dir ↔
      IsName (utf8 (trimSpace name)) ∧ backslash ∉ utf8 (trimSpace name) ∧
        dotdot.isPrefixOf (utf8 (trimSpace name)) = false ∧
        dir = nodesDir configDir ++ slash :: utf8 (trimSpace name) := by
  obtain ⟨rooted, st, hroot, hclean, hne⟩ := nodesDir_eq_render configDir
  unfold safeNodeConfigDir
  simp only [bind_eq_ok, refuseIf_eq_ok, require_eq_ok, pure_eq_ok, exists_const, not_or, hroot,
    ← utf8_eq_nil]
  generalize utf8 (trimSpace name) = b
  have hdir : IsName b → clean (joinText (render rooted st) b) = render rooted st ++ slash :: b :=
    fun hb => (clean_join_child hclean hne hb).trans (render_cons rooted hne b)
  have hrel : IsName b → relText (render rooted st) (render rooted st ++ slash :: b) = some b := by
    intro hb
    rw [← render_cons rooted hne]
    exact hclean.relText_child hne hb
  constructor
  · rintro ⟨hnil, ⟨hdot, hdotdot, hslash, hbackslash⟩, rel, hrelok, ⟨-, hup, -⟩, heq⟩
    have hb : IsName b := ⟨hnil, hdot, hdotdot, hslash⟩
    rw [hdir hb] at hrelok heq
    cases (hrel hb).symm.trans hrelok
    exact ⟨hb, hbackslash, Bool.not_eq_true _ ▸ hup, heq.symm⟩
  · rintro ⟨hb, hbackslash, hup, rfl⟩
    obtain ⟨hnil, hdot, hdotdot, hslash⟩ := id hb
    refine ⟨hnil, ⟨hdot, hdotdot, hslash, hbackslash⟩, b, ?_, ⟨hdot, by simp [hup], ?_⟩, hdir hb⟩
    · rw [hdir hb, hrel hb]
    · rw [isAbs, decide_eq_true_eq]
      exact fun hhead => hslash (mem_of_mem_head? hhead)

/-! ## Every declared node -/

/-- `dir` is an entry of the directory `root`. -/
def IsChild (root dir : Bytes) : Prop :=
  ∀ cwd : Path, ∃ e : Name, abs cwd dir = e :: abs cwd root

/-- Each node is found by its name and has a directory of its own. -/
structure Addressable (t : TopologyV2) : Prop where
  found : ∀ n ∈ t.nodes, findTopologyNode (some t) n.name = .ok n
  directories : ∀ configDir : Bytes, t.nodes.Pairwise fun a b => ∀ dirA dirB,
    safeNodeConfigDir configDir a.name = .ok dirA → safeNodeConfigDir configDir b.name = .ok dirB →
      dirA ≠ dirB ∧ (∀ cwd, abs cwd dirA ≠ abs cwd dirB) ∧
        IsChild (nodesDir configDir) dirA ∧ IsChild (nodesDir configDir) dirB

structure NamesProper (t : TopologyV2) : Prop where
  trimmed : ∀ n ∈ t.nodes, trimSpace n.name = n.name
  distinct : t.nodes.Pairwise fun a b => a.name ≠ b.name

theorem findTopologyNode_eq_ok {t : TopologyV2} {name : String} {n : NodeV2} :
    findTopologyNode (some t) name = .ok n ↔
      trimSpace name ≠ "" ∧ (t.nodes.find? fun node => node.name = trimSpace name) = some n := by
  simp only [findTopologyNode, bind_eq_ok, refuseIf_eq_ok, require_eq_ok, exists_const,
    Option.some.injEq, exists_eq_left']

theorem find?_of_distinct {nodes : List NodeV2}
    (h : nodes.Pairwise fun a b => a.name ≠ b.name) {n : NodeV2} (hn : n ∈ nodes) :
    (nodes.find? fun node => node.name = n.name) = some n := by
  have hnodup : (nodes.map (·.name)).Nodup := by
    rwa [nodup_iff_pairwise_ne, pairwise_map]
  cases hfind : nodes.find? fun node => node.name = n.name with
  | none => exact absurd (decide_eq_true rfl) (find?_eq_none.mp hfind n hn)
  | some m =>
    have hname : m.name = n.name := by simpa using find?_some hfind
    rw [inj_on_of_nodup_map hnodup (mem_of_find?_eq_some hfind) hn hname]

theorem directories_of_ne {configDir : Bytes} {a b : String} {dirA dirB : Bytes}
    (hne : trimSpace a ≠ trimSpace b) (hA : safeNodeConfigDir configDir a = .ok dirA)
    (hB : safeNodeConfigDir configDir b = .ok dirB) :
    dirA ≠ dirB ∧ (∀ cwd, abs cwd dirA ≠ abs cwd dirB) ∧
      IsChild (nodesDir configDir) dirA ∧ IsChild (nodesDir configDir) dirB := by
  obtain ⟨hnameA, -, -, rfl⟩ := safeNodeConfigDir_eq_ok.mp hA
  obtain ⟨hnameB, -, -, rfl⟩ := safeNodeConfigDir_eq_ok.mp hB
  have hroot : nodesDir configDir ≠ [] := by
    obtain ⟨rooted, st, hroot, hclean, hst⟩ := nodesDir_eq_render configDir
    intro hnil
    have hstack := hclean.stack_render hst
    rw [← hroot, hnil] at hstack
    exact hst hstack.symm
  have hpaths : ∀ cwd, abs cwd (nodesDir configDir ++ slash :: utf8 (trimSpace a)) ≠
      abs cwd (nodesDir configDir ++ slash :: utf8 (trimSpace b)) := by
    intro cwd heq
    rw [abs_child cwd hroot hnameA, abs_child cwd hroot hnameB] at heq
    exact hne (utf8_injective (Subtype.mk.inj (cons.inj heq).1))
  exact ⟨fun heq => hpaths [] (congrArg _ heq), hpaths,
    fun cwd => ⟨_, abs_child cwd hroot hnameA⟩, fun cwd => ⟨_, abs_child cwd hroot hnameB⟩⟩

/-- **Every node of an accepted topology can be addressed**. -/
theorem addressable_iff (t : TopologyV2) (h : validateV2 t = .ok ()) :
    Addressable t ↔ NamesProper t := by
  obtain ⟨_, -, haccepted, htexts⟩ := validateV2_accepts h
  constructor
  · intro haddr
    have hfind : ∀ n ∈ t.nodes, (t.nodes.find? fun node => node.name = trimSpace n.name) = some n :=
      fun n hn => (findTopologyNode_eq_ok.mp (haddr.found n hn)).2
    refine ⟨?_, htexts.imp_of_mem ?_⟩
    · intro n hn
      have hname := find?_some (hfind n hn)
      exact (of_decide_eq_true hname).symm
    · intro a b ha hb htext hname
      -- one search for both of them
      have hsame := hfind a ha
      rw [hname, hfind b hb] at hsame
      exact htext (congrArg (·.overlayIP) (Option.some.inj hsame).symm)
  · intro hproper
    refine ⟨?_, fun configDir => hproper.distinct.imp_of_mem ?_⟩
    · intro n hn
      rw [findTopologyNode_eq_ok, hproper.trimmed n hn]
      exact ⟨(haccepted n hn).name_ne, find?_of_distinct hproper.distinct hn⟩
    · intro a b ha hb hne dirA dirB hA hB
      rw [← hproper.trimmed a ha, ← hproper.trimmed b hb] at hne
      exact directories_of_ne hne hA hB

def properMesh : TopologyV2 where
  mesh := { overlaySupernet := "10.0.0.0/24" }
  nodes :=
    [{ name := "master-01", roles := [.master], overlayIP := "10.0.0.1" },
      { name := "egress-01", roles := [.egress], overlayIP := "10.0.0.2" }]

theorem addressable_properMesh : validateV2 properMesh = .ok () ∧ Addressable properMesh :=
  ⟨by decide, (addressable_iff properMesh (by decide)).mpr ⟨by decide, by decide⟩⟩

def namesakes : TopologyV2 where
  mesh := { overlaySupernet := "10.0.0.0/24" }
  nodes :=
    [{ name := "node-01", roles := [.master], overlayIP := "10.0.0.1" },
      { name := "node-01", roles := [.egress], overlayIP := "10.0.0.2" }]

/-- **The second of two namesakes cannot be addressed**. -/
theorem namesakes_accepted : validateV2 namesakes = .ok () ∧ ¬ Addressable namesakes := by
  refine ⟨by decide, ?_⟩
  intro h
  have hfound :=
    h.found { name := "node-01", roles := [.egress], overlayIP := "10.0.0.2" } (by decide)
  exact absurd hfound (by decide)

end AwgMesh.MeshCtl
