import Mathlib.Data.List.Perm.Basic
import AwgMesh.Lib.Checks
import AwgMesh.Lib.Machine
import AwgMesh.Topology.V1

/-!
# The `ip range` commands

`cmd/mesh-ctl/cmd/ip.go`: `add`, `resize`, `rename`, `delete` and `set-balancer`.
-/

namespace AwgMesh.MeshCtl.IPRange

open Lib Net TopologyV1 List
open Lib.Checks

/-! ## The commands -/

inductive NodeKind where
  | master
  | endpoint
  | client

inductive CommandError where
  | required (flag : String)
  | alreadyExists (name : String)
  | notFound (name : String)
  | parseNewRange (err : RangeError)
  | parseNewCIDR (err : RangeError)
  | parseRange (err : RangeError)
  | newRangeOverlaps (name existing : String)
  | newCIDROverlaps (cidr existing : String)
  | parseBalancer (ip : String)
  | balancerNotInside (ip cidr : String)
  | balancerOutsideNew (ip cidr : String)
  | balancerNotInRange (ip name cidr : String)
  | inUse (range : String) (kind : NodeKind) (node ip : String)

def withRanges (t : Topology) (ranges : List NamedRange) : Topology :=
  { t with overlay := { t.overlay with ranges } }

def firstOverlap (r : Range) (existing : List NamedRange) : Option NamedRange :=
  existing.find? fun nr =>
    match parseRange nr with
    | .error _ => false
    | .ok other => rangesOverlap r other

def add (t : Topology) (name cidr balancerIP : String) : Except CommandError Topology := do
  refuseIf (cidr = "") (.required "--cidr")
  refuseIf (∃ r ∈ t.overlay.ranges, r.name = name) (.alreadyExists name)
  let newNamedRange : NamedRange := { name, cidr, balancerIP }
  let newRange ← (parseRange newNamedRange).mapError .parseNewRange
  refuse ((firstOverlap newRange t.overlay.ranges).map fun existing =>
    .newRangeOverlaps name existing.name)
  if balancerIP = "" then
    return withRanges t (t.overlay.ranges ++ [newNamedRange])
  let bip ← require (parseAddr balancerIP) (.parseBalancer balancerIP)
  refuseIf (newRange.contains (some bip) = false) (.balancerNotInside balancerIP cidr)
  return withRanges t (t.overlay.ranges ++ [newNamedRange])

def findRange (t : Topology) (name : String) : Except CommandError (NamedRange × Nat) :=
  require (t.overlay.ranges.zipIdx.find? fun p => p.1.name = name) (.notFound name)

def resize (t : Topology) (name cidr : String) : Except CommandError Topology := do
  refuseIf (cidr = "") (.required "--cidr")
  let (nr, idx) ← findRange t name
  let newRange ← (parseRange { name, cidr, balancerIP := nr.balancerIP }).mapError .parseNewCIDR
  -- the loop passes over the range itself
  refuse ((firstOverlap newRange (t.overlay.ranges.eraseIdx idx)).map fun existing =>
    .newCIDROverlaps cidr existing.name)
  refuseIf (nr.balancerIP ≠ "" ∧
      ∃ bip ∈ parseAddr nr.balancerIP, newRange.contains (some bip) = false)
    (.balancerOutsideNew nr.balancerIP cidr)
  return withRanges t (t.overlay.ranges.set idx { nr with cidr })

def rename (t : Topology) (name newName : String) : Except CommandError Topology := do
  refuseIf (newName = "") (.required "--new-name")
  let (nr, idx) ← findRange t name
  refuseIf (∃ r ∈ t.overlay.ranges.eraseIdx idx, r.name = newName) (.alreadyExists newName)
  return withRanges t (t.overlay.ranges.set idx { nr with name := newName })

def nodes (t : Topology) : List (NodeKind × String × String) :=
  t.masters.map (fun m => (.master, m.name, m.overlayIP)) ++
    t.endpoints.map (fun e => (.endpoint, e.name, e.overlayIP)) ++
    t.clients.map (fun c => (.client, c.name, c.overlayIP))

def checkNodesUseRange (t : Topology) (r : Range) (rangeName : String) : Option CommandError :=
  ((nodes t).find? fun n => (parseAddr n.2.2).any fun ip => r.contains (some ip)).map
    fun n => .inUse rangeName n.1 n.2.1 n.2.2

def delete (t : Topology) (name : String) : Except CommandError Topology := do
  let (nr, idx) ← findRange t name
  let r ← (parseRange nr).mapError .parseRange
  refuse (checkNodesUseRange t r name)
  let last := t.overlay.ranges.getLastD nr
  return withRanges t (t.overlay.ranges.set idx last).dropLast

def setBalancer (t : Topology) (name balancerIP : String) : Except CommandError Topology := do
  refuseIf (balancerIP = "") (.required "--balancer-ip")
  let (nr, idx) ← findRange t name
  let r ← (parseRange nr).mapError .parseRange
  let bip ← require (parseAddr balancerIP) (.parseBalancer balancerIP)
  refuseIf (r.contains (some bip) = false) (.balancerNotInRange balancerIP name nr.cidr)
  return withRanges t (t.overlay.ranges.set idx { nr with balancerIP })

inductive Command where
  | add (name cidr balancerIP : String)
  | resize (name cidr : String)
  | rename (name newName : String)
  | delete (name : String)
  | setBalancer (name balancerIP : String)

def Command.run (t : Topology) : Command → Except CommandError Topology
  | .add name cidr balancerIP => IPRange.add t name cidr balancerIP
  | .resize name cidr => IPRange.resize t name cidr
  | .rename name newName => IPRange.rename t name newName
  | .delete name => IPRange.delete t name
  | .setBalancer name balancerIP => IPRange.setBalancer t name balancerIP

def commands (t : Topology) : Machine Topology Command where
  init := t
  step t cmd := (cmd.run t).toOption

/-! ## What a successful command did -/

section

variable {t t' : Topology} {name cidr balancerIP newName : String}

variable {r : Range}

theorem firstOverlap_eq_none {existing : List NamedRange} :
    firstOverlap r existing = none ↔
      ∀ nr ∈ existing, ∀ other, parseRange nr = .ok other → rangesOverlap r other = false := by
  unfold firstOverlap
  rw [find?_eq_none]
  refine forall₂_congr fun nr _ => ?_
  cases parseRange nr <;> simp

theorem checkNodesUseRange_eq_none :
    checkNodesUseRange t r name = none ↔
      ∀ n ∈ nodes t, ∀ ip, parseAddr n.2.2 = some ip → r.contains (some ip) = false := by
  unfold checkNodesUseRange
  rw [Option.map_eq_none_iff, find?_eq_none]
  refine forall₂_congr fun n _ => ?_
  cases parseAddr n.2.2 <;> simp

variable {nr : NamedRange} {idx : Nat}

theorem findRange_ok (h : findRange t name = .ok (nr, idx)) :
    nr.name = name ∧ ∃ hlt : idx < t.overlay.ranges.length, t.overlay.ranges[idx] = nr := by
  unfold findRange at h
  have hfind := Checks.require_eq_ok.mp h
  have hmem := mem_of_find?_eq_some hfind
  have hname := find?_some hfind
  obtain ⟨hlt, hget⟩ := mem_zipIdx' hmem
  exact ⟨by simpa using hname, hlt, hget.symm⟩

structure Edit (t t' : Topology) (taken given rest : List NamedRange) : Prop where
  before : t.overlay.ranges.Perm (taken ++ rest)
  after : ∃ ranges, t' = withRanges t ranges ∧ ranges.Perm (given ++ rest)

theorem edit_set (h : findRange t name = .ok (nr, idx)) (given : NamedRange) :
    Edit t (withRanges t (t.overlay.ranges.set idx given)) [nr] [given]
      (t.overlay.ranges.eraseIdx idx) := by
  obtain ⟨-, hlt, rfl⟩ := findRange_ok h
  exact ⟨(getElem_cons_eraseIdx_perm hlt).symm, _, rfl, set_perm_cons_eraseIdx hlt given⟩

theorem set_last_dropLast_perm {ranges : List NamedRange} (hlt : idx < ranges.length)
    (nr : NamedRange) :
    (ranges.set idx (ranges.getLastD nr)).dropLast.Perm (ranges.eraseIdx idx) := by
  rcases eq_nil_or_concat ranges with rfl | ⟨init, last, rfl⟩
  · cases hlt
  rw [concat_eq_append] at hlt ⊢
  rw [getLastD_concat]
  rw [length_append, length_singleton] at hlt
  rcases Nat.lt_succ_iff_lt_or_eq.mp hlt with hinit | rfl
  · rw [set_append_left _ _ hinit, dropLast_concat,
      eraseIdx_append_of_lt_length hinit]
    exact (set_perm_cons_eraseIdx hinit last).trans (perm_append_singleton _ _).symm
  · rw [set_append_right _ _ (Nat.le_refl _), Nat.sub_self,
      eraseIdx_append_of_length_le (Nat.le_refl _), Nat.sub_self]
    simp

theorem edit_delete (h : findRange t name = .ok (nr, idx)) :
    Edit t (withRanges t (t.overlay.ranges.set idx (t.overlay.ranges.getLastD nr)).dropLast) [nr] []
      (t.overlay.ranges.eraseIdx idx) := by
  obtain ⟨-, hlt, hget⟩ := findRange_ok h
  refine ⟨?_, _, rfl, set_last_dropLast_perm hlt nr⟩
  exact hget ▸ (getElem_cons_eraseIdx_perm hlt).symm

theorem add_ok (h : add t name cidr balancerIP = .ok t') :
    ∃ r, parseRange ⟨name, cidr, balancerIP⟩ = .ok r ∧
      Edit t t' [] [⟨name, cidr, balancerIP⟩] t.overlay.ranges ∧
      (∀ nr ∈ t.overlay.ranges, nr.name ≠ name) ∧ firstOverlap r t.overlay.ranges = none ∧
      (balancerIP ≠ "" →
        ∃ bip, parseAddr balancerIP = some bip ∧ r.contains (some bip) = true) := by
  have hedit : Edit t (withRanges t (t.overlay.ranges ++ [⟨name, cidr, balancerIP⟩])) []
      [⟨name, cidr, balancerIP⟩] t.overlay.ranges :=
    ⟨.refl _, _, rfl, perm_append_comm⟩
  unfold add at h
  simp only [bind_eq_ok, refuseIf_eq_ok, mapError_eq_ok, refuse_eq_ok, Option.map_eq_none_iff,
    exists_const] at h
  obtain ⟨-, hname, r, hr, hover, h⟩ := h
  have hnew : ∀ nr ∈ t.overlay.ranges, nr.name ≠ name := fun nr hnr heq => hname ⟨nr, hnr, heq⟩
  by_cases hb : balancerIP = ""
  · rw [if_pos hb] at h
    cases h
    exact ⟨r, hr, hedit, hnew, hover, fun hne => absurd hb hne⟩
  · simp only [if_neg hb, bind_eq_ok, require_eq_ok, refuseIf_eq_ok, pure_eq_ok, exists_const,
      Bool.not_eq_false] at h
    obtain ⟨bip, hbip, hin, rfl⟩ := h
    exact ⟨r, hr, hedit, hnew, hover, fun _ => ⟨bip, hbip, hin⟩⟩

theorem resize_ok (h : resize t name cidr = .ok t') :
    ∃ nr rest r, nr.name = name ∧ Edit t t' [nr] [{ nr with cidr }] rest ∧
      parseRange { nr with cidr } = .ok r ∧ firstOverlap r rest = none ∧
      ∀ bip, nr.balancerIP ≠ "" → parseAddr nr.balancerIP = some bip →
        r.contains (some bip) = true := by
  unfold resize at h
  simp only [bind_eq_ok, refuseIf_eq_ok, mapError_eq_ok, refuse_eq_ok, pure_eq_ok,
    Option.map_eq_none_iff, exists_const, Prod.exists] at h
  obtain ⟨-, nr, idx, hfind, r, hr, hover, hbal, rfl⟩ := h
  obtain ⟨rfl, -⟩ := findRange_ok hfind
  refine ⟨nr, _, r, rfl, edit_set hfind _, hr, hover, fun bip hne hbip => ?_⟩
  exact Bool.of_not_eq_false fun hout => hbal ⟨hne, bip, hbip, hout⟩

theorem rename_ok (h : rename t name newName = .ok t') :
    ∃ nr rest, nr.name = name ∧ Edit t t' [nr] [{ nr with name := newName }] rest ∧
      ∀ other ∈ rest, other.name ≠ newName := by
  unfold rename at h
  simp only [bind_eq_ok, refuseIf_eq_ok, pure_eq_ok, exists_const, Prod.exists] at h
  obtain ⟨-, nr, idx, hfind, hname, rfl⟩ := h
  exact ⟨nr, _, (findRange_ok hfind).1, edit_set hfind _,
    fun other hother heq => hname ⟨other, hother, heq⟩⟩

theorem delete_ok (h : delete t name = .ok t') :
    ∃ nr rest r, nr.name = name ∧ Edit t t' [nr] [] rest ∧ parseRange nr = .ok r ∧
      ∀ n ∈ nodes t, ∀ ip, parseAddr n.2.2 = some ip → r.contains (some ip) = false := by
  unfold delete at h
  simp only [bind_eq_ok, mapError_eq_ok, refuse_eq_ok, pure_eq_ok, exists_const, Prod.exists] at h
  obtain ⟨nr, idx, hfind, r, hr, hnodes, rfl⟩ := h
  exact ⟨nr, _, r, (findRange_ok hfind).1, edit_delete hfind, hr,
    checkNodesUseRange_eq_none.mp hnodes⟩

theorem setBalancer_ok (h : setBalancer t name balancerIP = .ok t') :
    ∃ nr rest r bip, nr.name = name ∧ Edit t t' [nr] [{ nr with balancerIP }] rest ∧
      balancerIP ≠ "" ∧ parseRange nr = .ok r ∧ parseAddr balancerIP = some bip ∧
      r.contains (some bip) = true := by
  unfold setBalancer at h
  simp only [bind_eq_ok, refuseIf_eq_ok, mapError_eq_ok, require_eq_ok, pure_eq_ok, exists_const,
    Prod.exists] at h
  obtain ⟨hne, nr, idx, hfind, r, hr, bip, hbip, hin, rfl⟩ := h
  exact ⟨nr, _, r, bip, (findRange_ok hfind).1, edit_set hfind _, hne, hr, hbip,
    Bool.of_not_eq_false hin⟩

end

/-! ## Range commands and the validator -/

def Valid (t : Topology) : Prop := ErrorFree (validateTopology t)

instance (t : Topology) : Decidable (Valid t) :=
  inferInstanceAs (Decidable (ErrorFree (validateTopology t)))

def inOverlay (t : Topology) (cidr : String) : Bool :=
  match parsePrefix t.overlay.space, parsePrefix cidr with
  | some space, some network => isRangeWithinOverlay space.masked network.masked
  | _, _ => false

def isMapped (ip : String) : Bool := (parseAddr ip).any Addr.is4In6

/-- What the commands do not check themselves. -/
def KeepsValid (t : Topology) : Command → Prop
  | .add _ cidr balancerIP => inOverlay t cidr = true ∧ isMapped balancerIP = false
  | .resize _ cidr => inOverlay t cidr = true
  | .setBalancer _ balancerIP => isMapped balancerIP = false
  | .rename .. | .delete .. => True

instance (t : Topology) : DecidablePred (KeepsValid t)
  | .add .. => inferInstanceAs (Decidable (_ ∧ _))
  | .resize .. => inferInstanceAs (Decidable (_ = true))
  | .setBalancer .. => inferInstanceAs (Decidable (_ = false))
  | .rename .. | .delete .. => isTrue trivial

section

variable {t t' : Topology} {taken given rest : List NamedRange} {space : Prefix}
  {nr nr' : NamedRange} {r : Range}

/-! ## Edits -/

theorem Edit.laid (h : Edit t t' taken given rest)
    (hspace : parsePrefix t.overlay.space = some space)
    (ht : Valid t) : Laid space.masked (taken ++ rest) := by
  obtain ⟨⟨space', hspace', hlaid⟩, -⟩ := errorFree_validateTopology.mp ht
  rw [hspace] at hspace'
  cases hspace'
  exact (Laid.perm h.before).mp hlaid

theorem Edit.valid_iff (h : Edit t t' taken given rest)
    (hspace : parsePrefix t.overlay.space = some space) (ht : Valid t) :
    Valid t' ↔ Laid space.masked (given ++ rest) := by
  obtain ⟨-, hnodes⟩ := errorFree_validateTopology.mp ht
  obtain ⟨ranges, rfl, hperm⟩ := h.after
  have hsame : nodeFindings (withRanges t ranges) = nodeFindings t := rfl
  unfold Valid
  rw [errorFree_validateTopology, hsame, and_iff_left hnodes, ← Laid.perm hperm]
  constructor
  · rintro ⟨space', hspace', hlaid⟩
    have heq : some space = some space' := hspace.symm.trans hspace'
    cases heq
    exact hlaid
  · exact fun hlaid => ⟨space, hspace, hlaid⟩

theorem laid_cons_iff_fits (hrest : Laid space rest)
    (hothers : ∀ other ∈ rest, other.name ≠ nr.name ∧ Apart nr other) :
    Laid space (nr :: rest) ↔ Fits space nr := by
  rw [Laid.cons_iff]
  exact ⟨fun h => h.1, fun h => ⟨h, hothers, hrest⟩⟩

theorem apart_of_firstOverlap (hr : parseRange nr = .ok r) (h : firstOverlap r rest = none)
    {other : NamedRange} (hother : other ∈ rest) : Apart nr other := by
  intro r' ro hr' ho
  rw [hr] at hr'
  cases hr'
  exact firstOverlap_eq_none.mp h other hother ro ho

/-! ## Fitting -/

theorem inOverlay_iff (hspace : parsePrefix t.overlay.space = some space)
    (hr : parseRange nr = .ok r) :
    inOverlay t nr.cidr = true ↔ isRangeWithinOverlay space.masked r.network = true := by
  obtain ⟨⟨network, hp, hn⟩, -⟩ := parseRange_ok hr
  unfold inOverlay
  rw [hspace, hp, hn]

theorem balancer_inside_iff (hr : parseRange nr = .ok r) (hin : nr.balancerIP ≠ "" →
      ∃ bip, parseAddr nr.balancerIP = some bip ∧ r.contains (some bip) = true) :
    (nr.balancerIP ≠ "" → r.contains r.balancerIP = true) ↔ isMapped nr.balancerIP = false := by
  by_cases hb : nr.balancerIP = ""
  · have hempty : isMapped "" = false := by decide
    simp [hb, hempty]
  · obtain ⟨bip, hbip, hraw⟩ := hin hb
    obtain ⟨ip, hip, hnorm⟩ := (parseRange_ok hr).2 hb
    rw [hbip] at hip
    cases hip
    have hmapped : isMapped nr.balancerIP = bip.is4In6 := by simp [isMapped, hbip]
    rw [hmapped, hnorm]
    exact ⟨fun h => (contains_normalizeAddr hraw).mp (h hb),
      fun h _ => (contains_normalizeAddr hraw).mpr h⟩

theorem fits_iff (hspace : parsePrefix t.overlay.space = some space) (hr : parseRange nr = .ok r)
    (hin : nr.balancerIP ≠ "" →
      ∃ bip, parseAddr nr.balancerIP = some bip ∧ r.contains (some bip) = true) :
    Fits space.masked nr ↔ inOverlay t nr.cidr = true ∧ isMapped nr.balancerIP = false := by
  unfold Fits
  rw [inOverlay_iff hspace hr, ← balancer_inside_iff hr hin]
  constructor
  · rintro ⟨r', hr', hwithin, hbal⟩
    rw [hr] at hr'
    cases hr'
    exact ⟨hwithin, hbal⟩
  · exact fun h => ⟨r, hr, h.1, h.2⟩

theorem isMapped_of_resize {rnew : Range} (hold : Fits space nr)
    (hwithin : isRangeWithinOverlay space rnew.network = true)
    (hbal : ∀ bip, nr.balancerIP ≠ "" → parseAddr nr.balancerIP = some bip →
      rnew.contains (some bip) = true) : isMapped nr.balancerIP = false := by
  by_contra hmapped
  have hb : nr.balancerIP ≠ "" := by
    intro hb
    rw [hb] at hmapped
    exact hmapped (by decide)
  obtain ⟨rold, hrold, hwithinOld, hinOld⟩ := hold
  obtain ⟨ip, hip, hnorm⟩ := (parseRange_ok hrold).2 hb
  have hmappedIP : ip.is4In6 = true := by simpa [isMapped, hip] using hmapped
  have hinside : rold.contains (some (normalizeAddr ip)) = true := hnorm ▸ hinOld hb
  have hold4 : rold.network.is4 = true :=
    (Prefix.is4_of_contains hinside).trans (is4_normalizeAddr hmappedIP)
  have hnew4 : rnew.network.is4 = false :=
    (Prefix.is4_of_contains (hbal ip hb hip)).trans (Addr.is4_of_is4In6 hmappedIP)
  have hfamily : rold.network.is4 = rnew.network.is4 :=
    (is4_of_isRangeWithinOverlay hwithinOld).symm.trans (is4_of_isRangeWithinOverlay hwithin)
  rw [hold4, hnew4] at hfamily
  cases hfamily

/-! ## One command -/

theorem valid_run_iff {cmd : Command} (ht : Valid t) (h : cmd.run t = .ok t') :
    Valid t' ↔ KeepsValid t cmd := by
  obtain ⟨⟨space, hspace, hlaid⟩, -⟩ := errorFree_validateTopology.mp ht
  cases cmd with
  | add name cidr balancerIP =>
    obtain ⟨r, hr, hedit, hname, hover, hin⟩ := add_ok h
    rw [hedit.valid_iff hspace ht]
    refine (laid_cons_iff_fits hlaid ?_).trans (fits_iff hspace hr hin)
    exact fun other hother => ⟨hname other hother, apart_of_firstOverlap hr hover hother⟩
  | resize name cidr =>
    obtain ⟨nr, rest, r, -, hedit, hr, hover, hbal⟩ := resize_ok h
    obtain ⟨hfits, hothers, hrest⟩ := Laid.cons_iff.mp (hedit.laid hspace ht)
    rw [hedit.valid_iff hspace ht]
    refine (laid_cons_iff_fits hrest ?_).trans ?_
    · exact fun other hother => ⟨(hothers other hother).1, apart_of_firstOverlap hr hover hother⟩
    · have hin : nr.balancerIP ≠ "" →
          ∃ bip, parseAddr nr.balancerIP = some bip ∧ r.contains (some bip) = true := by
        intro hb
        obtain ⟨ip, hip, -⟩ := (parseRange_ok hr).2 hb
        exact ⟨ip, hip, hbal ip hb hip⟩
      rw [fits_iff hspace hr hin]
      refine ⟨fun h => h.1, fun hwithin => ⟨hwithin, ?_⟩⟩
      exact (isMapped_of_resize hfits ((inOverlay_iff hspace hr).mp hwithin) hbal :)
  | rename name newName =>
    obtain ⟨nr, rest, -, hedit, hname⟩ := rename_ok h
    obtain ⟨⟨r, hr, hfits⟩, hothers, hrest⟩ := Laid.cons_iff.mp (hedit.laid hspace ht)
    rw [hedit.valid_iff hspace ht]
    refine (laid_cons_iff_fits hrest ?_).trans ?_
    · exact fun other hother => ⟨hname other hother, (hothers other hother).2.of_cidr_eq hr rfl⟩
    · exact iff_of_true ⟨_, parseRange_name hr newName, hfits⟩ trivial
  | delete name =>
    obtain ⟨nr, rest, -, -, hedit, -⟩ := delete_ok h
    rw [hedit.valid_iff hspace ht]
    exact iff_of_true (Laid.cons_iff.mp (hedit.laid hspace ht)).2.2 trivial
  | setBalancer name balancerIP =>
    obtain ⟨nr, rest, r, bip, -, hedit, hne, hr, hbip, hin⟩ := setBalancer_ok h
    obtain ⟨hfits, hothers, hrest⟩ := Laid.cons_iff.mp (hedit.laid hspace ht)
    rw [hedit.valid_iff hspace ht]
    refine (laid_cons_iff_fits hrest ?_).trans ?_
    · exact fun other hother =>
        ⟨(hothers other hother).1, (hothers other hother).2.of_cidr_eq hr rfl⟩
    · have hr' := parseRange_balancer hr hne hbip
      rw [fits_iff hspace hr' fun _ => ⟨bip, hbip, hin⟩]
      refine ⟨fun h => h.2, fun h => ⟨?_, h⟩⟩
      obtain ⟨r₀, hr₀, hwithin, -⟩ := hfits
      exact (inOverlay_iff hspace hr₀).mpr hwithin

end

/-! ## Runs of commands -/

/-- **Range commands and validity.** -/
theorem range_commands_keep_valid_iff (t t' : Topology) (cmds : List Command) (ht : Valid t)
    (hrun : (commands t).exec t cmds = some t') :
    (commands t).Throughout Valid t cmds ↔ (commands t).Along KeepsValid t cmds := by
  refine Machine.throughout_iff_along (J := fun _ => True) (fun _ _ => trivial) ?_ trivial ht ?_
  · intro u cmd u' _ hu hstep
    refine valid_run_iff hu ?_
    change (cmd.run u).toOption = some u' at hstep
    cases h : cmd.run u with
    | error err => rw [h] at hstep; cases hstep
    | ok v => rw [h] at hstep; cases hstep; rfl
  · rw [hrun]
    rfl

def homeMesh : Topology where
  overlay := { space := "10.0.0.0/8", ranges := [{ name := "lan", cidr := "10.1.0.0/16" }] }
  masters := [{ name := "m1", overlayIP := "10.1.0.1" }]

def homeMeshExtended : Topology where
  overlay :=
    { space := "10.0.0.0/8"
      ranges := [{ name := "home", cidr := "10.1.0.0/16" },
        { name := "dmz", cidr := "10.2.0.0/15", balancerIP := "10.3.0.1" }] }
  masters := [{ name := "m1", overlayIP := "10.1.0.1" }]

theorem range_commands_keep_valid_extended : Valid homeMeshExtended := by
  have hrun : (commands homeMesh).exec homeMesh
      [.add "dmz" "10.2.0.0/16" "", .resize "dmz" "10.2.0.0/15", .setBalancer "dmz" "10.3.0.1",
        .rename "lan" "home"] = some homeMeshExtended := by decide
  have hkeep := (range_commands_keep_valid_iff homeMesh homeMeshExtended _ (by decide) hrun).mpr
    (by decide)
  exact hkeep.last hrun

/-- The command takes a range outside the overlay space. -/
theorem add_leaves_overlay_space :
    Valid homeMesh ∧ ∃ t', (commands homeMesh).exec homeMesh [.add "dmz" "192.168.0.0/24" ""] =
      some t' ∧ ¬ Valid t' := by
  refine ⟨by decide, withRanges homeMesh
    (homeMesh.overlay.ranges ++ [⟨"dmz", "192.168.0.0/24", ""⟩]), by decide, by decide⟩

end AwgMesh.MeshCtl.IPRange
