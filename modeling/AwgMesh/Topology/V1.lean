import Mathlib.Data.List.Infix
import AwgMesh.Net.Cidr

/-!
# The v1 topology and its validator

The part of `pkg/topology/topology.go` that `ValidateTopology` of `validate.go` reads, the ranges of
`ranges.go`, and the validator with all its findings.
-/

namespace AwgMesh.TopologyV1

open Net List

/-! ## Data -/

structure NamedRange where
  name : String
  cidr : String
  balancerIP : String := ""
  deriving DecidableEq

structure OverlayConfig where
  space : String
  ranges : List NamedRange := []
  deriving DecidableEq

structure MasterNode where
  name : String
  overlayIP : String
  endpoints : List String := []
  deriving DecidableEq

structure EndpointNode where
  name : String
  overlayIP : String
  deriving DecidableEq

structure RoutingPolicy where
  name : String
  dscp : Int
  deriving DecidableEq

structure ClientNode where
  name : String
  overlayIP : String
  masters : List String := []
  routingPolicies : List RoutingPolicy := []
  storageRoot : Option String := none
  deriving DecidableEq

structure Topology where
  overlay : OverlayConfig
  masters : List MasterNode := []
  endpoints : List EndpointNode := []
  clients : List ClientNode := []
  deriving DecidableEq

/-! ## Ranges -/

def normalizeAddr (addr : Addr) : Addr := if addr.is4In6 then addr.unmap else addr

structure Range where
  name : String
  network : Prefix
  balancerIP : Option Addr := none

inductive RangeError where
  | badCIDR (cidr : String)
  | badBalancer (ip : String)

def parseRange (nr : NamedRange) : Except RangeError Range :=
  match parsePrefix nr.cidr with
  | none => .error (.badCIDR nr.cidr)
  | some network =>
    if nr.balancerIP ≠ "" then
      match parseAddr nr.balancerIP with
      | none => .error (.badBalancer nr.balancerIP)
      | some ip =>
        .ok { name := nr.name, network := network.masked, balancerIP := some (normalizeAddr ip) }
    else .ok { name := nr.name, network := network.masked }

def Range.contains (r : Range) : Option Addr → Bool
  | some ip => r.network.contains ip
  | none => false

def rangesOverlap (a b : Range) : Bool :=
  a.network.masked.contains b.network.masked.addr || b.network.masked.contains a.network.masked.addr

def isRangeWithinOverlay (overlay candidate : Prefix) : Bool :=
  overlay.contains candidate.masked.addr && overlay.contains candidate.masked.lastAddr

/-! ## Findings -/

inductive Severity where
  | error
  | warning
  deriving DecidableEq

structure DSCPError where
  got : Int

inductive StorageRootError where
  | traversal (s : String)
  | leadingSlash (s : String)
  | characters (s : String)

inductive Message where
  | invalidOverlay (space : String)
  | duplicateRange (name : String)
  | badRange (err : RangeError)
  | notContained
  | balancerOutside
  | overlap (a b : String)
  | duplicateName (name : String)
  | longMasterName (name : String)
  | invalidOverlayIP (value : String)
  | overlayIPUsed (value owner : String)
  | endpointNotFound (name : String)
  | masterNotFound (name : String)
  | badDSCP (client policy : String) (err : DSCPError)
  | badStorageRoot (client : String) (err : StorageRootError)

structure Finding where
  field : String
  message : Message
  severity : Severity := .error

def indexed (base : String) (i : Nat) : String := base ++ "[" ++ itoa i ++ "]"

/-! ## The overlay -/

def namedRangeFindings (overlay : Option Prefix) (i : Nat) (seen : List String) (nr : NamedRange) :
    List Finding :=
  let field := indexed "overlay.ranges" i
  let naming : List Finding :=
    if nr.name ∈ seen then [{ field := field ++ ".name", message := .duplicateRange nr.name }]
    else []
  match parseRange nr with
  | .error err => naming ++ [{ field := field ++ ".cidr", message := .badRange err }]
  | .ok r =>
    naming ++ (if ∃ space ∈ overlay, !isRangeWithinOverlay space r.network then
        [{ field := field ++ ".cidr", message := .notContained }] else []) ++
      (if nr.balancerIP ≠ "" ∧ !r.contains r.balancerIP then
        [{ field := field ++ ".balancer_ip", message := .balancerOutside }] else [])

def rangeFindings (overlay : Option Prefix) : (i : Nat) → (seen : List String) →
    List NamedRange → List Finding
  | _, _, [] => []
  | i, seen, nr :: rest =>
    namedRangeFindings overlay i seen nr ++ rangeFindings overlay (i + 1) (nr.name :: seen) rest

def validRanges (ranges : List NamedRange) : List Range :=
  ranges.filterMap fun nr => (parseRange nr).toOption

def overlapFindings : List Range → List Finding
  | [] => []
  | a :: rest =>
    (rest.filter fun b => rangesOverlap a b).map (fun b =>
      { field := "overlay.ranges", message := .overlap a.name b.name }) ++ overlapFindings rest

def overlayFindings (o : OverlayConfig) : List Finding :=
  let space := (parsePrefix o.space).map Prefix.masked
  let spaceFindings : List Finding :=
    if space = none then [{ field := "overlay.space", message := .invalidOverlay o.space }] else []
  spaceFindings ++ rangeFindings space 0 [] o.ranges ++ overlapFindings (validRanges o.ranges)

/-! ## The nodes -/

def uniqueNameFindings (fieldPrefix : String) : (i : Nat) → (seen : List String) →
    List String → List Finding
  | _, _, [] => []
  | i, seen, name :: rest =>
    if seen.contains name then
      { field := indexed fieldPrefix i ++ ".name", message := .duplicateName name } ::
        uniqueNameFindings fieldPrefix (i + 1) seen rest
    else uniqueNameFindings fieldPrefix (i + 1) (name :: seen) rest

def masterNameFindings (masters : List MasterNode) : List Finding :=
  masters.zipIdx.filterMap fun (m, i) =>
    if m.name.utf8ByteSize > 12 then
      some { field := indexed "masters" i ++ ".name", message := .longMasterName m.name
             severity := .warning }
    else none

def overlayIPFindings : (owners : List (Addr × String)) → List (String × String) → List Finding
  | _, [] => []
  | owners, (field, value) :: rest =>
    match parseAddr value with
    | none =>
      { field := field, message := .invalidOverlayIP value } :: overlayIPFindings owners rest
    | some addr =>
      match owners.lookup (normalizeAddr addr) with
      | some owner =>
        { field := field, message := .overlayIPUsed value owner } :: overlayIPFindings owners rest
      | none => overlayIPFindings ((normalizeAddr addr, field) :: owners) rest

def Topology.overlayIPs (t : Topology) : List (String × String) :=
  t.masters.zipIdx.map (fun (m, i) => (indexed "masters" i ++ ".overlay_ip", m.overlayIP)) ++
    t.endpoints.zipIdx.map (fun (e, i) => (indexed "endpoints" i ++ ".overlay_ip", e.overlayIP)) ++
    t.clients.zipIdx.map (fun (c, i) => (indexed "clients" i ++ ".overlay_ip", c.overlayIP))

def referenceFindings (known : List String) (field : Nat → String) (message : String → Message)
    (refs : List (List String)) : List Finding :=
  refs.zipIdx.flatMap fun (names, i) =>
    names.zipIdx.filterMap fun (name, j) =>
      if known.contains name then none
      else some { field := indexed (field i) j, message := message name, severity := .warning }

def validateStorageRoot (s : String) : Option StorageRootError :=
  if ['.', '.'] <:+: s.toList then some (.traversal s)
  else if s.toList.head? = some '/' then some (.leadingSlash s)
  else if s.toList ≠ [] ∧ s.toList.all (fun c =>
      ('a' ≤ c ∧ c ≤ 'z') || ('A' ≤ c ∧ c ≤ 'Z') || ('0' ≤ c ∧ c ≤ '9') || c = '_' || c = '/' ||
        c = '-') then none
  else some (.characters s)

def validateDSCP (dscp : Int) : Option DSCPError :=
  if dscp < 1 ∨ dscp > 63 then some ⟨dscp⟩ else none

def dscpFindings (clients : List ClientNode) : List Finding :=
  clients.zipIdx.flatMap fun (c, i) =>
    c.routingPolicies.zipIdx.filterMap fun (p, j) =>
      (validateDSCP p.dscp).map fun err =>
        { field := indexed (indexed "clients" i ++ ".routing_policies") j ++ ".dscp"
          message := .badDSCP c.name p.name err }

def storageRootFindings (clients : List ClientNode) : List Finding :=
  clients.zipIdx.filterMap fun (c, i) =>
    match c.storageRoot with
    | none => none
    | some root =>
      if root = "" then none
      else (validateStorageRoot root).map fun err =>
        { field := indexed "clients" i ++ ".mikrotik.storage_root"
          message := .badStorageRoot c.name err }

def nodeFindings (t : Topology) : List Finding :=
  uniqueNameFindings "masters" 0 [] (t.masters.map (·.name)) ++
    uniqueNameFindings "endpoints" 0 [] (t.endpoints.map (·.name)) ++
    uniqueNameFindings "clients" 0 [] (t.clients.map (·.name)) ++ masterNameFindings t.masters ++
    overlayIPFindings [] t.overlayIPs ++
    referenceFindings (t.endpoints.map (·.name)) (fun i => indexed "masters" i ++ ".endpoints")
      .endpointNotFound (t.masters.map (·.endpoints)) ++
    referenceFindings (t.masters.map (·.name)) (fun i => indexed "clients" i ++ ".masters")
      .masterNotFound (t.clients.map (·.masters)) ++
    dscpFindings t.clients ++ storageRootFindings t.clients

def validateTopology (t : Topology) : List Finding := overlayFindings t.overlay ++ nodeFindings t

/-! ## Parsed ranges -/

section

variable {nr nr' : NamedRange} {r r' : Range}

theorem parseRange_ok (h : parseRange nr = .ok r) :
    (∃ network, parsePrefix nr.cidr = some network ∧ r.network = network.masked) ∧
      (nr.balancerIP ≠ "" →
        ∃ ip, parseAddr nr.balancerIP = some ip ∧ r.balancerIP = some (normalizeAddr ip)) := by
  unfold parseRange at h
  cases hp : parsePrefix nr.cidr with
  | none => rw [hp] at h; cases h
  | some network =>
    rw [hp] at h
    by_cases hb : nr.balancerIP = ""
    · simp only [hb, ne_eq, not_true_eq_false, if_false] at h
      cases h
      exact ⟨⟨network, rfl, rfl⟩, fun hne => absurd hb hne⟩
    · simp only [ne_eq, hb, not_false_eq_true, if_true] at h
      cases hip : parseAddr nr.balancerIP with
      | none => rw [hip] at h; cases h
      | some ip =>
        rw [hip] at h
        cases h
        exact ⟨⟨network, rfl, rfl⟩, fun _ => ⟨ip, rfl, rfl⟩⟩

theorem network_eq_of_cidr_eq (h : parseRange nr = .ok r) (h' : parseRange nr' = .ok r')
    (hcidr : nr.cidr = nr'.cidr) : r.network = r'.network := by
  obtain ⟨⟨network, hp, hn⟩, -⟩ := parseRange_ok h
  obtain ⟨⟨network', hp', hn'⟩, -⟩ := parseRange_ok h'
  rw [hcidr, hp'] at hp
  cases hp
  rw [hn, hn']

theorem parseRange_name (h : parseRange nr = .ok r) (name : String) :
    parseRange { nr with name } = .ok { r with name } := by
  unfold parseRange at h ⊢
  repeat' split at h
  all_goals cases h
  all_goals simp_all

variable {ip : Addr}

theorem parseRange_balancer (h : parseRange nr = .ok r) {balancerIP : String}
    (hne : balancerIP ≠ "") (hip : parseAddr balancerIP = some ip) :
    parseRange { nr with balancerIP } = .ok { r with balancerIP := some (normalizeAddr ip) } := by
  unfold parseRange at h ⊢
  repeat' split at h
  all_goals cases h
  all_goals simp_all

theorem is4_normalizeAddr (h : ip.is4In6 = true) : (normalizeAddr ip).is4 = true := by
  unfold normalizeAddr
  rw [if_pos h]
  exact Addr.is4_unmap h

theorem contains_normalizeAddr {p : Prefix} (h : p.contains ip = true) :
    p.contains (normalizeAddr ip) = true ↔ ip.is4In6 = false := by
  cases hm : ip.is4In6 with
  | false => simp [normalizeAddr, hm, h]
  | true =>
    -- the prefix is of the family of the address as written
    have hp : p.is4 = false := (Prefix.is4_of_contains h).trans (Addr.is4_of_is4In6 hm)
    simp only [reduceCtorEq, iff_false]
    intro hnorm
    have hp' : p.is4 = true := (Prefix.is4_of_contains hnorm).trans (is4_normalizeAddr hm)
    rw [hp] at hp'
    cases hp'

theorem is4_of_isRangeWithinOverlay {overlay candidate : Prefix}
    (h : isRangeWithinOverlay overlay candidate = true) : overlay.is4 = candidate.is4 := by
  have hfirst : overlay.contains candidate.masked.addr = true := (Bool.and_eq_true_iff.mp h).1
  rw [Prefix.is4_of_contains hfirst]
  cases candidate <;> rfl

end

/-! ## Topologies without errors -/

def ErrorFree (findings : List Finding) : Prop := ∀ f ∈ findings, f.severity ≠ .error

instance (findings : List Finding) : Decidable (ErrorFree findings) :=
  inferInstanceAs (Decidable (∀ f ∈ findings, f.severity ≠ .error))

def Fits (space : Prefix) (nr : NamedRange) : Prop :=
  ∃ r, parseRange nr = .ok r ∧ isRangeWithinOverlay space r.network = true ∧
    (nr.balancerIP ≠ "" → r.contains r.balancerIP = true)

def Apart (a b : NamedRange) : Prop :=
  ∀ ra rb, parseRange a = .ok ra → parseRange b = .ok rb → rangesOverlap ra rb = false

structure Laid (space : Prefix) (ranges : List NamedRange) : Prop where
  fits : ∀ nr ∈ ranges, Fits space nr
  names : (ranges.map (·.name)).Nodup
  apart : ranges.Pairwise Apart

theorem rangesOverlap_comm (a b : Range) : rangesOverlap a b = rangesOverlap b a :=
  Bool.or_comm _ _

theorem Apart.symm {a b : NamedRange} (h : Apart a b) : Apart b a := by
  intro rb ra hb ha
  rw [rangesOverlap_comm]
  exact h ra rb ha hb

theorem Apart.of_cidr_eq {a a' b : NamedRange} {r : Range} (h : Apart a b)
    (hr : parseRange a = .ok r) (hcidr : a'.cidr = a.cidr) : Apart a' b := by
  intro ra' rb ha' hb
  have hnet : ra'.network = r.network := network_eq_of_cidr_eq ha' hr hcidr
  have hover := h r rb hr hb
  unfold rangesOverlap at hover ⊢
  rw [hnet]
  exact hover

namespace Laid

variable {space : Prefix} {nr : NamedRange} {ranges ranges' : List NamedRange}

theorem perm (h : ranges.Perm ranges') : Laid space ranges ↔ Laid space ranges' := by
  constructor
  · rintro ⟨hf, hn, ha⟩
    exact ⟨fun nr hnr => hf nr (h.mem_iff.mpr hnr), (h.map _).nodup_iff.mp hn,
      h.pairwise ha Apart.symm⟩
  · rintro ⟨hf, hn, ha⟩
    exact ⟨fun nr hnr => hf nr (h.mem_iff.mp hnr), (h.map _).nodup_iff.mpr hn,
      h.symm.pairwise ha Apart.symm⟩

theorem cons_iff : Laid space (nr :: ranges) ↔
    Fits space nr ∧ (∀ other ∈ ranges, other.name ≠ nr.name ∧ Apart nr other) ∧
      Laid space ranges := by
  constructor
  · rintro ⟨hf, hn, ha⟩
    rw [map_cons, nodup_cons] at hn
    rw [pairwise_cons] at ha
    refine ⟨hf nr mem_cons_self, ?_, fun other h => hf other (mem_cons_of_mem nr h),
      hn.2, ha.2⟩
    intro other hother
    exact ⟨fun heq => hn.1 (heq ▸ mem_map_of_mem hother), ha.1 other hother⟩
  · rintro ⟨hf, hothers, hl⟩
    refine ⟨?_, ?_, pairwise_cons.mpr ⟨fun other h => (hothers other h).2, hl.apart⟩⟩
    · intro other hother
      rcases mem_cons.mp hother with rfl | h
      · exact hf
      · exact hl.fits other h
    · rw [map_cons, nodup_cons]
      refine ⟨?_, hl.names⟩
      intro hmem
      obtain ⟨other, hother, heq⟩ := mem_map.mp hmem
      exact (hothers other hother).1 heq

end Laid

variable {space : Prefix} {i : Nat} {seen : List String}

theorem namedRangeFindings_eq_nil
    {nr : NamedRange} :
    namedRangeFindings (some space) i seen nr = [] ↔ Fits space nr ∧ nr.name ∉ seen := by
  unfold namedRangeFindings Fits
  cases h : parseRange nr with
  | error err => simp
  | ok r => simp [and_comm]

variable {ranges : List NamedRange}

theorem rangeFindings_eq_nil :
    rangeFindings (some space) i seen ranges = [] ↔
      (∀ nr ∈ ranges, Fits space nr ∧ nr.name ∉ seen) ∧ (ranges.map (·.name)).Nodup := by
  induction ranges generalizing i seen with
  | nil => simp [rangeFindings]
  | cons nr rest ih =>
    rw [rangeFindings, append_eq_nil_iff, namedRangeFindings_eq_nil, ih]
    simp only [mem_cons, not_or, forall_eq_or_imp, map_cons, nodup_cons,
      mem_map, not_exists, not_and]
    constructor
    · rintro ⟨hnr, hrest, hn⟩
      exact ⟨⟨hnr, fun x hx => ⟨(hrest x hx).1, (hrest x hx).2.2⟩⟩,
        fun x hx => (hrest x hx).2.1, hn⟩
    · rintro ⟨⟨hnr, hrest⟩, hne, hn⟩
      exact ⟨hnr, fun x hx => ⟨(hrest x hx).1, hne x hx, (hrest x hx).2⟩, hn⟩

theorem overlapFindings_eq_nil {ranges : List Range} :
    overlapFindings ranges = [] ↔ ranges.Pairwise fun a b => rangesOverlap a b = false := by
  induction ranges with
  | nil => simp [overlapFindings]
  | cons a rest ih => simp [overlapFindings, ih, filter_eq_nil_iff]

theorem pairwise_validRanges :
    ((validRanges ranges).Pairwise fun a b => rangesOverlap a b = false) ↔
      ranges.Pairwise Apart := by
  have hsome : ∀ {nr : NamedRange} {r : Range},
      (parseRange nr).toOption = some r ↔ parseRange nr = .ok r := by
    intro nr r
    cases parseRange nr <;> simp [Except.toOption]
  unfold validRanges Apart
  rw [pairwise_filterMap]
  simp only [hsome]
  exact Pairwise.iff fun a b => ⟨fun h ra rb ha hb => h ra ha rb hb,
    fun h ra ha rb hb => h ra rb ha hb⟩

theorem severity_overlayFindings {o : OverlayConfig} {f : Finding} (h : f ∈ overlayFindings o) :
    f.severity = .error := by
  have hite : ∀ {P : Prop} [Decidable P] {field : String} {message : Message},
      (f ∈ if P then [Finding.mk field message .error] else []) → f.severity = .error := by
    intro P _ field message hf
    split at hf
    · cases mem_singleton.mp hf
      rfl
    · cases hf
  have hrange : ∀ {space i seen nr}, f ∈ namedRangeFindings space i seen nr →
      f.severity = .error := by
    intro space i seen nr hf
    unfold namedRangeFindings at hf
    cases hr : parseRange nr with
    | error err =>
      rw [hr] at hf
      rcases mem_append.mp hf with hf | hf
      · exact hite hf
      · cases mem_singleton.mp hf
        rfl
    | ok r =>
      rw [hr] at hf
      rcases mem_append.mp hf with hf | hf
      · exact (mem_append.mp hf).elim hite hite
      · exact hite hf
  have hranges : ∀ {space i seen ranges}, f ∈ rangeFindings space i seen ranges →
      f.severity = .error := by
    intro space i seen ranges hf
    induction ranges generalizing i seen with
    | nil => cases hf
    | cons nr rest ih =>
      rcases mem_append.mp hf with hnr | hrest
      · exact hrange hnr
      · exact ih hrest
  have hoverlap : ∀ {ranges}, f ∈ overlapFindings ranges → f.severity = .error := by
    intro ranges hf
    induction ranges with
    | nil => cases hf
    | cons a rest ih =>
      rcases mem_append.mp hf with ha | hrest
      · obtain ⟨b, -, rfl⟩ := mem_map.mp ha
        rfl
      · exact ih hrest
  unfold overlayFindings at h
  rcases mem_append.mp h with h | h
  · exact (mem_append.mp h).elim hite hranges
  · exact hoverlap h

theorem errorFree_validateTopology {t : Topology} :
    ErrorFree (validateTopology t) ↔ (∃ space, parsePrefix t.overlay.space = some space ∧
        Laid space.masked t.overlay.ranges) ∧ ErrorFree (nodeFindings t) := by
  have hoverlay : ErrorFree (overlayFindings t.overlay) ↔ overlayFindings t.overlay = [] := by
    constructor
    · intro h
      exact eq_nil_iff_forall_not_mem.mpr fun f hf => h f hf (severity_overlayFindings hf)
    · intro h f hf
      rw [h] at hf
      cases hf
  have happend : ErrorFree (validateTopology t) ↔
      ErrorFree (overlayFindings t.overlay) ∧ ErrorFree (nodeFindings t) :=
    forall_mem_append
  rw [happend, hoverlay]
  refine and_congr_left' ?_
  unfold overlayFindings
  cases hspace : parsePrefix t.overlay.space with
  | none => simp
  | some space =>
    simp only [Option.map_some, reduceCtorEq, if_false, nil_append,
      append_eq_nil_iff, rangeFindings_eq_nil, overlapFindings_eq_nil, pairwise_validRanges,
      not_mem_nil, not_false_eq_true, and_true, Option.some.injEq, exists_eq_left']
    constructor
    · rintro ⟨⟨hf, hn⟩, ha⟩
      exact ⟨hf, hn, ha⟩
    · rintro ⟨hf, hn, ha⟩
      exact ⟨⟨hf, hn⟩, ha⟩

end AwgMesh.TopologyV1
