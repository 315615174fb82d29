import Mathlib.Data.List.Nodup
import AwgMesh.Lib.Checks
import AwgMesh.Topology.V1

/-!
# What a master lets an endpoint send from

`BuildAllowedIPsForMasterPeer` of `pkg/topology/allowedips.go`: the transport subnet, the endpoint's
own address as a network of one host, and either the range named `endpoints` or the addresses of the
other endpoints.
-/

namespace AwgMesh.Net

def parseCIDRHost (s : String) : Option (BitVec 128) :=
  (parseCIDR s).bind fun _ =>
    (parseAddr (String.ofList (s.toList.takeWhile (· ≠ '/')))).map Addr.as16

variable {cs : List Char}

theorem dtoiLoop_digits {n m : Nat} (h : dtoiLoop cs n = some (m, [])) :
    ∀ c ∈ cs, '0' ≤ c ∧ c ≤ '9' := by
  induction cs generalizing n with
  | nil => exact nofun
  | cons c rest ih =>
    rw [dtoiLoop] at h
    split at h
    · next hc =>
      split at h
      · cases h
      · exact List.forall_mem_cons.mpr ⟨hc, ih h⟩
    · cases h

theorem dtoi_digits {m : Nat} (h : dtoi cs = some (m, [])) : ∀ c ∈ cs, '0' ≤ c ∧ c ≤ '9' := by
  unfold dtoi at h
  split at h
  · cases h
  · next n rest hloop =>
    split at h
    · cases h
    · cases h
      exact dtoiLoop_digits hloop

theorem toList_slash (s mask : String) :
    (s ++ "/" ++ mask).toList = s.toList ++ '/' :: mask.toList := by
  rw [String.toList_append, String.toList_append, List.append_assoc]
  rfl

theorem parseCIDR_parts {s mask : String} (hs : ∀ c ∈ s.toList, c ≠ '/')
    (h : (parseCIDR (s ++ "/" ++ mask)).isSome) :
    parseCIDRHost (s ++ "/" ++ mask) = (parseAddr s).map Addr.as16 ∧
      ∀ c ∈ mask.toList, '0' ≤ c ∧ c ≤ '9' := by
  have hchars : ∀ c ∈ s.toList, decide (c ≠ '/') = true := fun c hc => decide_eq_true (hs c hc)
  have htake : (s ++ "/" ++ mask).toList.takeWhile (fun c => decide (c ≠ '/')) = s.toList := by
    rw [toList_slash, List.takeWhile_append_of_pos hchars]
    simp
  have hdrop : (s ++ "/" ++ mask).toList.dropWhile (fun c => decide (c ≠ '/')) =
      '/' :: mask.toList := by
    rw [toList_slash, List.dropWhile_append_of_pos hchars]
    simp
  obtain ⟨net, hnet⟩ := Option.isSome_iff_exists.mp h
  refine ⟨?_, ?_⟩
  · rw [parseCIDRHost, hnet, htake, String.ofList_toList]
    rfl
  · unfold parseCIDR at hnet
    rw [hdrop] at hnet
    dsimp only at hnet
    split at hnet
    · next hmask => exact dtoi_digits hmask
    · cases hnet

end AwgMesh.Net

namespace AwgMesh.TopologyV1

open Net Lib.Checks List

/-! ## The function -/

inductive AllowedIPsError where
  | overlayRequired
  | transportRequired
  | invalidTransport (subnet : String)
  | invalidOverlay (ip : String)
  | invalidRange (cidr : String)
  | invalidPeer (ip name : String)
  deriving DecidableEq

def hostCIDR (overlay : String) : Option IPNet :=
  if '/' ∈ overlay.toList then
    (parseCIDRHost overlay).bind fun ip => parseCIDR (ipString ip ++ "/32")
  else parseCIDR (overlay ++ "/32")

def dedupFrom (seen : List String) : List String → List String
  | [] => []
  | s :: rest => if s ∈ seen then dedupFrom seen rest else s :: dedupFrom (s :: seen) rest

def dedup (strings : List String) : List String := dedupFrom [] strings

def Topology.endpointsRange (t : Topology) : Option NamedRange :=
  t.overlay.ranges.find? fun r => equalFold (trimSpace r.name) "endpoints" ∧ trimSpace r.cidr ≠ ""

def peerOverlays (selfName selfOverlay : String) :
    List EndpointNode → Except AllowedIPsError (List String)
  | [] => .ok []
  | e :: rest =>
    if selfName ≠ "" ∧ e.name = selfName then peerOverlays selfName selfOverlay rest
    else if trimSpace e.overlayIP = "" then peerOverlays selfName selfOverlay rest
    else do
      let peer ← require (hostCIDR (trimSpace e.overlayIP)) (.invalidPeer e.overlayIP e.name)
      let others ← peerOverlays selfName selfOverlay rest
      return if peer.string = selfOverlay then others else peer.string :: others

def buildAllowedIPsForMasterPeer (topo : Option Topology)
    (endpointName endpointOverlayIP transportSubnet : String) :
    Except AllowedIPsError (List String) := do
  refuseIf (endpointOverlayIP = "") .overlayRequired
  refuseIf (transportSubnet = "") .transportRequired
  let transport ← require (parseCIDR (trimSpace transportSubnet))
    (.invalidTransport transportSubnet)
  let overlay ← require (hostCIDR (trimSpace endpointOverlayIP)) (.invalidOverlay endpointOverlayIP)
  match topo with
  | none => return [transport.string, overlay.string]
  | some topo =>
    match topo.endpointsRange with
    | some range => do
      let _ ← require (parseCIDR range.cidr) (.invalidRange range.cidr)
      return dedup [transport.string, overlay.string, range.cidr]
    | none => do
      let peers ← peerOverlays (trimSpace endpointName) overlay.string topo.endpoints
      return dedup ([transport.string, overlay.string] ++ peers)

/-! ## Strings without duplicates -/

variable {s : String}

theorem mem_dedupFrom {seen strings : List String} :
    s ∈ dedupFrom seen strings ↔ s ∈ strings ∧ s ∉ seen := by
  induction strings generalizing seen with
  | nil => simp [dedupFrom]
  | cons a rest ih =>
    rw [dedupFrom]
    split
    · grind
    · grind

theorem nodup_dedupFrom (seen strings : List String) : (dedupFrom seen strings).Nodup := by
  induction strings generalizing seen with
  | nil => exact nodup_nil
  | cons a rest ih =>
    rw [dedupFrom]
    split
    · exact ih seen
    · refine nodup_cons.mpr ⟨fun hmem => ?_, ih (a :: seen)⟩
      exact (mem_dedupFrom.mp hmem).2 mem_cons_self

variable {strings : List String}

theorem mem_dedup : s ∈ dedup strings ↔ s ∈ strings := by
  simp [dedup, mem_dedupFrom]

theorem nodup_dedup (strings : List String) : (dedup strings).Nodup := nodup_dedupFrom [] strings

/-! ## IPv4 addresses -/

section

variable {s arg : String} {bits : BitVec 32}

/-- The overlay `s`, plain or in CIDR form. -/
def GivenAs (s arg : String) : Prop :=
  arg = s ∨ ∃ mask, arg = s ++ "/" ++ mask ∧ (parseCIDR arg).isSome

variable (h : parseAddr s = some (.v4 bits))

include h

theorem string_hostNet : (hostNet bits).string = s ++ "/32" := by
  have hnumber : (hostNet bits).numberAndMask = some (.four bits, 32) := rfl
  have hones : digitString 10 32 = "32" := by decide
  rw [IPNet.string, hnumber]
  show ipString (Addr.v4 bits).as16 ++ "/" ++ digitString 10 32 = s ++ "/32"
  rw [ipString_of_parseAddr h, hones, String.append_assoc]
  rfl

theorem chars_of_parseAddr : ∀ c ∈ s.toList, isAddrChar c = true := by
  refine @parseIP_chars s (Addr.v4 bits).as16 ?_
  rw [parseIP, h]

theorem hostCIDR_of_givenAs (harg : GivenAs s arg) :
    hostCIDR (trimSpace arg) = some (hostNet bits) := by
  have hchars := chars_of_parseAddr h
  have hslash : ∀ c ∈ s.toList, c ≠ '/' := fun c hc => ne_slash_of_isAddrChar (hchars c hc)
  obtain rfl | ⟨mask, rfl, hread⟩ := harg
  · rw [trimSpace_eq_self fun c hc => not_isSpace_of_isAddrChar (hchars c hc), hostCIDR,
      if_neg fun hmem => hslash _ hmem rfl]
    exact parseCIDR_dotted h
  · obtain ⟨hhost, hdigits⟩ := parseCIDR_parts hslash hread
    have hplain : ∀ c ∈ (s ++ "/" ++ mask).toList, isSpace c = false := by
      rw [toList_slash, forall_mem_append, forall_mem_cons]
      refine ⟨fun c hc => not_isSpace_of_isAddrChar (hchars c hc), by decide, fun c hc => ?_⟩
      exact not_isSpace_of_isAddrChar (isAddrChar_of_digit (hdigits c hc))
    rw [trimSpace_eq_self hplain, hostCIDR, if_pos (by simp), hhost, h]
    show parseCIDR (ipString (Addr.v4 bits).as16 ++ "/32") = _
    rw [ipString_of_parseAddr h]
    exact parseCIDR_dotted h

def cidrContains (cidr s : String) : Bool :=
  match parseCIDR cidr, parseIP s with
  | some net, some ip => net.contains (.sixteen ip)
  | _, _ => false

def covers (cidrs : List String) (s : String) : Bool := cidrs.any fun cidr => cidrContains cidr s

theorem cidrContains_self : cidrContains (s ++ "/32") s = true := by
  have hip : parseIP s = some (Addr.v4 bits).as16 := by rw [parseIP, h]
  rw [cidrContains, parseCIDR_dotted h, hip]
  exact (isHost_hostNet bits _).mpr (to4_as16 bits)

end

/-! ## The other endpoints -/

theorem nodup_of_uniqueNameFindings {fieldPrefix : String} {i : Nat} {seen names : List String}
    (h : ErrorFree (uniqueNameFindings fieldPrefix i seen names)) :
    names.Nodup ∧ ∀ name ∈ names, name ∉ seen := by
  induction names generalizing i seen with
  | nil => exact ⟨nodup_nil, nofun⟩
  | cons name rest ih =>
    rw [uniqueNameFindings] at h
    split at h
    · exact absurd rfl (h _ mem_cons_self)
    · next hseen =>
      obtain ⟨hnodup, hnew⟩ := ih h
      have hseen : name ∉ seen := by simpa using hseen
      refine ⟨nodup_cons.mpr ⟨fun hmem => ?_, hnodup⟩, forall_mem_cons.mpr ⟨hseen, ?_⟩⟩
      · exact hnew name hmem mem_cons_self
      · exact fun other hother hmem => hnew other hother (mem_cons_of_mem name hmem)

variable {t : Topology}

theorem nodup_endpoint_names (h : ErrorFree (validateTopology t)) :
    (t.endpoints.map (·.name)).Nodup := by
  have hnodes := (errorFree_validateTopology.mp h).2
  unfold nodeFindings at hnodes
  simp only [ErrorFree, forall_mem_append] at hnodes
  exact (nodup_of_uniqueNameFindings hnodes.1.1.1.1.1.1.1.2).1

variable {endpoints : List EndpointNode} {peers : List String}

theorem mem_peerOverlays {selfName selfOverlay entry : String}
    (hv4 : ∀ e ∈ endpoints, isDottedQuad e.overlayIP = true)
    (h : peerOverlays selfName selfOverlay endpoints = .ok peers) :
    entry ∈ peers ↔ ∃ e ∈ endpoints, ¬(selfName ≠ "" ∧ e.name = selfName) ∧
      entry = e.overlayIP ++ "/32" ∧ entry ≠ selfOverlay := by
  induction endpoints generalizing peers with
  | nil =>
    cases h
    simp
  | cons e rest ih =>
    obtain ⟨he, hrest⟩ := forall_mem_cons.mp hv4
    obtain ⟨bits, hbits⟩ := isDottedQuad_iff.mp he
    simp only [mem_cons, exists_eq_or_imp]
    rw [peerOverlays] at h
    split at h
    · next hself =>
      rw [ih hrest h, iff_comm, or_iff_right]
      exact fun hhead => hhead.1 hself
    split at h
    · next hblank =>
      rw [trimSpace_eq_self fun c hc => not_isSpace_of_isAddrChar (chars_of_parseAddr hbits c hc)]
        at hblank
      rw [hblank] at hbits
      cases hbits
    · next hself _ =>
      simp only [bind_eq_ok, require_eq_ok, pure_eq_ok, hostCIDR_of_givenAs hbits (.inl rfl)] at h
      obtain ⟨_, ⟨⟩, others, hothers, rfl⟩ := h
      rw [← ih hrest hothers, string_hostNet hbits]
      split <;> grind

/-! ## What is allowed -/

theorem buildAllowedIPsForMasterPeer_ok {name arg transportSubnet : String} {out : List String}
    (h : buildAllowedIPsForMasterPeer (some t) name arg transportSubnet = .ok out) :
    ∃ transport overlay rest, parseCIDR (trimSpace transportSubnet) = some transport ∧
      hostCIDR (trimSpace arg) = some overlay ∧
      out = dedup ([transport.string, overlay.string] ++ rest) ∧
      ((∃ r, t.endpointsRange = some r ∧ rest = [r.cidr]) ∨ (t.endpointsRange = none ∧
          peerOverlays (trimSpace name) overlay.string t.endpoints = .ok rest)) := by
  simp only [buildAllowedIPsForMasterPeer, bind_eq_ok, refuseIf_eq_ok, require_eq_ok] at h
  obtain ⟨_, _, _, _, transport, htransport, overlay, hoverlay, h⟩ := h
  split at h
  · next r hr =>
    simp only [bind_eq_ok, pure_eq_ok] at h
    obtain ⟨_, _, rfl⟩ := h
    exact ⟨transport, overlay, _, htransport, hoverlay, rfl, .inl ⟨r, hr, rfl⟩⟩
  · next hnone =>
    simp only [bind_eq_ok, pure_eq_ok] at h
    obtain ⟨peers, hpeers, rfl⟩ := h
    exact ⟨transport, overlay, _, htransport, hoverlay, rfl, .inr ⟨hnone, hpeers⟩⟩

/-- **Master-side allowed IPs**. -/
theorem allowed_ips_of_master_peer {t : Topology} {e : EndpointNode} {arg transportSubnet : String}
    {out : List String} (h : ErrorFree (validateTopology t))
    (he : e ∈ t.endpoints) (hv4 : isDottedQuad e.overlayIP = true)
    (hothers : t.endpointsRange = none → trimSpace e.name = e.name ∧
      ∀ other ∈ t.endpoints, isDottedQuad other.overlayIP = true) (harg : GivenAs e.overlayIP arg)
    (hout : buildAllowedIPsForMasterPeer (some t) e.name arg transportSubnet = .ok out) :
    out.Nodup ∧ (∃ transport, parseCIDR (trimSpace transportSubnet) = some transport ∧
        transport.string ∈ out ∧
        ∀ cidr ∈ out, cidr = transport.string ∨ (∃ r, t.endpointsRange = some r ∧ cidr = r.cidr) ∨
          ∃ net a, parseCIDR cidr = some net ∧ net.IsHost a) ∧
      (∃ cidr ∈ out, ∃ net a, parseCIDR cidr = some net ∧ address e.overlayIP = some a ∧
        net.IsHost a) ∧ (∀ r, t.endpointsRange = some r → r.cidr ∈ out) ∧ ∀ other ∈ t.endpoints,
        (∀ r, t.endpointsRange = some r → cidrContains r.cidr other.overlayIP) →
        covers out other.overlayIP := by
  obtain ⟨bits, hbits⟩ := isDottedQuad_iff.mp hv4
  obtain ⟨transport, overlay, rest, htransport, hoverlay, rfl, hrest⟩ :=
    buildAllowedIPsForMasterPeer_ok hout
  cases hoverlay.symm.trans (hostCIDR_of_givenAs hbits harg)
  rw [string_hostNet hbits] at hrest ⊢
  simp only [mem_dedup, cons_append, nil_append, mem_cons]
  refine ⟨nodup_dedup _, ⟨transport, htransport, .inl rfl, ?_⟩,
    ⟨e.overlayIP ++ "/32", .inr (.inl rfl), hostNet bits, bits, parseCIDR_dotted hbits,
      address_of_parseAddr hbits, isHost_hostNet bits⟩, ?_, ?_⟩
  · rintro cidr (rfl | rfl | hcidr)
    · exact .inl rfl
    · exact .inr (.inr ⟨hostNet bits, bits, parseCIDR_dotted hbits, isHost_hostNet bits⟩)
    · rcases hrest with ⟨r, hr, rfl⟩ | ⟨hnone, hpeers⟩
      · exact .inr (.inl ⟨r, hr, mem_singleton.mp hcidr⟩)
      · obtain ⟨-, hv4⟩ := hothers hnone
        obtain ⟨other, hother, -, rfl, -⟩ := (mem_peerOverlays hv4 hpeers).mp hcidr
        obtain ⟨a, ha⟩ := isDottedQuad_iff.mp (hv4 other hother)
        exact .inr (.inr ⟨hostNet a, a, parseCIDR_dotted ha, isHost_hostNet a⟩)
  · rintro r hr
    rcases hrest with ⟨r', hr', rfl⟩ | ⟨hnone, -⟩
    · cases hr.symm.trans hr'
      exact .inr (.inr mem_cons_self)
    · cases hr.symm.trans hnone
  · intro other hother hinside
    refine any_eq_true.mpr ?_
    simp only [mem_dedup, mem_cons]
    rcases hrest with ⟨r, hr, rfl⟩ | ⟨hnone, hpeers⟩
    · exact ⟨r.cidr, .inr (.inr mem_cons_self), hinside r hr⟩
    · obtain ⟨hname, hv4⟩ := hothers hnone
      rw [hname] at hpeers
      obtain ⟨a, ha⟩ := isDottedQuad_iff.mp (hv4 other hother)
      refine ⟨other.overlayIP ++ "/32", .inr ?_, cidrContains_self ha⟩
      by_cases hself : other.name = e.name
      · rw [inj_on_of_nodup_map (nodup_endpoint_names h) hother he hself]
        exact .inl rfl
      · refine or_iff_not_imp_left.mpr fun hne => ?_
        exact (mem_peerOverlays hv4 hpeers).mpr
          ⟨other, hother, fun hskip => hself hskip.2, rfl, hne⟩

def twoEndpoints (ranges : List NamedRange) (space first second a b : String) : Topology :=
  { overlay := { space, ranges }
    endpoints := [{ name := first, overlayIP := a }, { name := second, overlayIP := b }] }

theorem allowed_ips_of_two_endpoints :
    buildAllowedIPsForMasterPeer
        (some (twoEndpoints [] "10.0.0.0/8" "a" "b" "10.1.0.5" "10.2.0.5")) "a" "10.1.0.5/24"
        "10.255.0.1/30" = .ok ["10.255.0.0/30", "10.1.0.5/32", "10.2.0.5/32"] ∧
      covers ["10.255.0.0/30", "10.1.0.5/32", "10.2.0.5/32"] "10.2.0.5" := by
  have hvalid : ErrorFree (validateTopology
      (twoEndpoints [] "10.0.0.0/8" "a" "b" "10.1.0.5" "10.2.0.5")) := by decide +kernel
  have hv4 : ∀ e ∈ (twoEndpoints [] "10.0.0.0/8" "a" "b" "10.1.0.5" "10.2.0.5").endpoints,
      isDottedQuad e.overlayIP = true := by decide +kernel
  have hout : buildAllowedIPsForMasterPeer
      (some (twoEndpoints [] "10.0.0.0/8" "a" "b" "10.1.0.5" "10.2.0.5")) "a" "10.1.0.5/24"
      "10.255.0.1/30" = .ok ["10.255.0.0/30", "10.1.0.5/32", "10.2.0.5/32"] := by decide +kernel
  obtain ⟨-, -, -, -, hcovers⟩ := allowed_ips_of_master_peer hvalid mem_cons_self
    (by decide +kernel) (fun _ => ⟨by decide, hv4⟩) (.inr ⟨"24", rfl, by decide +kernel⟩) hout
  exact ⟨hout, hcovers _ (mem_cons_of_mem _ mem_cons_self) nofun⟩

/-- **What is not covered, and what is too wide**. -/
theorem other_endpoint_not_covered :
    (ErrorFree (validateTopology (twoEndpoints [⟨"endpoints", "10.1.0.0/24", ""⟩] "10.0.0.0/8" "a"
        "b" "10.1.0.5" "10.2.0.5")) ∧
      buildAllowedIPsForMasterPeer (some (twoEndpoints [⟨"endpoints", "10.1.0.0/24", ""⟩]
        "10.0.0.0/8" "a" "b" "10.1.0.5" "10.2.0.5")) "a" "10.1.0.5" "10.255.0.0/30" =
          .ok ["10.255.0.0/30", "10.1.0.5/32", "10.1.0.0/24"] ∧
      covers ["10.255.0.0/30", "10.1.0.5/32", "10.1.0.0/24"] "10.2.0.5" = false) ∧
    (ErrorFree (validateTopology (twoEndpoints [] "fd00::/16" "a" "b" "fd00::1" "fd00:1::1")) ∧
      buildAllowedIPsForMasterPeer (some (twoEndpoints [] "fd00::/16" "a" "b" "fd00::1"
        "fd00:1::1")) "a" "fd00::1" "10.255.0.0/30" =
          .ok ["10.255.0.0/30", "fd00::/32", "fd00:1::/32"]) ∧
    ErrorFree (validateTopology (twoEndpoints [] "10.0.0.0/8" " a" "a" "10.1.0.5" "10.2.0.5")) ∧
      buildAllowedIPsForMasterPeer (some (twoEndpoints [] "10.0.0.0/8" " a" "a" "10.1.0.5"
        "10.2.0.5")) " a" "10.1.0.5" "10.255.0.0/30" = .ok ["10.255.0.0/30", "10.1.0.5/32"] ∧
      covers ["10.255.0.0/30", "10.1.0.5/32"] "10.2.0.5" = false := by
  refine ⟨⟨?_, ?_, ?_⟩, ⟨?_, ?_⟩, ?_, ?_, ?_⟩
  all_goals decide +kernel

end AwgMesh.TopologyV1
