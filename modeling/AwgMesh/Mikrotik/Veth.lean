import AwgMesh.Net.Spelling

/-!
# Addresses of the container

The veth, bridge and NAT commands of `pkg/mikrotik/commands.go`.
-/

namespace AwgMesh.Mikrotik

open Net

inductive AddrText where
  | addr (a : Addr)
  | raw (s : String)
  deriving DecidableEq

/-- `netip.Addr.String` -/
def addrString : Addr → String
  | .v4 bits => ipString (Addr.v4 bits).as16
  | .v6 bits zone =>
    (if (to4 bits).isSome then "::ffff:" ++ ipString bits else ipString bits) ++
      if zone = "" then "" else "%" ++ zone

def AddrText.string : AddrText → String
  | .addr a => addrString a
  | .raw s => s

inductive PrefixText where
  | bits (a : Addr) (ones : Nat)
  | raw (s : String)
  deriving DecidableEq

def PrefixText.string : PrefixText → String
  | .bits a ones => addrString a ++ "/" ++ itoa ones
  | .raw s => s

def defaultVethPrefixBits : Nat := 24

def defaultVethSubnet : PrefixText := .bits (.v4 0x647f0000#32) 24

def defaultVethAddress : PrefixText := .bits (.v4 0x647f0002#32) 24

def defaultVethGateway : AddrText := .addr (.v4 0x647f0001#32)

def localAddr (gateway : BitVec 32) : BitVec 32 :=
  let last := gateway.toNat % 256
  BitVec.ofNat 32 (gateway.toNat - last + if last > 1 then last - 1 else 1)

def Prefix.ones : Prefix → Nat
  | .v4 _ ones => ones
  | .v6 _ ones => ones

def deriveVethAddressAndGateway (gateway : String) : PrefixText × AddrText :=
  let trimmed := AwgMesh.trimSpace gateway
  if trimmed = "" then (defaultVethAddress, defaultVethGateway)
  else match parsePrefix trimmed with
    | some p => (.bits (p.addr.next.getD p.addr) (Prefix.ones p), .addr p.addr)
    | none =>
      match parseAddr trimmed with
      | none =>
        if '/' ∈ trimmed.toList then
          (.raw trimmed,
            .raw (AwgMesh.trimSpace (String.ofList (trimmed.toList.takeWhile (· ≠ '/')))))
        else (.raw (trimmed ++ "/24"), .raw trimmed)
      | some (.v6 bits zone) => (.bits (.v6 bits zone) 64, .addr (.v6 bits zone))
      | some (.v4 bits) => (.bits (.v4 (localAddr bits)) defaultVethPrefixBits, .addr (.v4 bits))

/-- `deriveSubnetCIDR` reads the text of the gateway again. -/
def deriveSubnetCIDR (gateway : String) : PrefixText :=
  match parseAddr (AwgMesh.trimSpace gateway) with
  | none => defaultVethSubnet
  | some (.v4 bits) =>
    .bits (.v4 (bits &&& maskBits 32 defaultVethPrefixBits)) defaultVethPrefixBits
  | some (.v6 bits _) =>
    .bits (.v6 (bits &&& maskBits 128 defaultVethPrefixBits) "") defaultVethPrefixBits

def quoteRouterOSValue (value : String) : String :=
  "\"" ++ String.ofList (value.toList.flatMap fun c =>
    if c = '\\' then ['\\', '\\'] else if c = '"' then ['\\', '"'] else [c]) ++ "\""

def escapeRouterOSToken (value : String) : String :=
  let trimmed := AwgMesh.trimSpace value
  if trimmed = "" then "\"\""
  else if trimmed.toList.any fun c => c = ' ' || c = '\t' || c = '"' || c = '\'' then
    quoteRouterOSValue trimmed
  else trimmed

def bridgeCommand (address bridge : String) : String :=
  "/ip/address/add address=" ++ address ++ " interface=" ++ bridge ++ " comment=" ++
    quoteRouterOSValue "awg-mesh container gateway"

def generateBridgeCommands (bridgeName vethName gateway : String) : List String :=
  let safeBridge := escapeRouterOSToken (if bridgeName = "" then "BR_AWG_MESH" else bridgeName)
  ["/interface/bridge/add name=" ++ safeBridge ++ " comment=" ++
      quoteRouterOSValue "awg-mesh container bridge",
    bridgeCommand (escapeRouterOSToken (deriveVethAddressAndGateway gateway).2.string ++ "/" ++
      itoa defaultVethPrefixBits) safeBridge,
    "/interface/bridge/port add bridge=" ++ safeBridge ++ " interface=" ++
      escapeRouterOSToken vethName]

def masqueradeNetwork (gateway : String) : PrefixText :=
  deriveSubnetCIDR (deriveVethAddressAndGateway gateway).2.string

def masqueradeCommand (network : String) : String :=
  "/ip/firewall/nat add chain=srcnat action=masquerade src-address=" ++ network ++ " comment=" ++
    quoteRouterOSValue "awg-mesh: container masquerade"

def generateNATCommands (gateway : String) (grpcPort : Int) : List String :=
  masqueradeCommand (escapeRouterOSToken (masqueradeNetwork gateway).string) ::
  if grpcPort > 0 then
    let vethAddr := (deriveVethAddressAndGateway gateway).1.string
    ["/ip/firewall/nat add chain=dstnat protocol=tcp dst-port=" ++ itoa grpcPort ++
      " action=dst-nat to-addresses=" ++
      escapeRouterOSToken (String.ofList (vethAddr.toList.takeWhile (· ≠ '/'))) ++ " to-ports=" ++
      itoa grpcPort ++ " comment=" ++ quoteRouterOSValue "awg-mesh: gRPC management port"]
  else []

def vethCommand (name address gateway : String) : String :=
  "/interface/veth add name=" ++ name ++ " address=" ++ address ++ " gateway=" ++ gateway

def generateVethCommands (name gateway : String) : List String :=
  [vethCommand (escapeRouterOSToken name)
    (escapeRouterOSToken (deriveVethAddressAndGateway gateway).1.string)
    (escapeRouterOSToken (deriveVethAddressAndGateway gateway).2.string)]

/-- An address of the gateway's network, and not that of the network or the broadcast. -/
def UsableHost (gateway : BitVec 32) (ones : Nat) (a : BitVec 32) : Prop :=
  a.toNat / 2 ^ (32 - ones) = gateway.toNat / 2 ^ (32 - ones) ∧
    a.toNat % 2 ^ (32 - ones) ≠ 0 ∧ a.toNat % 2 ^ (32 - ones) ≠ 2 ^ (32 - ones) - 1

/-- The commands for the veth, the bridge and the NAT rule give one network, in which the container
and the gateway have addresses of their own. -/
def ConsistentAddressing (gateway : String) : Prop :=
  ∃ container router network ones,
    deriveVethAddressAndGateway gateway = (.bits (.v4 container) ones, .addr (.v4 router)) ∧
    masqueradeNetwork gateway = .bits (.v4 network) ones ∧
    (∀ name, generateVethCommands name gateway = [vethCommand (escapeRouterOSToken name)
      (PrefixText.bits (.v4 container) ones).string (addrString (.v4 router))]) ∧
    (∀ bridge veth, bridge ≠ "" → (generateBridgeCommands bridge veth gateway)[1]? = some
      (bridgeCommand (PrefixText.bits (.v4 router) ones).string (escapeRouterOSToken bridge))) ∧
    (∀ port, (generateNATCommands gateway port).head? = some
      (masqueradeCommand (PrefixText.bits (.v4 network) ones).string)) ∧
    container ≠ router ∧ UsableHost router ones container

/-! ## The texts of the addresses -/

theorem escapeRouterOSToken_eq_self {s : String} (hne : s ≠ "")
    (hs : ∀ c ∈ s.toList, isAddrChar c = true ∨ c = '/' ∨ c = '-') :
    escapeRouterOSToken s = s := by
  have hspace : ∀ c ∈ s.toList, isSpace c = false := by
    intro c hc
    rcases hs c hc with haddr | rfl | rfl
    · exact not_isSpace_of_isAddrChar haddr
    · decide
    · decide
  rw [escapeRouterOSToken, trimSpace_eq_self hspace, if_neg hne, if_neg]
  simp only [List.any_eq_true, Bool.or_eq_true, decide_eq_true_eq]
  rintro ⟨c, hc, ((rfl | rfl) | rfl) | rfl⟩ <;> exact absurd (hs _ hc) (by decide)

theorem escape_bits (bits : BitVec 32) (ones : Nat) :
    escapeRouterOSToken (PrefixText.bits (.v4 bits) ones).string =
      (PrefixText.bits (.v4 bits) ones).string := by
  refine escapeRouterOSToken_eq_self (by simp [PrefixText.string]) ?_
  rw [PrefixText.string, String.toList_append, String.toList_append, List.forall_mem_append,
    List.forall_mem_append]
  refine ⟨⟨fun c hc => .inl (ipString_chars _ c hc), by simp⟩, fun c hc => ?_⟩
  rcases itoa_chars _ c hc with rfl | hhex
  · decide
  · simp [isAddrChar, hhex]

theorem toNat_localAddr (a : BitVec 32) : (localAddr a).toNat =
    a.toNat - a.toNat % 256 + if a.toNat % 256 > 1 then a.toNat % 256 - 1 else 1 := by
  have := a.isLt
  rw [localAddr, BitVec.toNat_ofNat, Nat.mod_eq_of_lt]
  split <;> omega

theorem parsePrefix_v4 {s : String} {bits : BitVec 32} {ones : Fin 33}
    (h : parsePrefix s = some (.v4 bits ones)) : ∃ t, parseAddr t = some (.v4 bits) := by
  unfold parsePrefix at h
  split at h
  · cases h
  · dsimp only at h
    split at h
    · cases h
    · next bits' haddr =>
        obtain ⟨_, -, hbits⟩ := Option.map_eq_some_iff.mp h
        cases hbits
        exact ⟨_, haddr⟩
    · split at h
      · cases h
      · obtain ⟨_, -, hbits⟩ := Option.map_eq_some_iff.mp h
        cases hbits

theorem consistent_iff_of_derived {gateway s : String} {container router : BitVec 32} {ones : Nat}
    (hs : parseAddr s = some (.v4 router))
    (h : deriveVethAddressAndGateway gateway = (.bits (.v4 container) ones, .addr (.v4 router))) :
    ConsistentAddressing gateway ↔ ones = 24 ∧ container.toNat ≠ router.toNat ∧
      container.toNat / 256 = router.toNat / 256 ∧ container.toNat % 256 ≠ 0 ∧
      container.toNat % 256 ≠ 255 := by
  have htext : addrString (.v4 router) = s := ipString_of_parseAddr hs
  have hchars : ∀ c ∈ s.toList, isAddrChar c = true := htext ▸ ipString_chars _
  have hnetwork : masqueradeNetwork gateway =
      .bits (.v4 (router &&& maskBits 32 defaultVethPrefixBits)) defaultVethPrefixBits := by
    rw [masqueradeNetwork, h, AddrText.string, htext, deriveSubnetCIDR,
      trimSpace_eq_self fun c hc => not_isSpace_of_isAddrChar (hchars c hc), hs]
  have hescape : escapeRouterOSToken (addrString (.v4 router)) = addrString (.v4 router) := by
    rw [htext]
    refine escapeRouterOSToken_eq_self ?_ fun c hc => .inl (hchars c hc)
    rintro rfl
    cases hs
  constructor
  · rintro ⟨container', router', network, ones', hderive, hmasquerade, -, -, -, hne, hhost⟩
    cases h.symm.trans hderive
    cases hnetwork.symm.trans hmasquerade
    exact ⟨rfl, fun heq => hne (BitVec.eq_of_toNat_eq heq), hhost⟩
  · rintro ⟨rfl, hne, hhost⟩
    refine ⟨container, router, _, 24, h, hnetwork, fun name => ?_, fun bridge veth hbridge => ?_,
      fun port => ?_, fun heq => hne (congrArg _ heq), hhost⟩
    · rw [generateVethCommands, h, AddrText.string, hescape, escape_bits]
    · rw [generateBridgeCommands, h, AddrText.string, hescape, if_neg hbridge]
      rfl
    · rw [generateNATCommands, hnetwork, escape_bits]
      rfl

/-- **When the addresses fit**. -/
theorem consistentAddressing_iff (gateway : String) :
    (∀ bits ones, parsePrefix (AwgMesh.trimSpace gateway) = some (.v4 bits ones) →
      (ConsistentAddressing gateway ↔ ones.val = 24 ∧ bits.toNat % 256 ≤ 253)) ∧
    (∀ bits, parsePrefix (AwgMesh.trimSpace gateway) = none →
      parseAddr (AwgMesh.trimSpace gateway) = some (.v4 bits) →
      (ConsistentAddressing gateway ↔ bits.toNat % 256 ≠ 1)) := by
  refine ⟨fun bits ones h => ?_, fun bits hprefix h => ?_⟩
  · have hne : AwgMesh.trimSpace gateway ≠ "" := by
      intro hempty
      rw [hempty, show parsePrefix "" = none by decide +kernel] at h
      cases h
    obtain ⟨_, haddr⟩ := parsePrefix_v4 h
    have hlt := bits.isLt
    by_cases hlast : bits + 1#32 = 0#32
    · have hderive : deriveVethAddressAndGateway gateway =
          (.bits (.v4 bits) ones, .addr (.v4 bits)) := by
        simp [deriveVethAddressAndGateway, hne, h, Prefix.addr, Addr.next, hlast, Prefix.ones]
      have hmax : bits.toNat = 2 ^ 32 - 1 := by bv_omega
      rw [consistent_iff_of_derived haddr hderive]
      omega
    · have hderive : deriveVethAddressAndGateway gateway =
          (.bits (.v4 (bits + 1#32)) ones, .addr (.v4 bits)) := by
        simp [deriveVethAddressAndGateway, hne, h, Prefix.addr, Addr.next, hlast, Prefix.ones]
      have hnext : (bits + 1#32).toNat = bits.toNat + 1 := by bv_omega
      rw [consistent_iff_of_derived haddr hderive, hnext]
      omega
  · have hne : AwgMesh.trimSpace gateway ≠ "" := by
      intro hempty
      rw [hempty, show parseAddr "" = none by decide +kernel] at h
      cases h
    have hderive : deriveVethAddressAndGateway gateway =
        (.bits (.v4 (localAddr bits)) 24, .addr (.v4 bits)) := by
      simp [deriveVethAddressAndGateway, hne, h, hprefix, defaultVethPrefixBits]
    rw [consistent_iff_of_derived h hderive, toNat_localAddr]
    split <;> omega

theorem consistentAddressing_second :
    ConsistentAddressing " 10.0.0.2" ∧ ConsistentAddressing "10.0.0.1/24" ∧
      ¬ ConsistentAddressing "10.0.0.1/30" := by
  refine ⟨((consistentAddressing_iff _).2 0x0a000002#32 ?_ ?_).mpr (by decide),
    ((consistentAddressing_iff _).1 0x0a000001#32 24 ?_).mpr (by decide),
    fun h => absurd (((consistentAddressing_iff _).1 0x0a000001#32 30 ?_).mp h) (by decide)⟩
  all_goals decide +kernel

/-- The gateway `10.0.0.1`: the container gets the address of the gateway. -/
theorem container_has_gateway_address :
    deriveVethAddressAndGateway "10.0.0.1" =
        (.bits (.v4 0x0a000001#32) 24, .addr (.v4 0x0a000001#32)) ∧
      ¬ ConsistentAddressing "10.0.0.1" := by
  have hderive : deriveVethAddressAndGateway "10.0.0.1" =
      (.bits (.v4 0x0a000001#32) 24, .addr (.v4 0x0a000001#32)) := by
    decide +kernel
  have hread : parseAddr "10.0.0.1" = some (.v4 0x0a000001#32) := by decide +kernel
  exact ⟨hderive, fun h => ((consistent_iff_of_derived hread hderive).mp h).2.1 rfl⟩

end AwgMesh.Mikrotik
