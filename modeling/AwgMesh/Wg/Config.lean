import AwgMesh.Float64
import AwgMesh.Net.Spelling
import AwgMesh.Wg.Key

/-! # Device configurations and their texts -/

namespace AwgMesh.Wg.Text

open Net ByteText List

structure UDPAddr where
  ip : Bytes
  port : Int64
  zone : Bytes := []
  deriving DecidableEq

structure IPNet where
  ip : Bytes
  mask : Bytes
  deriving DecidableEq

structure PeerConfig where
  publicKey : Key := .zero
  remove : Bool := false
  updateOnly : Bool := false
  presharedKey : Option Key := none
  endpoint : Option UDPAddr := none
  persistentKeepaliveInterval : Option Int64 := none
  replaceAllowedIPs : Bool := false
  allowedIPs : List IPNet := []
  deriving DecidableEq

structure Config where
  privateKey : Option Key := none
  listenPort : Option Int64 := none
  firewallMark : Option Int64 := none
  replacePeers : Bool := false
  peers : List PeerConfig := []
  jc : Option Int64 := none
  jmin : Option Int64 := none
  jmax : Option Int64 := none
  s1 : Option Int64 := none
  s2 : Option Int64 := none
  s3 : Option Int64 := none
  s4 : Option Int64 := none
  h1 : Option Bytes := none
  h2 : Option Bytes := none
  h3 : Option Bytes := none
  h4 : Option Bytes := none
  i1 : Option Bytes := none
  i2 : Option Bytes := none
  i3 : Option Bytes := none
  i4 : Option Bytes := none
  i5 : Option Bytes := none
  deriving DecidableEq

/-! ## Numbers and addresses as text -/

def intText (n : Int64) : Bytes := ascii (itoa n.toInt)

def readInt (b : Bytes) : Option Int64 := (atoi (chars b)).map Int64.ofInt

def number (b : Bytes) : Nat := b.foldl (fun n x => n * 256 + x.toNat) 0

def ipText (ip : Bytes) : Bytes :=
  if ip = [] then ascii "<nil>"
  else if ip.length = 4 then ascii (ipString (Addr.v4 (BitVec.ofNat 32 (number ip))).as16)
  else if ip.length = 16 then ascii (ipString (BitVec.ofNat 128 (number ip)))
  else ascii "?" ++ hexEncode ip

def to4 (ip : Bytes) : Option Bytes :=
  if ip.length = 4 then some ip
  else if ip.length = 16 ∧ ip.take 12 = [0, 0, 0, 0, 0, 0, 0, 0, 0, 0, 0xff, 0xff] then
    some (ip.drop 12)
  else none

def IPNet.numberAndMask (n : IPNet) : Option (Bytes × Bytes) :=
  match to4 n.ip with
  | some ip =>
    if n.mask.length = 4 then some (ip, n.mask)
    else if n.mask.length = 16 then some (ip, n.mask.drop 12)
    else none
  | none => if n.ip.length = 16 ∧ n.mask.length = 16 then some (n.ip, n.mask) else none

def leadingOnes (v : UInt8) : Nat :=
  ((range 8).takeWhile fun i => v.toNat.testBit (7 - i)).length

def simpleMaskLength : Bytes → Option Nat
  | [] => some 0
  | v :: rest =>
    if v = 0xff then (simpleMaskLength rest).map (8 + ·)
    else if v.toNat * 2 ^ leadingOnes v % 256 = 0 ∧ rest.all (· = 0) then some (leadingOnes v)
    else none

def IPNet.text (n : IPNet) : Bytes :=
  match n.numberAndMask with
  | none => ascii "<nil>"
  | some (ip, mask) =>
    match simpleMaskLength mask with
    | none => ipText ip ++ ascii "/" ++ hexEncode mask
    | some ones => ipText ip ++ ascii "/" ++ ascii (digitString 10 ones)

def joinHostPort (host port : Bytes) : Bytes :=
  if 0x3a ∈ host then ascii "[" ++ host ++ ascii "]:" ++ port else host ++ ascii ":" ++ port

def ipEmptyText (ip : Bytes) : Bytes := if ip = [] then [] else ipText ip

def UDPAddr.text (a : UDPAddr) : Bytes :=
  if a.zone ≠ [] then joinHostPort (ipEmptyText a.ip ++ ascii "%" ++ a.zone) (intText a.port)
  else joinHostPort (ipEmptyText a.ip) (intText a.port)

/-! ## Reading and measuring the texts -/

theorem isInt64_toInt (n : Int64) : isInt64 n.toInt := ⟨n.le_toInt, n.toInt_lt⟩

theorem range_of_hexDigit {c : Char} (h : (hexDigit c).isSome = true) :
    0x2d ≤ c.toNat ∧ c.toNat ≤ 0x7e := by
  unfold hexDigit at h
  have hle : ∀ a b : Char, a ≤ b ↔ a.toNat ≤ b.toNat := fun a b => Iff.rfl
  simp only [hle] at h
  split at h
  · next hc => exact ⟨le_trans (by decide) hc.1, le_trans hc.2 (by decide)⟩
  · split at h
    · next hc => exact ⟨le_trans (by decide) hc.1, le_trans hc.2 (by decide)⟩
    · split at h
      · next hc => exact ⟨le_trans (by decide) hc.1, le_trans hc.2 (by decide)⟩
      · cases h

theorem range_itoa (n : Int) : ∀ c ∈ (itoa n).toList, 0x2d ≤ c.toNat ∧ c.toNat ≤ 0x7e := by
  intro c hc
  rcases itoa_chars n c hc with rfl | hc
  · decide
  · exact range_of_hexDigit hc

theorem readInt_itoa {n : Int} (h : isInt64 n) :
    readInt (ascii (itoa n)) = some (Int64.ofInt n) := by
  have hascii : ∀ c ∈ (itoa n).toList, c.toNat < 256 := fun c hc =>
    lt_of_le_of_lt (range_itoa n c hc).2 (by decide)
  rw [readInt, chars_ascii hascii, atoi_itoa h, Option.map_some]

theorem readInt_intText (n : Int64) : readInt (intText n) = some n := by
  rw [intText, readInt_itoa (isInt64_toInt n), Int64.ofInt_toInt]

theorem length_intText_le (n : Int64) : (intText n).length ≤ 20 := by
  rw [intText, length_ascii]
  exact length_itoa_le (isInt64_toInt n)

theorem IPNet.text_ne_nil (n : IPNet) : n.text ≠ [] := by
  have hnil : ascii "<nil>" ≠ [] := by decide
  have hslash : ascii "/" ≠ [] := by decide
  unfold IPNet.text
  split
  · exact hnil
  · split <;> simp [hslash]

theorem UDPAddr.length_text_le {a : UDPAddr} (hzone : a.zone = [])
    (hip : a.ip.length = 4 ∨ a.ip.length = 16) : a.text.length ≤ 65 := by
  have hhost : (ipEmptyText a.ip).length ≤ 42 := by
    have hne : a.ip ≠ [] := by
      rintro hnil
      simp [hnil] at hip
    rw [ipEmptyText, if_neg hne, ipText, if_neg hne]
    split
    · rw [length_ascii]
      exact length_ipString_le _
    · rw [if_pos (hip.resolve_left ‹_›), length_ascii]
      exact length_ipString_le _
  have hport := length_intText_le a.port
  rw [UDPAddr.text, if_neg (not_not.mpr hzone), joinHostPort]
  split <;> simp only [length_append, length_ascii] <;> simp <;> omega

/-! ## Plain text -/

def Plain (b : Bytes) : Prop := ∀ x ∈ b, 0x2d ≤ x ∧ x ≤ 0x7e

namespace Plain

theorem nil : Plain [] := by simp [Plain]

theorem append {a b : Bytes} (ha : Plain a) (hb : Plain b) : Plain (a ++ b) :=
  forall_mem_append.mpr ⟨ha, hb⟩

theorem visible {b : Bytes} (h : Plain b) : Visible b := fun x hx =>
  ⟨UInt8.le_trans (by decide) (h x hx).1, (h x hx).2⟩

theorem notMem {b : Bytes} (h : Plain b) {x : UInt8} (hx : x < 0x2d ∨ 0x7e < x) : x ∉ b :=
  notMem_of_range h hx

theorem ascii {s : String} (h : ∀ c ∈ s.toList, 0x2d ≤ c.toNat ∧ c.toNat ≤ 0x7e) :
    Plain (ascii s) := by
  intro x hx
  obtain ⟨c, hc, rfl⟩ := mem_map.mp hx
  obtain ⟨hlo, hhi⟩ := h c hc
  rw [UInt8.le_iff_toNat_le, UInt8.le_iff_toNat_le, UInt8.toNat_ofNat', Nat.mod_eq_of_lt (by omega)]
  exact ⟨hlo, hhi⟩

theorem literal {s : String} (h : (s.toList.all fun c => 0x2d ≤ c.toNat ∧ c.toNat ≤ 0x7e) = true) :
    Plain (AwgMesh.ascii s) :=
  Plain.ascii fun c hc => of_decide_eq_true (all_eq_true.mp h c hc)

end Plain

theorem plain_hexEncode (b : Bytes) : Plain (hexEncode b) :=
  hexEncode_forall (by decide) b

theorem plain_hex (k : Key) : Plain k.hex := plain_hexEncode k.bytes

theorem plain_digitString (b n : Nat) : Plain (ascii (digitString b n)) :=
  Plain.ascii fun c hc => range_of_hexDigit (digitString_chars b n c hc)

theorem plain_itoa (n : Int) : Plain (ascii (itoa n)) := Plain.ascii (range_itoa n)

theorem plain_intText (n : Int64) : Plain (intText n) := plain_itoa n.toInt

theorem plain_ipString (ip : BitVec 128) : Plain (ascii (ipString ip)) := by
  refine Plain.ascii ?_
  intro c hc
  have haddr := ipString_chars ip c hc
  simp only [isAddrChar, Bool.or_eq_true, decide_eq_true_eq] at haddr
  rcases haddr with (rfl | rfl) | hdigit
  · decide
  · decide
  · exact range_of_hexDigit hdigit

theorem plain_ipText (ip : Bytes) : Plain (ipText ip) := by
  unfold ipText
  split
  · exact Plain.literal (by decide)
  · split
    · exact plain_ipString _
    · split
      · exact plain_ipString _
      · exact (Plain.literal (by decide)).append (plain_hexEncode ip)

theorem IPNet.plain_text (n : IPNet) : Plain n.text := by
  unfold IPNet.text
  split
  · exact Plain.literal (by decide)
  · have hfront : ∀ ip, Plain (ipText ip ++ ascii "/") := fun ip =>
      (plain_ipText ip).append (Plain.literal (by decide))
    split
    · exact (hfront _).append (plain_hexEncode _)
    · exact (hfront _).append (plain_digitString _ _)

theorem plain_joinHostPort {host port : Bytes} (hhost : Plain host) (hport : Plain port) :
    Plain (joinHostPort host port) := by
  unfold joinHostPort
  split
  · exact
      (((Plain.literal (by decide)).append hhost).append (Plain.literal (by decide))).append hport
  · exact (hhost.append (Plain.literal (by decide))).append hport

theorem plain_ipEmptyText (ip : Bytes) : Plain (ipEmptyText ip) := by
  unfold ipEmptyText
  split
  · exact Plain.nil
  · exact plain_ipText ip

theorem UDPAddr.plain_text {a : UDPAddr} (h : a.zone = []) : Plain a.text := by
  rw [UDPAddr.text, if_neg (not_not.mpr h)]
  exact plain_joinHostPort (plain_ipEmptyText a.ip) (plain_intText a.port)

theorem lf_mem_joinHostPort {host port : Bytes} (hport : Plain port) :
    lf ∈ joinHostPort host port ↔ lf ∈ host := by
  have hlf : lf ∉ port := hport.notMem (by decide)
  have hglue : lf ∉ ascii "[" ∧ lf ∉ ascii "]:" ∧ lf ∉ ascii ":" := by decide
  unfold joinHostPort
  split <;> simp [hlf, hglue]

theorem UDPAddr.lf_mem_text {a : UDPAddr} : lf ∈ a.text ↔ lf ∈ a.zone := by
  unfold UDPAddr.text
  split
  · have hip : lf ∉ ipEmptyText a.ip := (plain_ipEmptyText a.ip).notMem (by decide)
    have hglue : lf ∉ ascii "%" := by decide
    rw [lf_mem_joinHostPort (plain_intText a.port)]
    simp [hip, hglue]
  · next hzone =>
      rw [not_not.mp hzone]
      have hplain := plain_joinHostPort (plain_ipEmptyText a.ip) (plain_intText a.port)
      exact iff_of_false (hplain.notMem (by decide)) (by simp)

/-!
## Writing a configuration to a device

`writeConfig` of `pkg/wg/uapi.go`.
-/

open Lib

inductive WriteError where
  | publicKeyRequired (peer : Nat)
  | write (key : String) (err : String)

abbrev Write := StateT Bytes (Except WriteError)

variable (fails : Bytes → Option String)

def writeKV (key : String) (value : Bytes) : Write Unit := fun out =>
  match fails out with
  | some err => .error (.write key err)
  | none => .ok ((), out ++ (ascii key ++ ascii "=" ++ value ++ [lf]))

def writeOption {α : Type} (key : String) (text : α → Bytes) : Option α → Write Unit
  | none => pure ()
  | some a => writeKV fails key (text a)

def writeFlag (key : String) (flag : Bool) : Write Unit :=
  if flag then writeKV fails key (ascii "true") else pure ()

/-- The integer fields, without `S3` and `S4`. -/
def Config.intFields (cfg : Config) : List (String × Option Int64) :=
  [("jc", cfg.jc), ("jmin", cfg.jmin), ("jmax", cfg.jmax), ("s1", cfg.s1), ("s2", cfg.s2)]

def Config.stringFields (cfg : Config) : List (String × Option Bytes) :=
  [("h1", cfg.h1), ("h2", cfg.h2), ("h3", cfg.h3), ("h4", cfg.h4), ("i1", cfg.i1), ("i2", cfg.i2),
    ("i3", cfg.i3), ("i4", cfg.i4), ("i5", cfg.i5)]

def keepaliveText (interval : Int64) : Bytes := ascii (itoa (seconds interval.toInt))

def writePeerFields (peer : PeerConfig) : Write Unit := do
  writeKV fails "public_key" peer.publicKey.hex
  writeFlag fails "remove" peer.remove
  writeFlag fails "update_only" peer.updateOnly
  writeOption fails "preshared_key" Key.hex peer.presharedKey
  writeOption fails "endpoint" UDPAddr.text peer.endpoint
  writeOption fails "persistent_keepalive_interval" keepaliveText peer.persistentKeepaliveInterval
  writeFlag fails "replace_allowed_ips" peer.replaceAllowedIPs
  peer.allowedIPs.forM fun allowedIP => writeKV fails "allowed_ip" allowedIP.text

def writePeer (i : Nat) (peer : PeerConfig) : Write Unit :=
  if peer.publicKey.isZero then throw (.publicKeyRequired i) else writePeerFields fails peer

def writePeers : (i : Nat) → List PeerConfig → Write Unit
  | _, [] => pure ()
  | i, peer :: rest => do
      writePeer fails i peer
      writePeers (i + 1) rest

def writeConfig (cfg : Config) : Write Unit := do
  writeOption fails "private_key" Key.hex cfg.privateKey
  writeOption fails "listen_port" intText cfg.listenPort
  writeOption fails "fwmark" intText cfg.firewallMark
  writeFlag fails "replace_peers" cfg.replacePeers
  cfg.intFields.forM fun kv => writeOption fails kv.1 intText kv.2
  cfg.stringFields.forM fun kv => writeOption fails kv.1 id kv.2
  writePeers fails 0 cfg.peers

/-! ## The lines that are meant -/

def kvLine (kv : String × Bytes) : Bytes := ascii kv.1 ++ ascii "=" ++ kv.2

def optionKV {α : Type} (key : String) (text : α → Bytes) (o : Option α) : List (String × Bytes) :=
  o.toList.map fun a => (key, text a)

def flagKV (key : String) (flag : Bool) : List (String × Bytes) :=
  if flag then [(key, ascii "true")] else []

def PeerConfig.meant (peer : PeerConfig) : List (String × Bytes) :=
  [("public_key", peer.publicKey.hex)] ++ flagKV "remove" peer.remove ++
    flagKV "update_only" peer.updateOnly ++ optionKV "preshared_key" Key.hex peer.presharedKey ++
    optionKV "endpoint" UDPAddr.text peer.endpoint ++
    optionKV "persistent_keepalive_interval" keepaliveText peer.persistentKeepaliveInterval ++
    flagKV "replace_allowed_ips" peer.replaceAllowedIPs ++
    peer.allowedIPs.map fun allowedIP => ("allowed_ip", allowedIP.text)

def Config.meant (cfg : Config) : List (String × Bytes) :=
  optionKV "private_key" Key.hex cfg.privateKey ++ optionKV "listen_port" intText cfg.listenPort ++
    optionKV "fwmark" intText cfg.firewallMark ++ flagKV "replace_peers" cfg.replacePeers ++
    cfg.intFields.flatMap (fun kv => optionKV kv.1 intText kv.2) ++
    cfg.stringFields.flatMap (fun kv => optionKV kv.1 id kv.2) ++ cfg.peers.flatMap PeerConfig.meant

/-! ## What is written -/

variable {fails}

def Emits (w : Write Unit) (kvs : List (String × Bytes)) : Prop :=
  ∀ out out', w out = .ok ((), out') → out' = out ++ unlines lf (kvs.map kvLine)

namespace Emits

theorem pure : Emits (pure ()) [] := by
  intro out out' h
  cases h
  simp

theorem throw (err : WriteError) (kvs : List (String × Bytes)) : Emits (throw err) kvs := by
  intro out out' h
  cases h

theorem bind {w w' : Write Unit} {kvs kvs' : List (String × Bytes)} (h : Emits w kvs)
    (h' : Emits w' kvs') : Emits (w >>= fun _ => w') (kvs ++ kvs') := by
  intro out out' hrun
  have hrun : (w out >>= fun p => w' p.2) = .ok ((), out') := hrun
  cases hw : w out with
  | error err =>
    rw [hw] at hrun
    cases hrun
  | ok p =>
    obtain ⟨⟨⟩, mid⟩ := p
    rw [hw] at hrun
    have hmid := h out mid hw
    have hout := h' mid out' hrun
    rw [hout, hmid, map_append, unlines_append, append_assoc]

theorem writeKV (key : String) (value : Bytes) :
    Emits (Text.writeKV fails key value) [(key, value)] := by
  intro out out' h
  unfold Text.writeKV at h
  split at h
  · cases h
  · cases h
    simp [kvLine]

variable {α : Type}

theorem writeOption (key : String) (text : α → Bytes) (o : Option α) :
    Emits (Text.writeOption fails key text o) (optionKV key text o) := by
  cases o with
  | none => exact pure
  | some a => exact writeKV key (text a)

theorem writeFlag (key : String) (flag : Bool) :
    Emits (Text.writeFlag fails key flag) (flagKV key flag) := by
  cases flag with
  | false => exact pure
  | true => exact writeKV key (ascii "true")

theorem forM {w : α → Write Unit} {kvs : α → List (String × Bytes)}
    (h : ∀ a, Emits (w a) (kvs a)) (l : List α) : Emits (l.forM w) (l.flatMap kvs) := by
  induction l with
  | nil => exact pure
  | cons a l ih => exact (h a).bind ih

end Emits

theorem emits_writePeerFields (peer : PeerConfig) :
    Emits (writePeerFields fails peer) peer.meant := by
  have hnets : Emits (peer.allowedIPs.forM fun n => writeKV fails "allowed_ip" n.text)
      (peer.allowedIPs.map fun n => ("allowed_ip", n.text)) := by
    rw [map_eq_flatMap]
    exact Emits.forM (fun n : IPNet => .writeKV "allowed_ip" n.text) _
  unfold writePeerFields PeerConfig.meant
  simp only [append_assoc]
  exact (Emits.writeKV _ _).bind <| (Emits.writeFlag _ _).bind <| (Emits.writeFlag _ _).bind <|
    (Emits.writeOption _ _ _).bind <| (Emits.writeOption _ _ _).bind <|
    (Emits.writeOption _ _ _).bind <| (Emits.writeFlag _ _).bind hnets

theorem emits_writePeers (i : Nat) (peers : List PeerConfig) :
    Emits (writePeers fails i peers) (peers.flatMap PeerConfig.meant) := by
  induction peers generalizing i with
  | nil => exact Emits.pure
  | cons peer rest ih =>
    have hpeer : Emits (writePeer fails i peer) peer.meant := by
      unfold writePeer
      split
      · exact Emits.throw _ _
      · exact emits_writePeerFields peer
    exact hpeer.bind (ih (i + 1))

theorem emits_writeConfig (cfg : Config) : Emits (writeConfig fails cfg) cfg.meant := by
  unfold writeConfig Config.meant
  simp only [append_assoc]
  exact (Emits.writeOption _ _ _).bind <| (Emits.writeOption _ _ _).bind <|
    (Emits.writeOption _ _ _).bind <| (Emits.writeFlag _ _).bind <|
    (Emits.forM (fun kv : String × Option Int64 => .writeOption kv.1 intText kv.2) _).bind <|
    (Emits.forM (fun kv : String × Option Bytes => .writeOption kv.1 id kv.2) _).bind
      (emits_writePeers 0 cfg.peers)

/-! ## Line feeds in values -/

def OneLineEach (kvs : List (String × Bytes)) : Prop := ∀ kv ∈ kvs, lf ∉ kvLine kv

theorem oneLineEach_append {kvs kvs' : List (String × Bytes)} :
    OneLineEach (kvs ++ kvs') ↔ OneLineEach kvs ∧ OneLineEach kvs' :=
  forall_mem_append

variable {key : String}

theorem lf_notMem_kvLine {value : Bytes} (hkey : lf ∉ ascii key) :
    lf ∉ kvLine (key, value) ↔ lf ∉ value := by
  have hequals : lf ∉ ascii "=" := by decide
  simp [kvLine, hkey, hequals]

variable {α : Type} {text : α → Bytes}

theorem oneLineEach_optionKV {o : Option α}
    (hkey : lf ∉ ascii key) : OneLineEach (optionKV key text o) ↔ ∀ a ∈ o, lf ∉ text a := by
  cases o with
  | none => simp [OneLineEach, optionKV]
  | some a => simp [OneLineEach, optionKV, lf_notMem_kvLine hkey]

theorem oneLineEach_flagKV {flag : Bool} (hkey : lf ∉ ascii key) :
    OneLineEach (flagKV key flag) := by
  have htrue : lf ∉ ascii "true" := by decide
  cases flag with
  | false => simp [OneLineEach, flagKV]
  | true => simp [OneLineEach, flagKV, lf_notMem_kvLine hkey, htrue]

theorem oneLineEach_of_plain (hkey : lf ∉ ascii key)
    (h : ∀ a, Plain (text a)) (o : Option α) : OneLineEach (optionKV key text o) :=
  (oneLineEach_optionKV hkey).mpr fun a _ => (h a).notMem (by decide)

theorem PeerConfig.oneLineEach_meant (peer : PeerConfig) :
    OneLineEach peer.meant ↔ ∀ a ∈ peer.endpoint, lf ∉ a.zone := by
  have hkey : OneLineEach [("public_key", peer.publicKey.hex)] :=
    oneLineEach_of_plain (by decide) plain_hex (some peer.publicKey)
  have hpsk : OneLineEach (optionKV "preshared_key" Key.hex peer.presharedKey) :=
    oneLineEach_of_plain (by decide) plain_hex _
  have hkeepalive : OneLineEach (optionKV "persistent_keepalive_interval" keepaliveText
      peer.persistentKeepaliveInterval) :=
    oneLineEach_of_plain (by decide) (fun _ => plain_itoa _) _
  have hnets : OneLineEach (peer.allowedIPs.map fun n => ("allowed_ip", n.text)) := by
    intro kv hkv
    obtain ⟨n, -, rfl⟩ := mem_map.mp hkv
    rw [lf_notMem_kvLine (by decide)]
    exact n.plain_text.notMem (by decide)
  have hendpoint : OneLineEach (optionKV "endpoint" UDPAddr.text peer.endpoint) ↔
      ∀ a ∈ peer.endpoint, lf ∉ a.zone := by
    rw [oneLineEach_optionKV (by decide)]
    simp only [UDPAddr.lf_mem_text]
  unfold PeerConfig.meant
  simp only [oneLineEach_append, hkey, hpsk, hkeepalive, hnets, hendpoint, true_and, and_true,
    oneLineEach_flagKV (show lf ∉ ascii "remove" by decide),
    oneLineEach_flagKV (show lf ∉ ascii "update_only" by decide),
    oneLineEach_flagKV (show lf ∉ ascii "replace_allowed_ips" by decide)]

/-- No string and no zone has a line feed in it. -/
structure Config.LineSafe (cfg : Config) : Prop where
  strings : ∀ kv ∈ cfg.stringFields, ∀ s ∈ kv.2, lf ∉ s
  zones : ∀ peer ∈ cfg.peers, ∀ a ∈ peer.endpoint, lf ∉ a.zone

theorem Config.oneLineEach_meant (cfg : Config) : OneLineEach cfg.meant ↔ cfg.LineSafe := by
  have hprivate : OneLineEach (optionKV "private_key" Key.hex cfg.privateKey) :=
    oneLineEach_of_plain (by decide) plain_hex _
  have hport : OneLineEach (optionKV "listen_port" intText cfg.listenPort) :=
    oneLineEach_of_plain (by decide) plain_intText _
  have hmark : OneLineEach (optionKV "fwmark" intText cfg.firewallMark) :=
    oneLineEach_of_plain (by decide) plain_intText _
  have hints : OneLineEach (cfg.intFields.flatMap fun kv => optionKV kv.1 intText kv.2) := by
    have hkeys : ∀ kv ∈ cfg.intFields, lf ∉ ascii kv.1 := by
      simp only [Config.intFields, forall_mem_cons]
      decide
    intro line hline
    obtain ⟨kv, hkv, hmem⟩ := mem_flatMap.mp hline
    exact oneLineEach_of_plain (hkeys kv hkv) plain_intText kv.2 line hmem
  have hstrings : OneLineEach (cfg.stringFields.flatMap fun kv => optionKV kv.1 id kv.2) ↔
      ∀ kv ∈ cfg.stringFields, ∀ s ∈ kv.2, lf ∉ s := by
    have hkeys : ∀ kv ∈ cfg.stringFields, lf ∉ ascii kv.1 := by
      simp only [Config.stringFields, forall_mem_cons]
      decide
    unfold OneLineEach
    rw [forall_mem_flatMap]
    exact forall₂_congr fun kv hkv => oneLineEach_optionKV (hkeys kv hkv)
  have hpeers : OneLineEach (cfg.peers.flatMap PeerConfig.meant) ↔
      ∀ peer ∈ cfg.peers, ∀ a ∈ peer.endpoint, lf ∉ a.zone := by
    unfold OneLineEach
    rw [forall_mem_flatMap]
    exact forall₂_congr fun peer _ => peer.oneLineEach_meant
  unfold Config.meant
  simp only [oneLineEach_append, hprivate, hport, hmark, hints, hstrings, hpeers, true_and,
    oneLineEach_flagKV (show lf ∉ ascii "replace_peers" by decide)]
  exact ⟨fun h => ⟨h.1, h.2⟩, fun h => ⟨h.strings, h.zones⟩⟩

/-! ## Integrity -/

/-- Split at its line feeds, the output is the lines that were meant. -/
def Integrity (cfg : Config) (out : Bytes) : Prop := out.splitOn lf = cfg.meant.map kvLine ++ [[]]

theorem writeConfig_integrity {cfg : Config} {out : Bytes}
    (h : writeConfig fails cfg [] = .ok ((), out)) : Integrity cfg out ↔ cfg.LineSafe := by
  have hout := emits_writeConfig cfg [] out h
  rw [nil_append] at hout
  rw [Integrity, hout, splitOn_unlines_iff, forall_mem_map]
  exact cfg.oneLineEach_meant

end AwgMesh.Wg.Text
