import AwgMesh.Bufio
import AwgMesh.Wg.Config

/-!
# Reading the state of a device

`parseDevice` of `pkg/wg/uapi.go`.
-/

namespace AwgMesh.Wg.Text

open Lib ByteText List

/-- `wg.Peer`; the keepalive is in nanoseconds. -/
structure Peer where
  publicKey : Key
  presharedKey : Key := .zero
  endpoint : Option UDPAddr := none
  persistentKeepaliveInterval : Int64 := 0
  lastHandshakeTime : Option (Int64 × Int64) := none
  receiveBytes : Int64 := 0
  transmitBytes : Int64 := 0
  allowedIPs : List IPNet := []
  protocolVersion : Int64 := 0

structure Device where
  privateKey : Key := .zero
  publicKey : Key := .zero
  listenPort : Int64 := 0
  firewallMark : Int64 := 0
  isAmnezia : Bool := false
  peers : List Peer := []

structure NetParsers where
  resolveUDPAddr : Bytes → Option UDPAddr
  parseCIDR : Bytes → Option IPNet

inductive UapiError where
  | invalidErrno (line : Bytes)
  | errno (n : Int64)
  | invalidLine (line : Bytes)
  | parse (key : String) (value : Bytes)
  | scan (err : ScanError)
  | noErrno

/-! ## Items -/

inductive Item where
  | privateKey (key : Key)
  | publicKey (key : Key)
  | listenPort (n : Int64)
  | fwmark (n : Int64)
  | protocolVersion (n : Int64)
  | endpoint (a : UDPAddr)
  | keepalive (d : Int64)
  | handshakeSec (n : Int64)
  | handshakeNSec (n : Int64)
  | rxBytes (n : Int64)
  | txBytes (n : Int64)
  | allowedIP (n : IPNet)
  | presharedKey (key : Key)
  | amnezia
  | ignored

def parseHexKey (s : Bytes) : Option Key := (hexDecode (ByteText.trimSpace s)).bind Key.ofBytes

theorem parseHexKey_hex (k : Key) : parseHexKey k.hex = some k := by
  rw [parseHexKey, trimSpace_eq_self_iff.mpr (plain_hex k).visible.trimmed, Key.hex,
    hexDecode_hexEncode, Option.bind_some, Key.ofBytes_bytes]

def readAs {α : Type} (key : String) (value : Bytes) (read : Bytes → Option α) (item : α → Item) :
    Except UapiError Item :=
  match read value with
  | some a => .ok (item a)
  | none => .error (.parse key value)

def readInPeer {α : Type} (inPeer : Bool) (key : String) (value : Bytes) (read : Bytes → Option α)
    (item : α → Item) : Except UapiError Item :=
  if inPeer then readAs key value read item else .ok .ignored

def amneziaKeys : List String :=
  ["jc", "jmin", "jmax", "s1", "s2", "s3", "s4", "h1", "h2", "h3", "h4", "i1", "i2", "i3", "i4",
    "i5"]

def readItem (net : NetParsers) (inPeer : Bool) (key value : Bytes) : Except UapiError Item :=
  if key = ascii "private_key" then readAs "private_key" value parseHexKey .privateKey
  else if key = ascii "public_key" then readAs "public_key" value parseHexKey .publicKey
  else if key = ascii "listen_port" then readAs "listen_port" value readInt .listenPort
  else if key = ascii "fwmark" then readAs "fwmark" value readInt .fwmark
  else if key = ascii "protocol_version" then
    readInPeer inPeer "protocol_version" value readInt .protocolVersion
  else if key = ascii "endpoint" then
    readInPeer inPeer "endpoint" value net.resolveUDPAddr .endpoint
  else if key = ascii "persistent_keepalive_interval" then
    readInPeer inPeer "persistent_keepalive_interval" value readInt fun n =>
      .keepalive (n * 1000000000)
  else if key = ascii "last_handshake_time_sec" then
    readInPeer inPeer "last_handshake_time_sec" value readInt .handshakeSec
  else if key = ascii "last_handshake_time_nsec" then
    readInPeer inPeer "last_handshake_time_nsec" value readInt .handshakeNSec
  else if key = ascii "rx_bytes" then readInPeer inPeer "rx_bytes" value readInt .rxBytes
  else if key = ascii "tx_bytes" then readInPeer inPeer "tx_bytes" value readInt .txBytes
  else if key = ascii "allowed_ip" then
    readInPeer inPeer "allowed_ip" value net.parseCIDR .allowedIP
  else if key = ascii "preshared_key" then
    readInPeer inPeer "preshared_key" value parseHexKey .presharedKey
  else if amneziaKeys.any (ascii · = key) then .ok .amnezia
  else .ok .ignored

inductive Line where
  | errno (n : Int64)
  | item (item : Item)

def readLine (net : NetParsers) (inPeer : Bool) (text : Bytes) : Except UapiError Line :=
  let line := ByteText.trimSpace text
  if line = [] then .ok (.item .ignored)
  else match dropWord (ascii "errno=") line with
    | some errnoText =>
      match readInt errnoText with
      | none => .error (.invalidErrno line)
      | some n => .ok (.errno n)
    | none =>
      match cut 0x3d line with
      | none => .error (.invalidLine line)
      | some (key, value) => (readItem net inPeer key value).map .item

/-! ## The parser's state -/

structure ParseState where
  device : Device := {}
  currentPeer : Option Peer := none
  handshakeSec : Int64 := 0
  handshakeNSec : Int64 := 0

def handshakeTime (sec nsec : Int64) : Option (Int64 × Int64) :=
  if sec ≠ 0 ∨ nsec ≠ 0 then some (sec, nsec) else none

namespace ParseState

def commitPeer (st : ParseState) : ParseState :=
  match st.currentPeer with
  | none => st
  | some peer =>
    { device :=
        { st.device with
          peers := st.device.peers ++
            [{ peer with
              lastHandshakeTime := handshakeTime st.handshakeSec st.handshakeNSec }] } }

def mapPeer (st : ParseState) (f : Peer → Peer) : ParseState :=
  { st with currentPeer := st.currentPeer.map f }

def apply (st : ParseState) : Item → ParseState
  | .privateKey key => { st with device := { st.device with privateKey := key } }
  | .publicKey key => { st.commitPeer with currentPeer := some { publicKey := key } }
  | .listenPort n => { st with device := { st.device with listenPort := n } }
  | .fwmark n => { st with device := { st.device with firewallMark := n } }
  | .protocolVersion n => st.mapPeer fun peer => { peer with protocolVersion := n }
  | .endpoint a => st.mapPeer fun peer => { peer with endpoint := some a }
  | .keepalive d => st.mapPeer fun peer => { peer with persistentKeepaliveInterval := d }
  | .handshakeSec n => { st with handshakeSec := n }
  | .handshakeNSec n => { st with handshakeNSec := n }
  | .rxBytes n => st.mapPeer fun peer => { peer with receiveBytes := n }
  | .txBytes n => st.mapPeer fun peer => { peer with transmitBytes := n }
  | .allowedIP n => st.mapPeer fun peer => { peer with allowedIPs := peer.allowedIPs ++ [n] }
  | .presharedKey key => st.mapPeer fun peer => { peer with presharedKey := key }
  | .amnezia => { st with device := { st.device with isAmnezia := true } }
  | .ignored => st

def finish (derive : Key → Key) (st : ParseState) : Device :=
  let device := st.commitPeer.device
  if device.privateKey.isZero then device
  else { device with publicKey := derive device.privateKey }

end ParseState

def parseLines (derive : Key → Key) (net : NetParsers) (scanErr : Option ScanError) :
    ParseState → List Bytes → Except UapiError Device
  | _, [] => .error (match scanErr with
      | some err => .scan err
      | none => .noErrno)
  | st, text :: rest =>
    match readLine net st.currentPeer.isSome text with
    | .error err => .error err
    | .ok (.errno n) => if n ≠ 0 then .error (.errno n) else .ok (st.finish derive)
    | .ok (.item item) => parseLines derive net scanErr (st.apply item) rest

def parseDevice (derive : Key → Key) (net : NetParsers) (r : Reader) : Except UapiError Device :=
  parseLines derive net (scan r).2 {} (scan r).1

/-! ## The fields of an item -/

namespace Item

def publicKey? : Item → Option Key
  | .publicKey key => some key
  | _ => none

def protocolVersion? : Item → Option Int64
  | .protocolVersion n => some n
  | _ => none

def endpoint? : Item → Option UDPAddr
  | .endpoint a => some a
  | _ => none

def keepalive? : Item → Option Int64
  | .keepalive d => some d
  | _ => none

def handshakeSec? : Item → Option Int64
  | .handshakeSec n => some n
  | _ => none

def handshakeNSec? : Item → Option Int64
  | .handshakeNSec n => some n
  | _ => none

def rxBytes? : Item → Option Int64
  | .rxBytes n => some n
  | _ => none

def txBytes? : Item → Option Int64
  | .txBytes n => some n
  | _ => none

def allowedIP? : Item → Option IPNet
  | .allowedIP n => some n
  | _ => none

def presharedKey? : Item → Option Key
  | .presharedKey key => some key
  | _ => none

def isDevice : Item → Bool
  | .privateKey _ | .listenPort _ | .fwmark _ | .amnezia | .ignored => true
  | _ => false

theorem publicKey?_of_isDevice {item : Item} (h : item.isDevice = true) :
    item.publicKey? = none := by
  cases item <;> first | rfl | cases h

end Item

def listed {β : Type} (f : Item → Option β) (items : List Item) : Option β :=
  (items.filterMap f).getLast?

theorem listed_concat {β : Type} (f : Item → Option β) (items : List Item) (item : Item) :
    listed f (items ++ [item]) = (f item).or (listed f items) := by
  unfold listed
  cases h : f item <;> simp [h]

/-! ## Answers -/

def fieldKeys : List String :=
  ["private_key", "public_key", "listen_port", "fwmark", "protocol_version", "endpoint",
    "persistent_keepalive_interval", "last_handshake_time_sec", "last_handshake_time_nsec",
    "rx_bytes", "tx_bytes", "allowed_ip", "preshared_key"]

def Item.Written (net : NetParsers) (key value : Bytes) : Item → Prop
  | .privateKey k => key = ascii "private_key" ∧ parseHexKey value = some k
  | .publicKey k => key = ascii "public_key" ∧ parseHexKey value = some k
  | .listenPort n => key = ascii "listen_port" ∧ readInt value = some n
  | .fwmark n => key = ascii "fwmark" ∧ readInt value = some n
  | .protocolVersion n => key = ascii "protocol_version" ∧ readInt value = some n
  | .endpoint a => key = ascii "endpoint" ∧ net.resolveUDPAddr value = some a
  | .keepalive d =>
    key = ascii "persistent_keepalive_interval" ∧ ∃ n, readInt value = some n ∧ d = n * 1000000000
  | .handshakeSec n => key = ascii "last_handshake_time_sec" ∧ readInt value = some n
  | .handshakeNSec n => key = ascii "last_handshake_time_nsec" ∧ readInt value = some n
  | .rxBytes n => key = ascii "rx_bytes" ∧ readInt value = some n
  | .txBytes n => key = ascii "tx_bytes" ∧ readInt value = some n
  | .allowedIP n => key = ascii "allowed_ip" ∧ net.parseCIDR value = some n
  | .presharedKey k => key = ascii "preshared_key" ∧ parseHexKey value = some k
  | .amnezia => key ∈ amneziaKeys.map ascii
  | .ignored => key ∉ ("errno" :: fieldKeys ++ amneziaKeys).map ascii

def Item.WrittenOn (net : NetParsers) (line : Bytes) (item : Item) : Prop :=
  ∃ key value, 0x3d ∉ key ∧ ByteText.trimSpace (dropCR line) = key ++ 0x3d :: value ∧
    item.Written net key value

open Item

structure Block (net : NetParsers) where
  head : Bytes
  key : Key
  head_written : (publicKey key).WrittenOn net head
  lines : List Bytes
  items : List Item
  lines_written : Forall₂ (WrittenOn net) lines items
  no_key : ∀ item ∈ items, item.publicKey? = none

def Block.peer {net : NetParsers} (b : Block net) : Peer :=
  { publicKey := b.key
    presharedKey := (listed presharedKey? b.items).getD .zero
    endpoint := listed endpoint? b.items
    persistentKeepaliveInterval := (listed keepalive? b.items).getD 0
    lastHandshakeTime := handshakeTime ((listed handshakeSec? b.items).getD 0)
      ((listed handshakeNSec? b.items).getD 0)
    receiveBytes := (listed rxBytes? b.items).getD 0
    transmitBytes := (listed txBytes? b.items).getD 0
    allowedIPs := b.items.filterMap allowedIP?
    protocolVersion := (listed protocolVersion? b.items).getD 0 }

structure Response (net : NetParsers) where
  device : List Bytes
  deviceItems : List Item
  device_written : Forall₂ (WrittenOn net) device deviceItems
  isDevice : ∀ item ∈ deviceItems, item.isDevice = true
  blocks : List (Block net)
  errno : Bytes
  zero : Bytes
  errno_eq : ByteText.trimSpace (dropCR errno) = ascii "errno=" ++ zero
  zero_eq : readInt zero = some 0

def Response.lines {net : NetParsers} (r : Response net) : List Bytes :=
  r.device ++ r.blocks.flatMap (fun b => b.head :: b.lines) ++ [r.errno]

/-! ## Lines -/

variable {net : NetParsers} {inPeer : Bool} {key value : Bytes} {item : Item} {st : ParseState}

theorem readItem_of_not_field (h : key ∉ fieldKeys.map ascii) :
    readItem net inPeer key value =
      if amneziaKeys.any (ascii · = key) then .ok .amnezia else .ok .ignored := by
  simp only [fieldKeys, map_cons, map_nil, mem_cons, not_mem_nil, or_false,
    not_or] at h
  simp only [readItem, h, if_false]

theorem readAs_of_some {α : Type} {value : Bytes} {read : Bytes → Option α} {a : α} (key : String)
    (item : α → Item) (h : read value = some a) : readAs key value read item = .ok (item a) := by
  rw [readAs, h]

theorem readItem_of_written (h : item.Written net key value)
    (hpeer : inPeer = true ∨ item.isDevice = true ∨ item.publicKey?.isSome = true) :
    readItem net inPeer key value = .ok item := by
  have hin : item.isDevice = false → item.publicKey?.isSome = false → inPeer = true := by
    intro hdevice hkey
    simpa [hdevice, hkey] using hpeer
  cases item
  case amnezia =>
      have hfield : ∀ k ∈ amneziaKeys.map ascii, k ∉ fieldKeys.map ascii := by decide
      obtain ⟨k, hk, rfl⟩ := mem_map.mp h
      rw [readItem_of_not_field (hfield _ h), if_pos (any_eq_true.mpr ⟨k, hk, by simp⟩)]
  case ignored =>
      simp only [Written, map_append, map_cons, mem_append, mem_cons,
        not_or, mem_map (l := amneziaKeys)] at h
      obtain ⟨⟨-, hfield⟩, hamnezia⟩ := h
      rw [readItem_of_not_field hfield, if_neg (by simpa using hamnezia)]
  case keepalive d =>
      obtain ⟨rfl, n, hvalue, rfl⟩ := h
      exact (if_pos (hin rfl rfl)).trans (readAs_of_some _ _ hvalue)
  -- the other keys are literals, so that the switch evaluates to their branch
  case privateKey | publicKey | listenPort | fwmark =>
      obtain ⟨rfl, hvalue⟩ := h
      exact readAs_of_some _ _ hvalue
  all_goals
    obtain ⟨rfl, hvalue⟩ := h
    exact (if_pos (hin rfl rfl)).trans (readAs_of_some _ _ hvalue)

theorem Item.Written.key_ne_errno (h : item.Written net key value) : key ≠ ascii "errno" := by
  rintro rfl
  cases item
  case ignored => exact h (by simp)
  case amnezia => exact absurd (show ascii "errno" ∈ amneziaKeys.map ascii from h) (by decide)
  all_goals exact absurd h.1 (by decide)

theorem dropWord_errno (hkey : 0x3d ∉ key) (hne : key ≠ ascii "errno") :
    dropWord (ascii "errno=") (key ++ 0x3d :: value) = none := by
  rw [Option.eq_none_iff_forall_ne_some]
  intro rest hrest
  have hline : key ++ 0x3d :: value = ascii "errno=" ++ rest := dropWord_eq_some.mp hrest
  rw [show ascii "errno=" ++ rest = ascii "errno" ++ 0x3d :: rest from rfl] at hline
  have hcut := congrArg (cut 0x3d) hline
  rw [cut_append_cons hkey, cut_append_cons (by decide)] at hcut
  simp_all

theorem readLine_of_written {line : Bytes}
    (h : item.WrittenOn net line)
    (hpeer : inPeer = true ∨ item.isDevice = true ∨ item.publicKey?.isSome = true) :
    readLine net inPeer (dropCR line) = .ok (.item item) := by
  obtain ⟨key, value, hkey, hline, hwritten⟩ := h
  simp only [readLine, hline, dropWord_errno hkey hwritten.key_ne_errno, cut_append_cons hkey,
    readItem_of_written hwritten hpeer]
  simp [Except.map]

theorem readLine_errno {line text : Bytes} {n : Int64}
    (hline : ByteText.trimSpace (dropCR line) = ascii "errno=" ++ text)
    (hn : readInt text = some n) : readLine net inPeer (dropCR line) = .ok (.errno n) := by
  have hword : dropWord (ascii "errno=") (ascii "errno=" ++ text) = some text :=
    dropWord_eq_some.mpr rfl
  simp only [readLine, hline, hword, hn]
  exact if_neg nofun

/-! ## The parser's state -/

namespace ParseState

def committed (st : ParseState) : List Peer := st.commitPeer.device.peers

def Clear (st : ParseState) : Prop :=
  st.currentPeer = none → st.handshakeSec = 0 ∧ st.handshakeNSec = 0

theorem isSome_apply (h : item.publicKey? = none) :
    (st.apply item).currentPeer.isSome = st.currentPeer.isSome := by
  cases item <;> simp_all [apply, mapPeer, publicKey?]

theorem apply_publicKey (h : st.Clear) (key : Key) :
    st.apply (.publicKey key) =
      { device := { st.device with peers := st.committed }
        currentPeer := some { publicKey := key } } := by
  unfold apply committed commitPeer
  cases hpeer : st.currentPeer with
  | none =>
    obtain ⟨hsec, hnsec⟩ := h hpeer
    simp [hsec, hnsec]
  | some peer => rfl

theorem foldl_apply {key : Key} {items : List Item}
    (hpeer : st.currentPeer = some { publicKey := key }) (hsec : st.handshakeSec = 0)
    (hnsec : st.handshakeNSec = 0) (hkey : ∀ item ∈ items, item.publicKey? = none) :
    let st' := items.foldl apply st
    st'.currentPeer = some
        { publicKey := key
          presharedKey := (listed presharedKey? items).getD .zero
          endpoint := listed endpoint? items
          persistentKeepaliveInterval := (listed keepalive? items).getD 0
          receiveBytes := (listed rxBytes? items).getD 0
          transmitBytes := (listed txBytes? items).getD 0
          allowedIPs := items.filterMap allowedIP?
          protocolVersion := (listed protocolVersion? items).getD 0 } ∧
      st'.handshakeSec = (listed handshakeSec? items).getD 0 ∧
      st'.handshakeNSec = (listed handshakeNSec? items).getD 0 ∧
      st'.device.peers = st.device.peers := by
  induction items using reverseRecOn with
  | nil => exact ⟨hpeer, hsec, hnsec, rfl⟩
  | append_singleton items item ih =>
    obtain ⟨hitems, hitem⟩ := forall_mem_append.mp hkey
    obtain ⟨hpeer', hsec', hnsec', hpeers'⟩ := ih hitems
    simp only [foldl_append, foldl_cons, foldl_nil, listed_concat,
      filterMap_append]
    have hno := hitem item mem_cons_self
    cases item
    case publicKey => cases hno
    all_goals
      simp [apply, mapPeer, hpeer', hsec', hnsec', hpeers', presharedKey?, endpoint?,
        keepalive?, rxBytes?, txBytes?, allowedIP?, protocolVersion?,
        handshakeSec?, handshakeNSec?]

theorem committed_foldl_apply (h : st.Clear) (b : Block net) :
    let st' := b.items.foldl apply (st.apply (.publicKey b.key))
    st'.committed = st.committed ++ [b.peer] ∧ st'.currentPeer.isSome = true := by
  obtain ⟨hpeer, hsec, hnsec, hpeers⟩ :=
    @foldl_apply (st.apply (.publicKey b.key)) b.key b.items (by rw [apply_publicKey h])
      (by rw [apply_publicKey h]) (by rw [apply_publicKey h]) b.no_key
  refine ⟨?_, by rw [hpeer]; rfl⟩
  rw [committed, commitPeer, hpeer, hsec, hnsec, hpeers, apply_publicKey h]
  rfl

theorem foldl_apply_isDevice {items : List Item}
    (h : ∀ item ∈ items, item.isDevice = true) :
    (items.foldl apply st).currentPeer = st.currentPeer ∧
      (items.foldl apply st).handshakeSec = st.handshakeSec ∧
      (items.foldl apply st).handshakeNSec = st.handshakeNSec ∧
      (items.foldl apply st).device.peers = st.device.peers := by
  induction items generalizing st with
  | nil => exact ⟨rfl, rfl, rfl, rfl⟩
  | cons item items ih =>
    obtain ⟨hitem, hitems⟩ := forall_mem_cons.mp h
    obtain ⟨hpeer, hsec, hnsec, hpeers⟩ := @ih (st.apply item) hitems
    rw [foldl_cons, hpeer, hsec, hnsec, hpeers]
    cases item <;> first | exact ⟨rfl, rfl, rfl, rfl⟩ | cases hitem

theorem peers_finish (derive : Key → Key) (st : ParseState) :
    (st.finish derive).peers = st.committed := by
  simp only [finish, committed]
  split <;> rfl

end ParseState

/-! ## The loop -/

section Loop

variable {derive : Key → Key} {scanErr : Option ScanError}

theorem parseLines_items {lines : List Bytes} {items : List Item}
    (hwritten : Forall₂ (WrittenOn net) lines items)
    (hpeer : ∀ item ∈ items, item.publicKey? = none ∧
      (st.currentPeer.isSome = true ∨ item.isDevice = true)) (rest : List Bytes) :
    parseLines derive net scanErr st (lines.map dropCR ++ rest) =
      parseLines derive net scanErr (items.foldl ParseState.apply st) rest := by
  induction hwritten generalizing st with
  | nil => rfl
  | @cons line item lines items hline _ ih =>
    obtain ⟨⟨hkey, hitem⟩, hitems⟩ := forall_mem_cons.mp hpeer
    have hread : readLine net st.currentPeer.isSome (dropCR line) = .ok (.item item) :=
      readLine_of_written hline (by tauto)
    simp only [map_cons, cons_append, parseLines, hread, foldl_cons]
    exact ih (by simpa only [ParseState.isSome_apply hkey] using hitems)

theorem parseLines_block (b : Block net) (rest : List Bytes) :
    parseLines derive net scanErr st ((b.head :: b.lines).map dropCR ++ rest) =
      parseLines derive net scanErr
        (b.items.foldl ParseState.apply (st.apply (.publicKey b.key))) rest := by
  have hread : readLine net st.currentPeer.isSome (dropCR b.head) =
      .ok (.item (.publicKey b.key)) :=
    readLine_of_written b.head_written (.inr (.inr rfl))
  simp only [map_cons, cons_append, parseLines, hread]
  exact parseLines_items b.lines_written (fun item hitem => ⟨b.no_key item hitem, .inl rfl⟩) rest

theorem parseLines_blocks (hst : st.Clear) (blocks : List (Block net))
    {errno zero : Bytes} (hline : ByteText.trimSpace (dropCR errno) = ascii "errno=" ++ zero)
    (hzero : readInt zero = some 0) (rest : List Bytes) :
    ∃ device, parseLines derive net scanErr st
          ((blocks.flatMap fun b => b.head :: b.lines).map dropCR ++ dropCR errno :: rest) =
        .ok device ∧ device.peers = st.committed ++ blocks.map Block.peer := by
  induction blocks generalizing st with
  | nil =>
    refine ⟨st.finish derive, ?_, by simp [ParseState.peers_finish]⟩
    simp only [flatMap_nil, map_nil, nil_append, parseLines,
      readLine_errno hline hzero]
    rfl
  | cons b blocks ih =>
    obtain ⟨hcommitted, hsome⟩ := ParseState.committed_foldl_apply hst b
    have hclear : (b.items.foldl ParseState.apply (st.apply (.publicKey b.key))).Clear :=
      fun hnone => by simp [hnone] at hsome
    obtain ⟨device, hparse, hpeers⟩ := ih hclear
    refine ⟨device, ?_, by simp [hpeers, hcommitted]⟩
    rw [flatMap_cons, map_append, append_assoc, parseLines_block, hparse]

theorem readLine_eq_errno {text : Bytes} {n : Int64}
    (h : readLine net inPeer text = .ok (.errno n)) :
    ∃ value, ByteText.trimSpace text = ascii "errno=" ++ value ∧ readInt value = some n := by
  simp only [readLine] at h
  split at h
  · cases h
  split at h
  · rename_i value hword
    split at h
    · cases h
    · rename_i m hm
      cases h
      exact ⟨value, dropWord_eq_some.mp hword, hm⟩
  · split at h
    · cases h
    · rename_i key value _
      cases hitem : readItem net inPeer key value <;> rw [hitem] at h <;> cases h

theorem errno_of_parseLines {lines : List Bytes} {device : Device}
    (h : parseLines derive net scanErr st lines = .ok device) :
    ∃ line ∈ lines, ∃ inPeer, readLine net inPeer line = .ok (.errno 0) := by
  induction lines generalizing st with
  | nil => cases h
  | cons line lines ih =>
    simp only [parseLines] at h
    split at h
    · cases h
    · rename_i n hread
      by_cases hn : n = 0
      · exact ⟨line, mem_cons_self, _, hn ▸ hread⟩
      · rw [if_pos hn] at h
        cases h
    · obtain ⟨line', hmem, hread⟩ := ih h
      exact ⟨line', mem_cons_of_mem _ hmem, hread⟩

end Loop

/-! ## The answer -/

def ErrnoZero (line : Bytes) : Prop :=
  ∃ value, ByteText.trimSpace line = ascii "errno=" ++ value ∧ readInt value = some 0

theorem Response.errno_ne_nil (response : Response net) :
    response.errno ≠ [] := by
  intro hnil
  have h := response.errno_eq
  rw [hnil] at h
  exact cons_ne_nil _ _ h.symm

theorem Response.scan_eq {response : Response net} {r : Reader}
    (hstart : response.lines <+: r.data.splitOn lf)
    (hlen : ∀ line ∈ response.lines, line.length < maxScanTokenSize) :
    ∃ rest, (scan r).1 = response.lines.map dropCR ++ rest := by
  obtain ⟨rest, hrest⟩ := hstart
  unfold Response.lines at hlen hrest
  obtain ⟨hbody, herrno⟩ := forall_mem_append.mp hlen
  rw [append_assoc] at hrest
  refine ⟨(scanPieces rest).1, ?_⟩
  simp only [scan, ← hrest, singleton_append]
  rw [scanPieces_append hbody (cons_ne_nil _ _),
    scanPieces_cons (herrno _ mem_cons_self) (.inl response.errno_ne_nil)]
  simp [Response.lines]

/-- The parser returns the peers of the blocks, and a device only after an `errno` of zero. -/
theorem parseDevice_decodes (derive : Key → Key) (net : NetParsers) :
    (∀ (response : Response net) (r : Reader), response.lines <+: r.data.splitOn lf →
      (∀ line ∈ response.lines, line.length < maxScanTokenSize) →
      ∃ device, parseDevice derive net r = .ok device ∧
        device.peers = response.blocks.map Block.peer) ∧
    ∀ (r : Reader) (device : Device), parseDevice derive net r = .ok device →
      ∃ line ∈ (scan r).1, ErrnoZero line := by
  constructor
  · intro response r hstart hlen
    obtain ⟨rest, hscan⟩ := Response.scan_eq hstart hlen
    obtain ⟨hpeer, hsec, hnsec, hpeers⟩ :=
      @ParseState.foldl_apply_isDevice {} response.deviceItems response.isDevice
    obtain ⟨device, hparse, hdevice⟩ :=
      @parseLines_blocks net _ derive (scan r).2 (fun _ => ⟨hsec, hnsec⟩) response.blocks _ _
        response.errno_eq response.zero_eq rest
    refine ⟨device, ?_, ?_⟩
    · rw [parseDevice, hscan]
      simp only [Response.lines, map_append, append_assoc, map_cons, map_nil,
        singleton_append]
      rw [parseLines_items response.device_written fun item hitem =>
        ⟨publicKey?_of_isDevice (response.isDevice item hitem),
          .inr (response.isDevice item hitem)⟩, hparse]
    · rw [hdevice, ParseState.committed, ParseState.commitPeer, hpeer]
      simp [hpeers]
  · intro r device hparse
    obtain ⟨line, hmem, inPeer, hread⟩ := errno_of_parseLines hparse
    exact ⟨line, hmem, readLine_eq_errno hread⟩

/-- An address as `net.ResolveUDPAddr` gives it, with 16 bytes. -/
def officeAddr : UDPAddr :=
  { ip := replicate 10 0 ++ [255, 255, 192, 0, 2, 1], port := 51820 }

def officeLan : IPNet := ⟨[10, 8, 0, 0], [255, 255, 255, 0]⟩

def officeWan : IPNet := ⟨[10, 9, 0, 0], [255, 255, 0, 0]⟩

def officeNet : NetParsers where
  resolveUDPAddr b := if b = ascii "192.0.2.1:51820" then some officeAddr else none
  parseCIDR b :=
    if b = ascii "10.8.0.0/24" then some officeLan
    else if b = ascii "10.9.0.0/16" then some officeWan
    else none

def twoPeers : Response officeNet where
  device := [ascii "listen_port=51820"]
  deviceItems := [.listenPort 51820]
  device_written :=
    .cons ⟨ascii "listen_port", ascii "51820", by decide, by decide, rfl, by decide⟩ .nil
  isDevice := by decide
  blocks :=
    [{ head := ascii "public_key=" ++ (Key.repeated 7).hex
       key := Key.repeated 7
       head_written :=
         ⟨ascii "public_key", (Key.repeated 7).hex, by decide, by decide, rfl, parseHexKey_hex _⟩
       lines := [ascii "rx_bytes=5", ascii "last_handshake_time_sec=9\r"]
       items := [.rxBytes 5, .handshakeSec 9]
       lines_written :=
         .cons ⟨ascii "rx_bytes", ascii "5", by decide, by decide, rfl, by decide⟩
           (.cons ⟨ascii "last_handshake_time_sec", ascii "9", by decide, by decide, rfl, by decide⟩
             .nil)
       no_key := by decide },
     { head := ascii "public_key=" ++ (Key.repeated 8).hex
       key := Key.repeated 8
       head_written :=
         ⟨ascii "public_key", (Key.repeated 8).hex, by decide, by decide, rfl, parseHexKey_hex _⟩
       lines := [ascii "allowed_ip=10.8.0.0/24", ascii "preshared_key=" ++ (Key.repeated 3).hex,
         ascii "endpoint=192.0.2.1:51820", ascii "allowed_ip=10.9.0.0/16"]
       items := [.allowedIP officeLan, .presharedKey (.repeated 3), .endpoint officeAddr,
         .allowedIP officeWan]
       lines_written :=
         .cons ⟨ascii "allowed_ip", ascii "10.8.0.0/24", by decide, by decide, rfl, rfl⟩
           (.cons ⟨ascii "preshared_key", (Key.repeated 3).hex, by decide, by decide, rfl,
             parseHexKey_hex _⟩
           (.cons ⟨ascii "endpoint", ascii "192.0.2.1:51820", by decide, by decide, rfl, rfl⟩
           (.cons ⟨ascii "allowed_ip", ascii "10.9.0.0/16", by decide, by decide, rfl, rfl⟩ .nil)))
       no_key := by decide }]
  errno := ascii "errno=0"
  zero := ascii "0"
  errno_eq := by decide
  zero_eq := by decide

def twoPeersReader : Reader := { data := unlines lf twoPeers.lines }

theorem parseDevice_decodes_twoPeers :
    twoPeers.lines <+: twoPeersReader.data.splitOn lf ∧
      (∀ line ∈ twoPeers.lines, line.length < maxScanTokenSize) ∧
      ∃ device, parseDevice id officeNet twoPeersReader = .ok device ∧ device.peers =
          [{ publicKey := Key.repeated 7, receiveBytes := 5, lastHandshakeTime := some (9, 0) },
           { publicKey := Key.repeated 8, presharedKey := .repeated 3
             endpoint := some officeAddr, allowedIPs := [officeLan, officeWan] }] ∧
        ∃ line ∈ (scan twoPeersReader).1, ErrnoZero line := by
  have hstart : twoPeers.lines <+: twoPeersReader.data.splitOn lf := by decide
  have hlen : ∀ line ∈ twoPeers.lines, line.length < maxScanTokenSize := by decide
  obtain ⟨device, hparse, hpeers⟩ :=
    (parseDevice_decodes id officeNet).1 twoPeers twoPeersReader hstart hlen
  exact ⟨hstart, hlen, device, hparse, hpeers,
    (parseDevice_decodes id officeNet).2 _ device hparse⟩

end AwgMesh.Wg.Text
