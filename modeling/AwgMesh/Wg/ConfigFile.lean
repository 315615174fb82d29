import AwgMesh.Wg.UapiRead

/-!
# Configuration files

`GenerateConfig` and `ParseConfigFile` of `pkg/wg/config.go`.
-/

namespace AwgMesh.Wg.Text

open Lib ByteText Text.PeerConfig

/-! ## Writing -/

def appendSetting {α : Type} (key : String) (text : α → Bytes) : Option α → Bytes
  | none => []
  | some a => ascii key ++ ascii " = " ++ text a ++ [lf]

def appendIntSetting (key : String) (value : Option Int64) : Bytes :=
  appendSetting key intText value

def appendStringSetting (key : String) (value : Option Bytes) : Bytes :=
  appendSetting key id value

def joinNetworks (allowedIPs : List IPNet) : Bytes :=
  (ascii ", ").intercalate (allowedIPs.map IPNet.text)

def PeerConfig.networks? (peer : PeerConfig) : Option (List IPNet) :=
  if peer.allowedIPs = [] then none else some peer.allowedIPs

def generatePeer (peer : PeerConfig) : Bytes :=
  ascii "\n[Peer]\n" ++ appendSetting "PublicKey" Key.string (some peer.publicKey) ++
    appendSetting "PresharedKey" Key.string peer.presharedKey ++
    appendSetting "Endpoint" UDPAddr.text peer.endpoint ++
    appendSetting "PersistentKeepalive" keepaliveText peer.persistentKeepaliveInterval ++
    appendSetting "AllowedIPs" joinNetworks peer.networks?

def generateConfig (cfg : Config) (peers : List PeerConfig) : Bytes :=
  ascii "[Interface]\n" ++ appendSetting "PrivateKey" Key.string cfg.privateKey ++
    appendSetting "ListenPort" intText cfg.listenPort ++
    appendIntSetting "Jc" cfg.jc ++ appendIntSetting "Jmin" cfg.jmin ++
    appendIntSetting "Jmax" cfg.jmax ++ appendIntSetting "S1" cfg.s1 ++
    appendIntSetting "S2" cfg.s2 ++ appendIntSetting "S3" cfg.s3 ++ appendIntSetting "S4" cfg.s4 ++
    appendStringSetting "H1" cfg.h1 ++ appendStringSetting "H2" cfg.h2 ++
    appendStringSetting "H3" cfg.h3 ++ appendStringSetting "H4" cfg.h4 ++
    appendStringSetting "I1" cfg.i1 ++ appendStringSetting "I2" cfg.i2 ++
    appendStringSetting "I3" cfg.i3 ++ appendStringSetting "I4" cfg.i4 ++
    appendStringSetting "I5" cfg.i5 ++ peers.flatMap generatePeer

/-! ## Reading -/

inductive ConfigError where
  | pathRequired
  | openFile (err : String)
  | invalidLine (line : Bytes)
  | outsidePeer (key : Bytes)
  | outsideSection (key : Bytes)
  | field (name : String)
  | allowedIP (item : Bytes)
  | scan (err : ScanError)

def toLower : Bytes → Bytes
  | [] => []
  | 0xe2 :: 0x84 :: 0xaa :: rest => 0x6b :: toLower rest
  | 0xc4 :: 0xb0 :: rest => 0x69 :: toLower rest
  | x :: rest => (if 0x41 ≤ x ∧ x ≤ 0x5a then x + 0x20 else x) :: toLower rest

def setField {α σ : Type} (name : String) (value : Option α) (set : α → σ) : Except ConfigError σ :=
  match value with
  | some a => .ok (set a)
  | none => .error (.field name)

def parseIntField {σ : Type} (value : Bytes) (name : String) (set : Int64 → σ) :
    Except ConfigError σ :=
  setField name (readInt value) set

def parseInterfaceKV (cfg : Config) (key value : Bytes) : Except ConfigError Config :=
  if key = ascii "privatekey" then
    setField "Interface PrivateKey" (Key.parseKey value) fun k => { cfg with privateKey := some k }
  else if key = ascii "listenport" then
    setField "Interface ListenPort" (readInt value) fun n => { cfg with listenPort := some n }
  else if key = ascii "fwmark" then
    setField "Interface FwMark" (readInt value) fun n => { cfg with firewallMark := some n }
  else if key = ascii "jc" then
    parseIntField value "Interface Jc" fun n => { cfg with jc := some n }
  else if key = ascii "jmin" then
    parseIntField value "Interface Jmin" fun n => { cfg with jmin := some n }
  else if key = ascii "jmax" then
    parseIntField value "Interface Jmax" fun n => { cfg with jmax := some n }
  else if key = ascii "s1" then
    parseIntField value "Interface S1" fun n => { cfg with s1 := some n }
  else if key = ascii "s2" then
    parseIntField value "Interface S2" fun n => { cfg with s2 := some n }
  else if key = ascii "s3" then
    parseIntField value "Interface S3" fun n => { cfg with s3 := some n }
  else if key = ascii "s4" then
    parseIntField value "Interface S4" fun n => { cfg with s4 := some n }
  else if key = ascii "h1" then .ok { cfg with h1 := some value }
  else if key = ascii "h2" then .ok { cfg with h2 := some value }
  else if key = ascii "h3" then .ok { cfg with h3 := some value }
  else if key = ascii "h4" then .ok { cfg with h4 := some value }
  else if key = ascii "i1" then .ok { cfg with i1 := some value }
  else if key = ascii "i2" then .ok { cfg with i2 := some value }
  else if key = ascii "i3" then .ok { cfg with i3 := some value }
  else if key = ascii "i4" then .ok { cfg with i4 := some value }
  else if key = ascii "i5" then .ok { cfg with i5 := some value }
  else .ok cfg

def parseAllowedIPs (net : NetParsers) : List Bytes → Except ConfigError (List IPNet)
  | [] => .ok []
  | cidr :: rest =>
    let trimmed := ByteText.trimSpace cidr
    if trimmed = [] then parseAllowedIPs net rest
    else match net.parseCIDR trimmed with
      | none => .error (.allowedIP trimmed)
      | some ipNet => (parseAllowedIPs net rest).map (ipNet :: ·)

def parsePeerKV (net : NetParsers) (peer : PeerConfig) (key value : Bytes) :
    Except ConfigError PeerConfig :=
  if key = ascii "publickey" then
    setField "Peer PublicKey" (Key.parseKey value) fun k => { peer with publicKey := k }
  else if key = ascii "presharedkey" then
    setField "Peer PresharedKey" (Key.parseKey value) fun k => { peer with presharedKey := some k }
  else if key = ascii "endpoint" then
    setField "Peer Endpoint" (net.resolveUDPAddr value) fun a => { peer with endpoint := some a }
  else if key = ascii "persistentkeepalive" then
    setField "Peer PersistentKeepalive" (readInt value) fun n =>
      { peer with persistentKeepaliveInterval := some (n * 1000000000) }
  else if key = ascii "allowedips" then
    (parseAllowedIPs net (value.splitOn 0x2c)).map fun ns => { peer with allowedIPs := ns }
  else .ok peer

structure FileState where
  cfg : Config := {}
  peers : List PeerConfig := []
  currentSection : Bytes := []
  currentPeer : Option PeerConfig := none

namespace FileState

def flushPeer (st : FileState) : FileState :=
  match st.currentPeer with
  | none => st
  | some peer => { st with peers := st.peers ++ [peer], currentPeer := none }

def enter (st : FileState) (name : Bytes) : FileState :=
  -- the source flushes in two places, of which one is reached whatever the name
  let st := { st.flushPeer with currentSection := name }
  if name = ascii "peer" then { st with currentPeer := some {} } else st

def assign (net : NetParsers) (st : FileState) (key value : Bytes) : Except ConfigError FileState :=
  if st.currentSection = ascii "interface" then
    (parseInterfaceKV st.cfg (toLower key) value).map fun cfg => { st with cfg }
  else if st.currentSection = ascii "peer" then
    match st.currentPeer with
    | none => .error (.outsidePeer key)
    | some peer =>
      (parsePeerKV net peer (toLower key) value).map fun peer =>
        { st with currentPeer := some peer }
  else .error (.outsideSection key)

def readLine (net : NetParsers) (st : FileState) (text : Bytes) : Except ConfigError FileState :=
  let line := ByteText.trimSpace text
  if line = [] ∨ line.head? = some 0x23 ∨ line.head? = some 0x3b then .ok st
  else if line.head? = some 0x5b ∧ line.getLast? = some 0x5d then
    .ok (st.enter (toLower (ByteText.trimSpace (line.drop 1).dropLast)))
  else match cut 0x3d line with
    | none => .error (.invalidLine line)
    | some (key, value) => st.assign net (ByteText.trimSpace key) (ByteText.trimSpace value)

def readLines (net : NetParsers) : FileState → List Bytes → Except ConfigError FileState
  | st, [] => .ok st
  | st, text :: rest =>
    match st.readLine net text with
    | .error err => .error err
    | .ok st' => readLines net st' rest

end FileState

def parseConfigFile (net : NetParsers) (path : Bytes) (file : Except String Reader) :
    Except ConfigError (Config × List PeerConfig) :=
  if ByteText.trimSpace path = [] then .error .pathRequired
  else match file with
    | .error err => .error (.openFile err)
    | .ok r =>
      match FileState.readLines net {} (scan r).1, (scan r).2 with
      | .error err, _ => .error err
      | .ok _, some err => .error (.scan err)
      | .ok st, none =>
        let peers := st.flushPeer.peers
        .ok ({ st.cfg with peers }, peers)

/-! ## The lines of a file -/

def settingLine (kv : String × Bytes) : Bytes := ascii kv.1 ++ ascii " = " ++ kv.2

def Config.intSettings (cfg : Config) : List (String × Option Int64) :=
  [("Jc", cfg.jc), ("Jmin", cfg.jmin), ("Jmax", cfg.jmax), ("S1", cfg.s1), ("S2", cfg.s2),
    ("S3", cfg.s3), ("S4", cfg.s4)]

def Config.stringSettings (cfg : Config) : List (String × Option Bytes) :=
  [("H1", cfg.h1), ("H2", cfg.h2), ("H3", cfg.h3), ("H4", cfg.h4), ("I1", cfg.i1), ("I2", cfg.i2),
    ("I3", cfg.i3), ("I4", cfg.i4), ("I5", cfg.i5)]

def Config.settings (cfg : Config) : List (String × Bytes) :=
  optionKV "PrivateKey" Key.string cfg.privateKey ++ optionKV "ListenPort" intText cfg.listenPort ++
    cfg.intSettings.flatMap (fun kv => optionKV kv.1 intText kv.2) ++
    cfg.stringSettings.flatMap (fun kv => optionKV kv.1 id kv.2)

def PeerConfig.settings (peer : PeerConfig) : List (String × Bytes) :=
  optionKV "PublicKey" Key.string (some peer.publicKey) ++
    optionKV "PresharedKey" Key.string peer.presharedKey ++
    optionKV "Endpoint" UDPAddr.text peer.endpoint ++
    optionKV "PersistentKeepalive" keepaliveText peer.persistentKeepaliveInterval ++
    optionKV "AllowedIPs" joinNetworks peer.networks?

def peerLines (peer : PeerConfig) : List Bytes :=
  [] :: ascii "[Peer]" :: peer.settings.map settingLine

def fileLines (cfg : Config) (peers : List PeerConfig) : List Bytes :=
  ascii "[Interface]" :: cfg.settings.map settingLine ++ peers.flatMap peerLines

theorem appendSetting_eq {α : Type} (key : String) (text : α → Bytes) (o : Option α) :
    appendSetting key text o = unlines lf ((optionKV key text o).map settingLine) := by
  cases o <;> simp [appendSetting, optionKV, settingLine]

theorem generatePeer_eq (peer : PeerConfig) : generatePeer peer = unlines lf (peerLines peer) := by
  have hhead : ascii "\n[Peer]\n" = lf :: ascii "[Peer]" ++ [lf] := by decide
  simp only [generatePeer, peerLines, settings, appendSetting_eq, hhead, unlines_cons,
    List.map_append, unlines_append]
  simp

theorem generateConfig_eq (cfg : Config) (peers : List PeerConfig) :
    generateConfig cfg peers = unlines lf (fileLines cfg peers) := by
  have hhead : ascii "[Interface]\n" = ascii "[Interface]" ++ [lf] := by decide
  have hpeers : unlines lf (peers.flatMap peerLines) = peers.flatMap generatePeer := by
    induction peers with
    | nil => rfl
    | cons peer peers ih =>
      rw [List.flatMap_cons, unlines_append, ih, List.flatMap_cons, generatePeer_eq]
  unfold generateConfig
  rw [hhead, fileLines, List.cons_append, unlines_cons, unlines_append, hpeers]
  simp only [Config.settings, Config.intSettings, Config.stringSettings, appendIntSetting,
    appendStringSetting, appendSetting_eq, List.map_append, unlines_append, List.flatMap_cons,
    List.flatMap_nil, List.append_nil, List.append_assoc, List.nil_append, List.cons_append]

/-! ## The line of a setting -/

def isAlnum (x : UInt8) : Bool :=
  (0x30 ≤ x ∧ x ≤ 0x39) ∨ (0x41 ≤ x ∧ x ≤ 0x5a) ∨ (0x61 ≤ x ∧ x ≤ 0x7a)

def IsWord (b : Bytes) : Prop := b ≠ [] ∧ b.all isAlnum = true

instance (b : Bytes) : Decidable (IsWord b) := inferInstanceAs (Decidable (_ ∧ _))

structure IsSetting (kv : String × Bytes) : Prop where
  word : IsWord (ascii kv.1)
  trimmed : Trimmed kv.2
  lf_notMem : lf ∉ kv.2

theorem IsWord.visible {b : Bytes} (h : IsWord b) : Visible b := by
  intro x hx
  have hword := List.all_eq_true.mp h.2 x hx
  simp only [isAlnum, decide_eq_true_eq] at hword
  grind [UInt8.le_iff_toNat_le]

theorem IsWord.notMem {b : Bytes} (h : IsWord b) {x : UInt8} (hx : isAlnum x = false) : x ∉ b := by
  intro hmem
  have hword := List.all_eq_true.mp h.2 x hmem
  rw [hx] at hword
  cases hword

section Line

variable {kv : String × Bytes}

theorem settingLine_eq (kv : String × Bytes) :
    settingLine kv = (ascii kv.1 ++ 0x20 :: [0x3d]) ++ 0x20 :: kv.2 := by
  rw [settingLine, show ascii " = " = [0x20, 0x3d, 0x20] from rfl]
  simp

theorem length_settingLine (kv : String × Bytes) :
    (settingLine kv).length = (ascii kv.1).length + 3 + kv.2.length := by
  rw [settingLine_eq]
  simp
  omega

theorem lf_notMem_settingLine (h : IsSetting kv) : lf ∉ settingLine kv := by
  have hkey : lf ∉ ascii kv.1 := h.word.notMem (by decide)
  have hlf : lf ≠ 0x20 ∧ lf ≠ 0x3d := by decide
  simp [settingLine_eq, hkey, hlf, h.lf_notMem]

theorem dropCR_settingLine (h : IsSetting kv) : dropCR (settingLine kv) = settingLine kv := by
  refine if_neg ?_
  rw [settingLine_eq, List.getLast?_append]
  by_cases hvalue : kv.2 = []
  · rw [hvalue]
    exact fun hlast => absurd (Option.some.inj hlast) (by decide)
  · rw [List.getLast?_cons, List.getLast?_eq_some_getLast hvalue]
    simpa [List.getLast?_eq_some_getLast hvalue] using
      getLast?_ne_of_trimmed (show cr ∈ blanks by decide) h.trimmed

theorem trimSpace_settingLine (h : IsSetting kv) :
    ∃ rest, ByteText.trimSpace (settingLine kv) = (ascii kv.1 ++ [0x20]) ++ 0x3d :: rest ∧
      ByteText.trimSpace rest = kv.2 := by
  have hfront : Trimmed (ascii kv.1 ++ 0x20 :: [0x3d]) :=
    h.word.visible.trimmed.append_blank (by decide) (by decide) h.word.1 (by simp)
  rw [settingLine_eq]
  by_cases hvalue : kv.2 = []
  · refine ⟨[], ?_, by rw [hvalue]; rfl⟩
    rw [hvalue, trimSpace_append_blank (by decide) hfront]
    simp
  · refine ⟨0x20 :: kv.2, ?_, trimSpace_blank_cons (by decide) h.trimmed⟩
    rw [trimSpace_eq_self_iff.mpr
      (hfront.append_blank (by decide) h.trimmed (by simp) hvalue)]
    simp

theorem readLine_settingLine (net : NetParsers) (st : FileState) (h : IsSetting kv) :
    st.readLine net (settingLine kv) = st.assign net (ascii kv.1) kv.2 := by
  obtain ⟨rest, hline, hrest⟩ := trimSpace_settingLine h
  obtain ⟨x, w, hkey⟩ := List.exists_cons_of_ne_nil h.word.1
  have hx : ∀ y : UInt8, isAlnum y = false → x ≠ y := by
    rintro y hy rfl
    exact h.word.notMem hy (by rw [hkey]; exact List.mem_cons_self)
  have hcomment : x ≠ 0x23 := hx _ (by decide)
  have hsemicolon : x ≠ 0x3b := hx _ (by decide)
  have hbracket : x ≠ 0x5b := hx _ (by decide)
  have hequals : 0x3d ∉ ascii kv.1 ++ [0x20] := by
    have hword : 0x3d ∉ ascii kv.1 := h.word.notMem (by decide)
    simp [hword]
  have hhead : ((ascii kv.1 ++ [0x20]) ++ 0x3d :: rest).head? = some x := by rw [hkey]; rfl
  have htrim : ByteText.trimSpace (ascii kv.1 ++ [0x20]) = ascii kv.1 :=
    trimSpace_append_blank (by decide) h.word.visible.trimmed
  simp only [FileState.readLine, hline, hhead, cut_append_cons hequals, htrim, hrest]
  simp [hcomment, hsemicolon, hbracket]

end Line

/-! ## Settings one after another -/

def Reads {σ : Type} (parse : σ → Bytes → Bytes → Except ConfigError σ) (s : σ)
    (kvs : List (String × Bytes)) (s' : σ) : Prop :=
  kvs.foldlM (fun s kv => parse s (toLower (ascii kv.1)) kv.2) s = .ok s'

namespace Reads

variable {σ : Type} {parse : σ → Bytes → Bytes → Except ConfigError σ} {s s' s'' : σ}

theorem nil : Reads parse s [] s := rfl

theorem append {kvs kvs' : List (String × Bytes)} (h : Reads parse s kvs s')
    (h' : Reads parse s' kvs' s'') : Reads parse s (kvs ++ kvs') s'' := by
  unfold Reads at *
  rw [List.foldlM_append, h]
  exact h'

theorem option {α : Type} {key : String} {text : α → Bytes} {o : Option α}
    (hnone : o = none → s' = s)
    (hsome : ∀ a, o = some a → parse s (toLower (ascii key)) (text a) = .ok s') :
    Reads parse s (optionKV key text o) s' := by
  cases o with
  | none =>
    rw [hnone rfl]
    exact nil
  | some a =>
    show (parse s (toLower (ascii key)) (text a) >>= pure) = .ok s'
    rw [hsome a rfl]
    rfl

theorem of_cons {kv : String × Bytes} {kvs : List (String × Bytes)}
    (h : Reads parse s (kv :: kvs) s'') :
    ∃ s', parse s (toLower (ascii kv.1)) kv.2 = .ok s' ∧ Reads parse s' kvs s'' := by
  unfold Reads at h
  rw [List.foldlM_cons] at h
  cases hparse : parse s (toLower (ascii kv.1)) kv.2 with
  | error err =>
    rw [hparse] at h
    cases h
  | ok s' =>
    rw [hparse] at h
    exact ⟨s', rfl, h⟩

end Reads

section Lines

variable {net : NetParsers}

theorem readLines_append {st st' : FileState} {ls : List Bytes} (h : st.readLines net ls = .ok st')
    (ls' : List Bytes) : st.readLines net (ls ++ ls') = st'.readLines net ls' := by
  induction ls generalizing st with
  | nil =>
    cases h
    rfl
  | cons l ls ih =>
    rw [List.cons_append, FileState.readLines]
    rw [FileState.readLines] at h
    cases hline : st.readLine net l with
    | error err =>
      rw [hline] at h
      cases h
    | ok st1 =>
      rw [hline] at h
      exact ih h

theorem readLines_settings {σ : Type} {parse : σ → Bytes → Bytes → Except ConfigError σ}
    (hold : σ → FileState) (hassign : ∀ s key value,
      (hold s).assign net key value = (parse s (toLower key) value).map hold)
    {kvs : List (String × Bytes)} (hkvs : ∀ kv ∈ kvs, IsSetting kv) {s s' : σ}
    (h : Reads parse s kvs s') : (hold s).readLines net (kvs.map settingLine) = .ok (hold s') := by
  induction kvs generalizing s with
  | nil =>
    cases h
    rfl
  | cons kv kvs ih =>
    obtain ⟨hkv, hrest⟩ := List.forall_mem_cons.mp hkvs
    obtain ⟨s1, hparse, hreads⟩ := h.of_cons
    rw [List.map_cons, FileState.readLines, readLine_settingLine net _ hkv, hassign, hparse]
    exact ih hrest hreads

end Lines

/-! ## The interface -/

def Config.after (cfg : Config) (n : Nat) : Config :=
  { privateKey := if 0 < n then cfg.privateKey else none
    listenPort := if 1 < n then cfg.listenPort else none
    jc := if 2 < n then cfg.jc else none
    jmin := if 3 < n then cfg.jmin else none
    jmax := if 4 < n then cfg.jmax else none
    s1 := if 5 < n then cfg.s1 else none
    s2 := if 6 < n then cfg.s2 else none
    s3 := if 7 < n then cfg.s3 else none
    s4 := if 8 < n then cfg.s4 else none
    h1 := if 9 < n then cfg.h1 else none
    h2 := if 10 < n then cfg.h2 else none
    h3 := if 11 < n then cfg.h3 else none
    h4 := if 12 < n then cfg.h4 else none
    i1 := if 13 < n then cfg.i1 else none
    i2 := if 14 < n then cfg.i2 else none
    i3 := if 15 < n then cfg.i3 else none
    i4 := if 16 < n then cfg.i4 else none
    i5 := if 17 < n then cfg.i5 else none }

section Interface

variable {c c' : Config} {key name : String}

theorem Reads.int (put : Config → Option Int64 → Config) {o : Option Int64}
    (h : ∀ c v, parseInterfaceKV c (toLower (ascii key)) v =
      parseIntField v name fun n => put c (some n) := by intros; rfl)
    (hstart : put c none = c := by rfl) (hend : put c o = c' := by rfl) :
    Reads parseInterfaceKV c (optionKV key intText o) c' := by
  refine Reads.option ?_ ?_
  · rintro rfl
    rw [← hend, hstart]
  · rintro n rfl
    rw [h, parseIntField, readInt_intText, ← hend]
    rfl

theorem Reads.string (put : Config → Option Bytes → Config) {o : Option Bytes}
    (h : ∀ c v, parseInterfaceKV c (toLower (ascii key)) v = .ok (put c (some v)) := by intros; rfl)
    (hstart : put c none = c := by rfl) (hend : put c o = c' := by rfl) :
    Reads parseInterfaceKV c (optionKV key id o) c' := by
  refine Reads.option ?_ ?_
  · rintro rfl
    rw [← hend, hstart]
  · rintro v rfl
    rw [← hend]
    exact h c v

end Interface

/-- The field after the first `n` is read. -/
abbrev Config.ReadsField (cfg : Config) (n : Nat) (kvs : List (String × Bytes)) : Prop :=
  Reads parseInterfaceKV (cfg.after n) kvs (cfg.after (n + 1))

theorem reads_intSettings (cfg : Config) :
    Reads parseInterfaceKV (cfg.after 2)
      (cfg.intSettings.flatMap fun kv => optionKV kv.1 intText kv.2) (cfg.after 9) := by
  have hjc : cfg.ReadsField 2 (optionKV "Jc" intText cfg.jc) :=
    .int fun c o => { c with jc := o }
  have hjmin : cfg.ReadsField 3 (optionKV "Jmin" intText cfg.jmin) :=
    .int fun c o => { c with jmin := o }
  have hjmax : cfg.ReadsField 4 (optionKV "Jmax" intText cfg.jmax) :=
    .int fun c o => { c with jmax := o }
  have hs1 : cfg.ReadsField 5 (optionKV "S1" intText cfg.s1) :=
    .int fun c o => { c with s1 := o }
  have hs2 : cfg.ReadsField 6 (optionKV "S2" intText cfg.s2) :=
    .int fun c o => { c with s2 := o }
  have hs3 : cfg.ReadsField 7 (optionKV "S3" intText cfg.s3) :=
    .int fun c o => { c with s3 := o }
  have hs4 : cfg.ReadsField 8 (optionKV "S4" intText cfg.s4) :=
    .int fun c o => { c with s4 := o }
  exact hjc.append (hjmin.append (hjmax.append (hs1.append (hs2.append (hs3.append
    (hs4.append Reads.nil))))))

theorem reads_stringSettings (cfg : Config) :
    Reads parseInterfaceKV (cfg.after 9)
      (cfg.stringSettings.flatMap fun kv => optionKV kv.1 id kv.2) (cfg.after 18) := by
  have hh1 : cfg.ReadsField 9 (optionKV "H1" id cfg.h1) :=
    .string fun c o => { c with h1 := o }
  have hh2 : cfg.ReadsField 10 (optionKV "H2" id cfg.h2) :=
    .string fun c o => { c with h2 := o }
  have hh3 : cfg.ReadsField 11 (optionKV "H3" id cfg.h3) :=
    .string fun c o => { c with h3 := o }
  have hh4 : cfg.ReadsField 12 (optionKV "H4" id cfg.h4) :=
    .string fun c o => { c with h4 := o }
  have hi1 : cfg.ReadsField 13 (optionKV "I1" id cfg.i1) :=
    .string fun c o => { c with i1 := o }
  have hi2 : cfg.ReadsField 14 (optionKV "I2" id cfg.i2) :=
    .string fun c o => { c with i2 := o }
  have hi3 : cfg.ReadsField 15 (optionKV "I3" id cfg.i3) :=
    .string fun c o => { c with i3 := o }
  have hi4 : cfg.ReadsField 16 (optionKV "I4" id cfg.i4) :=
    .string fun c o => { c with i4 := o }
  have hi5 : cfg.ReadsField 17 (optionKV "I5" id cfg.i5) :=
    .string fun c o => { c with i5 := o }
  exact hh1.append (hh2.append (hh3.append (hh4.append (hi1.append (hi2.append (hi3.append
    (hi4.append (hi5.append Reads.nil))))))))

theorem reads_config (cfg : Config) : Reads parseInterfaceKV {} cfg.settings (cfg.after 18) := by
  have hkey : Reads parseInterfaceKV {} (optionKV "PrivateKey" Key.string cfg.privateKey)
      (cfg.after 1) := by
    refine Reads.option ?_ ?_
    · intro hnone
      simp [Config.after, hnone]
    · intro k hsome
      show setField _ (Key.parseKey k.string) _ = _
      simp [Key.parseKey_string, setField, Config.after, hsome]
  have hport : cfg.ReadsField 1 (optionKV "ListenPort" intText cfg.listenPort) :=
    .int fun c o => { c with listenPort := o }
  exact ((hkey.append hport).append (reads_intSettings cfg)).append (reads_stringSettings cfg)

/-! ## The peers -/

def PeerConfig.filed (peer : PeerConfig) : PeerConfig :=
  { peer with remove := false, updateOnly := false, replaceAllowedIPs := false }

/-- The texts of the peer are read back, and its keepalive is in seconds. -/
structure PeerConfig.Storable (net : NetParsers) (peer : PeerConfig) : Prop where
  endpoint : ∀ a ∈ peer.endpoint,
    a.zone = [] ∧ (a.ip.length = 4 ∨ a.ip.length = 16) ∧ net.resolveUDPAddr a.text = some a
  keepalive : ∀ d ∈ peer.persistentKeepaliveInterval, ∃ k : Int, d.toInt = k * 1000000000
  networks : ∀ n ∈ peer.allowedIPs, net.parseCIDR n.text = some n

variable {net : NetParsers}

theorem parseAllowedIPs_cons {piece : Bytes} {n : IPNet}
    (hpiece : ByteText.trimSpace piece = n.text) (hn : net.parseCIDR n.text = some n)
    (rest : List Bytes) :
    parseAllowedIPs net (piece :: rest) = (parseAllowedIPs net rest).map (n :: ·) := by
  simp only [parseAllowedIPs, hpiece, hn, n.text_ne_nil, if_false]

theorem parseAllowedIPs_joinNetworks {ns : List IPNet} (hne : ns ≠ [])
    (hns : ∀ n ∈ ns, net.parseCIDR n.text = some n) :
    parseAllowedIPs net ((joinNetworks ns).splitOn 0x2c) = .ok ns := by
  have htrim : ∀ n : IPNet, Trimmed n.text := fun n => n.plain_text.visible.trimmed
  have hcomma : ∀ n : IPNet, 0x2c ∉ n.text := fun n => n.plain_text.notMem (by decide)
  have htail : ∀ ns : List IPNet, (∀ n ∈ ns, net.parseCIDR n.text = some n) →
      parseAllowedIPs net ((ns.map IPNet.text).map (0x20 :: ·)) = .ok ns := by
    intro ns hns
    induction ns with
    | nil => rfl
    | cons n ns ih =>
      obtain ⟨hn, hns⟩ := List.forall_mem_cons.mp hns
      rw [List.map_cons, List.map_cons,
        parseAllowedIPs_cons (trimSpace_blank_cons (by decide) (htrim n)) hn, ih hns]
      rfl
  obtain ⟨n, ns, rfl⟩ := List.exists_cons_of_ne_nil hne
  obtain ⟨hn, hns⟩ := List.forall_mem_cons.mp hns
  rw [joinNetworks, show ascii ", " = [0x2c, 0x20] from rfl, List.map_cons,
    splitOn_intercalate (by decide) (hcomma n) (by simp [hcomma]),
    parseAllowedIPs_cons (trimSpace_eq_self_iff.mpr (htrim n)) hn, htail ns hns]
  rfl

theorem keepaliveText_eq {d : Int64} {k : Int} (h : d.toInt = k * 1000000000) :
    isInt64 k ∧ keepaliveText d = ascii (itoa k) := by
  have hd : isInt64 (k * 1000000000) := h ▸ isInt64_toInt d
  refine ⟨?_, by rw [keepaliveText, h, seconds_mul hd]⟩
  obtain ⟨hlo, hhi⟩ := hd
  constructor <;> omega

def PeerConfig.after (peer : PeerConfig) (n : Nat) : PeerConfig :=
  { publicKey := if 0 < n then peer.publicKey else .zero
    presharedKey := if 1 < n then peer.presharedKey else none
    endpoint := if 2 < n then peer.endpoint else none
    persistentKeepaliveInterval := if 3 < n then peer.persistentKeepaliveInterval else none }

variable {peer : PeerConfig}

theorem reads_peer (h : peer.Storable net) :
    Reads (parsePeerKV net) {} peer.settings peer.filed := by
  have hkey : Reads (parsePeerKV net) {} (optionKV "PublicKey" Key.string (some peer.publicKey))
      (peer.after 1) := by
    refine Reads.option (by simp) ?_
    intro k hk
    obtain rfl := Option.some.inj hk
    show setField _ (Key.parseKey peer.publicKey.string) _ = _
    rw [Key.parseKey_string]
    rfl
  have hpsk : Reads (parsePeerKV net) (peer.after 1)
      (optionKV "PresharedKey" Key.string peer.presharedKey) (peer.after 2) := by
    refine Reads.option (fun hnone => by simp [after, hnone]) ?_
    intro k hk
    show setField _ (Key.parseKey k.string) _ = _
    simp [Key.parseKey_string, setField, after, hk]
  have hendpoint : Reads (parsePeerKV net) (peer.after 2)
      (optionKV "Endpoint" UDPAddr.text peer.endpoint) (peer.after 3) := by
    refine Reads.option (fun hnone => by simp [after, hnone]) ?_
    intro a ha
    show setField _ (net.resolveUDPAddr a.text) _ = _
    simp [(h.endpoint a ha).2.2, setField, after, ha]
  have hkeepalive : Reads (parsePeerKV net) (peer.after 3)
      (optionKV "PersistentKeepalive" keepaliveText peer.persistentKeepaliveInterval)
      (peer.after 4) := by
    refine Reads.option (fun hnone => by simp [after, hnone]) ?_
    intro d hd
    obtain ⟨k, hk⟩ := h.keepalive d hd
    obtain ⟨hint, htext⟩ := keepaliveText_eq hk
    have hmul : Int64.ofInt k * 1000000000 = d := by
      rw [← Int64.ofInt_toInt d, hk, Int64.ofInt_mul]
      rfl
    show setField _ (readInt (keepaliveText d)) _ = _
    simp [htext, readInt_itoa hint, setField, after, hd, hmul]
  have hnetworks : Reads (parsePeerKV net) (peer.after 4)
      (optionKV "AllowedIPs" joinNetworks peer.networks?) peer.filed := by
    refine Reads.option ?_ ?_
    · intro hnone
      have hnil : peer.allowedIPs = [] := by
        by_contra hne
        simp [networks?, hne] at hnone
      rw [filed, hnil]
      rfl
    · intro ns hns
      obtain ⟨hne, rfl⟩ : peer.allowedIPs ≠ [] ∧ peer.allowedIPs = ns := by
        simpa [networks?] using hns
      show (parseAllowedIPs net ((joinNetworks peer.allowedIPs).splitOn 0x2c)).map _ = _
      rw [parseAllowedIPs_joinNetworks hne h.networks]
      rfl
  exact (((hkey.append hpsk).append hendpoint).append hkeepalive).append hnetworks

/-! ## The lines fit -/

variable {key : String}

theorem forall_mem_optionKV {α : Type} {P : String × Bytes → Prop} {text : α → Bytes}
    {o : Option α} : (∀ kv ∈ optionKV key text o, P kv) ↔ ∀ a ∈ o, P (key, text a) := by
  cases o <;> simp [optionKV]

variable {value : Bytes}

theorem isSetting_of_visible (hkey : IsWord (ascii key))
    (hvalue : Visible value) : IsSetting (key, value) :=
  ⟨hkey, hvalue.trimmed, notMem_of_range hvalue (by decide)⟩

def Config.Storable (cfg : Config) : Prop :=
  ∀ kv ∈ cfg.stringSettings, ∀ s ∈ kv.2, lf ∉ s ∧ Trimmed s

variable {cfg : Config}

theorem Config.isSetting (h : cfg.Storable) : ∀ kv ∈ cfg.settings, IsSetting kv := by
  have hints : ∀ kv ∈ cfg.intSettings, IsWord (ascii kv.1) := by
    simp only [Config.intSettings, List.forall_mem_cons]
    decide
  have hstrings : ∀ kv ∈ cfg.stringSettings, IsWord (ascii kv.1) := by
    simp only [Config.stringSettings, List.forall_mem_cons]
    decide
  simp only [Config.settings, List.forall_mem_append, List.forall_mem_flatMap, forall_mem_optionKV]
  refine ⟨⟨⟨?_, ?_⟩, ?_⟩, ?_⟩
  · exact fun k _ => isSetting_of_visible (by decide) k.visible_string
  · exact fun n _ => isSetting_of_visible (by decide) (plain_intText n).visible
  · exact fun kv hkv n _ => isSetting_of_visible (hints kv hkv) (plain_intText n).visible
  · exact fun kv hkv s hs => ⟨hstrings kv hkv, (h kv hkv s hs).2, (h kv hkv s hs).1⟩

theorem trimmed_joinNetworks (ns : List IPNet) : Trimmed (joinNetworks ns) := by
  induction ns with
  | nil => exact Trimmed.nil
  | cons n ns ih =>
    cases ns with
    | nil => simpa [joinNetworks] using n.plain_text.visible.trimmed
    | cons n' ns =>
      have hfront : Visible (n.text ++ [0x2c]) := by
        intro x hx
        rcases List.mem_append.mp hx with hx | hx
        · exact n.plain_text.visible x hx
        · rw [List.mem_singleton.mp hx]
          decide
      have hjoin : joinNetworks (n :: n' :: ns) =
          (n.text ++ [0x2c]) ++ 0x20 :: joinNetworks (n' :: ns) := by
        simp [joinNetworks, List.intercalate_cons_cons, show ascii ", " = [0x2c, 0x20] from rfl]
      have hne : joinNetworks (n' :: ns) ≠ [] := by
        cases ns <;> simp [joinNetworks, List.intercalate_cons_cons, n'.text_ne_nil]
      rw [hjoin]
      exact hfront.trimmed.append_blank (by decide) ih (by simp) hne

theorem lf_notMem_joinNetworks (ns : List IPNet) : lf ∉ joinNetworks ns := by
  have hglue : ∀ x ∈ ascii ", ", x ≠ lf := by
    have hlf : lf ∉ ascii ", " := by decide
    exact fun x hx heq => hlf (heq ▸ hx)
  have htexts : ∀ t ∈ ns.map IPNet.text, ∀ x ∈ t, x ≠ lf := by
    intro t ht x hx heq
    obtain ⟨n, -, rfl⟩ := List.mem_map.mp ht
    exact n.plain_text.notMem (by decide) (heq ▸ hx)
  exact fun hmem => forall_mem_intercalate hglue htexts lf hmem rfl

theorem PeerConfig.isSetting (h : peer.Storable net) : ∀ kv ∈ peer.settings, IsSetting kv := by
  simp only [settings, List.forall_mem_append, forall_mem_optionKV]
  refine ⟨⟨⟨⟨?_, ?_⟩, ?_⟩, ?_⟩, ?_⟩
  · exact fun k _ => isSetting_of_visible (by decide) k.visible_string
  · exact fun k _ => isSetting_of_visible (by decide) k.visible_string
  · exact fun a ha =>
      isSetting_of_visible (by decide) (UDPAddr.plain_text (h.endpoint a ha).1).visible
  · exact fun d _ => isSetting_of_visible (by decide) (plain_itoa _).visible
  · exact fun ns _ => ⟨show IsWord (ascii "AllowedIPs") by decide, trimmed_joinNetworks ns,
      lf_notMem_joinNetworks ns⟩

def Fits (kv : String × Bytes) : Prop := (settingLine kv).length < maxScanTokenSize

theorem fits_of_length_le {k : Nat} (hkey : (ascii key).length ≤ 19)
    (hvalue : value.length ≤ k) (hk : k ≤ 100) : Fits (key, value) := by
  rw [Fits, length_settingLine, maxScanTokenSize]
  dsimp only
  omega

theorem Config.fits_iff (cfg : Config) : (∀ kv ∈ cfg.settings, Fits kv) ↔
    ∀ kv ∈ cfg.stringSettings, ∀ s ∈ kv.2, s.length + 5 < maxScanTokenSize := by
  have hints : ∀ kv ∈ cfg.intSettings, (ascii kv.1).length ≤ 19 := by
    simp only [Config.intSettings, List.forall_mem_cons]
    decide
  have hstrings : ∀ kv ∈ cfg.stringSettings, (ascii kv.1).length = 2 := by
    simp only [Config.stringSettings, List.forall_mem_cons]
    decide
  simp only [Config.settings, List.forall_mem_append, List.forall_mem_flatMap, forall_mem_optionKV]
  constructor
  · rintro ⟨-, h⟩ kv hkv s hs
    have hfits := h kv hkv s hs
    rw [Fits, length_settingLine, hstrings kv hkv] at hfits
    dsimp only [id] at hfits
    omega
  · intro h
    refine ⟨⟨⟨?_, ?_⟩, ?_⟩, ?_⟩
    · exact fun k _ => fits_of_length_le (by decide) (k.length_string).le (by decide)
    · exact fun n _ => fits_of_length_le (by decide) (length_intText_le n) (by decide)
    · exact fun kv hkv n _ => fits_of_length_le (hints kv hkv) (length_intText_le n) (by decide)
    · intro kv hkv s hs
      have hlen := h kv hkv s hs
      rw [Fits, length_settingLine, hstrings kv hkv]
      dsimp only [id]
      omega

theorem PeerConfig.fits_iff (h : peer.Storable net) :
    (∀ kv ∈ peer.settings, Fits kv) ↔
      (joinNetworks peer.allowedIPs).length + 13 < maxScanTokenSize := by
  have hnetworks : (∀ ns ∈ peer.networks?, Fits ("AllowedIPs", joinNetworks ns)) ↔
      (joinNetworks peer.allowedIPs).length + 13 < maxScanTokenSize := by
    have hkey : (ascii "AllowedIPs").length = 10 := by decide
    by_cases hne : peer.allowedIPs = []
    · have hshort : (joinNetworks []).length + 13 < maxScanTokenSize := by decide
      simp [networks?, hne, hshort]
    · simp only [networks?, hne, if_false, Option.mem_def, Option.some.injEq, forall_eq',
        Fits, length_settingLine, hkey]
      omega
  simp only [settings, List.forall_mem_append, forall_mem_optionKV, hnetworks]
  refine and_iff_right ⟨⟨⟨?_, ?_⟩, ?_⟩, ?_⟩
  · exact fun k _ => fits_of_length_le (by decide) (k.length_string).le (by decide)
  · exact fun k _ => fits_of_length_le (by decide) (k.length_string).le (by decide)
  · intro a ha
    obtain ⟨hzone, hip, -⟩ := h.endpoint a ha
    exact fits_of_length_le (by decide) (UDPAddr.length_text_le hzone hip) (by decide)
  · intro d hd
    obtain ⟨k, hk⟩ := h.keepalive d hd
    obtain ⟨hint, htext⟩ := keepaliveText_eq hk
    have hlen : (keepaliveText d).length ≤ 20 := by
      rw [htext, length_ascii]
      exact length_itoa_le hint
    exact fits_of_length_le (by decide) hlen (by decide)

/-! ## The file -/

section File

variable {net : NetParsers} {cfg : Config} {peers : List PeerConfig}

theorem readLine_interface (st : FileState) :
    st.readLine net (ascii "[Interface]") = .ok (st.enter (ascii "interface")) := by
  rfl

theorem readLine_peer (st : FileState) :
    st.readLine net (ascii "[Peer]") = .ok (st.enter (ascii "peer")) := by
  rfl

theorem readLine_nil (st : FileState) : st.readLine net [] = .ok st := by
  rfl

theorem readLines_peerLines {peer : PeerConfig} (h : peer.Storable net) (st : FileState) :
    st.readLines net (peerLines peer) =
      .ok { st.flushPeer with currentSection := ascii "peer", currentPeer := some peer.filed } := by
  simp only [peerLines, FileState.readLines, readLine_nil, readLine_peer]
  exact readLines_settings
    (fun p => { st.flushPeer with currentSection := ascii "peer", currentPeer := some p })
    (fun _ _ _ => rfl) (isSetting h) (reads_peer h)

theorem readLines_peers (h : ∀ peer ∈ peers, peer.Storable net) (st : FileState) :
    ∃ st', st.readLines net (peers.flatMap peerLines) = .ok st' ∧ st'.cfg = st.cfg ∧
      st'.flushPeer.peers = st.flushPeer.peers ++ peers.map filed := by
  induction peers generalizing st with
  | nil => exact ⟨st, rfl, rfl, by simp⟩
  | cons peer peers ih =>
    obtain ⟨hpeer, hpeers⟩ := List.forall_mem_cons.mp h
    obtain ⟨st', hread, hcfg, hflush⟩ := ih hpeers
      { st.flushPeer with currentSection := ascii "peer", currentPeer := some peer.filed }
    refine ⟨st', ?_, ?_, ?_⟩
    · rw [List.flatMap_cons, readLines_append (readLines_peerLines hpeer st), hread]
    · rw [hcfg]
      show st.flushPeer.cfg = st.cfg
      unfold FileState.flushPeer
      split <;> rfl
    · rw [hflush]
      simp [FileState.flushPeer]

variable (hcfg : cfg.Storable) (hpeers : ∀ peer ∈ peers, peer.Storable net)
include hpeers

theorem fileLines_short_iff :
    (∀ line ∈ fileLines cfg peers, line.length < maxScanTokenSize) ↔
      (∀ kv ∈ cfg.stringSettings, ∀ s ∈ kv.2, s.length + 5 < maxScanTokenSize) ∧
        ∀ peer ∈ peers, (joinNetworks peer.allowedIPs).length + 13 < maxScanTokenSize := by
  have hheads : (ascii "[Interface]").length < maxScanTokenSize ∧
      ([] : Bytes).length < maxScanTokenSize ∧ (ascii "[Peer]").length < maxScanTokenSize := by
    decide
  rw [← Config.fits_iff]
  simp only [fileLines, peerLines, List.cons_append, List.forall_mem_cons, List.forall_mem_append,
    List.forall_mem_flatMap, List.forall_mem_map, hheads, true_and]
  refine and_congr Iff.rfl (forall₂_congr fun peer hpeer => ?_)
  exact fits_iff (hpeers peer hpeer)

include hcfg

theorem readLines_fileLines :
    ∃ st, FileState.readLines net {} (fileLines cfg peers) = .ok st ∧ st.cfg = cfg.after 18 ∧
      st.flushPeer.peers = peers.map filed := by
  have hsettings : FileState.readLines net { currentSection := ascii "interface" }
      (cfg.settings.map settingLine) =
        .ok { cfg := cfg.after 18, currentSection := ascii "interface" } :=
    readLines_settings (fun c => { cfg := c, currentSection := ascii "interface" })
      (fun _ _ _ => rfl) (Config.isSetting hcfg) (reads_config cfg)
  obtain ⟨st, hread, hst, hflush⟩ := readLines_peers hpeers
    { cfg := cfg.after 18, currentSection := ascii "interface" }
  refine ⟨st, ?_, hst, hflush⟩
  rw [fileLines, List.cons_append, FileState.readLines, readLine_interface]
  exact (readLines_append hsettings _).trans hread

theorem fileLines_clean :
    ∀ line ∈ fileLines cfg peers, lf ∉ line ∧ dropCR line = line := by
  have hsetting : ∀ kv, IsSetting kv →
      lf ∉ settingLine kv ∧ dropCR (settingLine kv) = settingLine kv :=
    fun kv h => ⟨lf_notMem_settingLine h, dropCR_settingLine h⟩
  simp only [fileLines, peerLines, List.cons_append, List.forall_mem_cons, List.forall_mem_append,
    List.forall_mem_flatMap, List.forall_mem_map]
  refine ⟨by decide, fun kv hkv => hsetting kv (Config.isSetting hcfg kv hkv), ?_⟩
  exact fun peer hpeer => ⟨by decide, by decide, fun kv hkv =>
    hsetting kv (isSetting (hpeers peer hpeer) kv hkv)⟩

end File

/-! ## The round trip -/

def Config.device (cfg : Config) : Config := { cfg with replacePeers := false, peers := [] }

/-- The file that was written is read, with the same device fields and peers. -/
def RoundTrips (net : NetParsers) (path : Bytes) (cfg : Config) (peers : List PeerConfig) : Prop :=
  ∃ cfg', parseConfigFile net path (.ok { data := generateConfig cfg peers }) = .ok (cfg', peers) ∧
    cfg'.device = cfg.device

/-- Nothing is set that a file has no line for, and no line is too long. -/
structure InFile (cfg : Config) (peers : List PeerConfig) : Prop where
  mark : cfg.firewallMark = none
  flags : ∀ peer ∈ peers,
    peer.remove = false ∧ peer.updateOnly = false ∧ peer.replaceAllowedIPs = false
  strings : ∀ kv ∈ cfg.stringSettings, ∀ s ∈ kv.2, s.length + 5 < maxScanTokenSize
  networks : ∀ peer ∈ peers, (joinNetworks peer.allowedIPs).length + 13 < maxScanTokenSize

variable {peers : List PeerConfig}

theorem map_filed_eq_self_iff : peers.map filed = peers ↔
    ∀ peer ∈ peers, peer.remove = false ∧ peer.updateOnly = false ∧
      peer.replaceAllowedIPs = false := by
  have hmap : peers.map filed = peers.map id ↔ ∀ peer ∈ peers, peer.filed = id peer :=
    List.map_inj_left
  rw [List.map_id] at hmap
  rw [hmap]
  refine forall₂_congr fun peer _ => ?_
  cases peer
  simp [filed, eq_comm]

theorem device_after_iff :
    ({ cfg.after 18 with peers } : Config).device = cfg.device ↔ cfg.firewallMark = none := by
  cases cfg
  simp [Config.after, Config.device, eq_comm]

section RoundTrip

variable {net : NetParsers} {path : Bytes} {cfg : Config} {peers : List PeerConfig}

section

variable (hcfg : cfg.Storable) (hpeers : ∀ peer ∈ peers, peer.Storable net)
include hcfg hpeers

theorem splitOn_generateConfig :
    (generateConfig cfg peers).splitOn lf = fileLines cfg peers ++ [[]] := by
  rw [generateConfig_eq, splitOn_unlines_iff]
  exact fun line hline => (fileLines_clean hcfg hpeers line hline).1

theorem scan_generateConfig
    (hshort : ∀ line ∈ fileLines cfg peers, line.length < maxScanTokenSize) :
    scan { data := generateConfig cfg peers } = (fileLines cfg peers, none) := by
  have hclean : (fileLines cfg peers).map dropCR = fileLines cfg peers :=
    (List.map_congr_left fun line hline => (fileLines_clean hcfg hpeers line hline).2).trans
      (List.map_id _)
  have hend : scanPieces [[]] = ([], false) := by rfl
  simp only [scan, splitOn_generateConfig hcfg hpeers]
  rw [scanPieces_append hshort (List.cons_ne_nil _ _), hclean, hend]
  simp

theorem parseConfigFile_generateConfig (hpath : ByteText.trimSpace path ≠ [])
    (hshort : ∀ line ∈ fileLines cfg peers, line.length < maxScanTokenSize) :
    parseConfigFile net path (.ok { data := generateConfig cfg peers }) =
      .ok ({ cfg.after 18 with peers := peers.map filed },
        peers.map filed) := by
  obtain ⟨st, hread, hst, hflush⟩ := readLines_fileLines hcfg hpeers
  simp only [parseConfigFile, hpath, if_false, scan_generateConfig hcfg hpeers hshort, hread, hst,
    hflush]

theorem short_of_parseConfigFile {result : Config × List PeerConfig}
    (h : parseConfigFile net path (.ok { data := generateConfig cfg peers }) = .ok result) :
    ∀ line ∈ fileLines cfg peers, line.length < maxScanTokenSize := by
  have hscan : (scanPieces (fileLines cfg peers ++ [[]])).2 = false := by
    by_contra hlong
    have herr : (scan { data := generateConfig cfg peers }).2 = some .tooLong := by
      simp only [scan, splitOn_generateConfig hcfg hpeers]
      simp [hlong]
    simp only [parseConfigFile] at h
    split at h
    · cases h
    · rw [herr] at h
      cases hread : FileState.readLines net {} (scan { data := generateConfig cfg peers }).1 <;>
        rw [hread] at h <;> cases h
  exact fun line hline => length_lt_of_scanPieces hscan line (List.mem_append_left _ hline)

end

/-- **When a configuration survives being written and read**. -/
theorem roundTrips_iff (hpath : ByteText.trimSpace path ≠ []) (hcfg : cfg.Storable)
    (hpeers : ∀ peer ∈ peers, peer.Storable net) :
    RoundTrips net path cfg peers ↔ InFile cfg peers := by
  constructor
  · rintro ⟨cfg', hparse, hdevice⟩
    have hshort := short_of_parseConfigFile hcfg hpeers hparse
    rw [parseConfigFile_generateConfig hcfg hpeers hpath hshort] at hparse
    obtain ⟨rfl, hflags⟩ := Prod.mk.inj (Except.ok.inj hparse)
    obtain ⟨hstrings, hnetworks⟩ := (fileLines_short_iff hpeers).mp hshort
    exact ⟨device_after_iff.mp hdevice, map_filed_eq_self_iff.mp hflags, hstrings, hnetworks⟩
  · rintro ⟨hmark, hflags, hstrings, hnetworks⟩
    have hshort := (fileLines_short_iff hpeers).mpr ⟨hstrings, hnetworks⟩
    refine ⟨{ cfg.after 18 with peers }, ?_, device_after_iff.mpr hmark⟩
    rw [parseConfigFile_generateConfig hcfg hpeers hpath hshort, map_filed_eq_self_iff.mpr hflags]

end RoundTrip

def officePeer : PeerConfig :=
  { publicKey := .repeated 7
    endpoint := some officeAddr
    persistentKeepaliveInterval := some 25000000000
    allowedIPs := [officeLan, officeWan] }

def officeConfig : Config :=
  { privateKey := some (.repeated 9), listenPort := some 51820, jc := some 4, s1 := some (-1)
    h1 := some [], i1 := some (ascii "<b 0x16>") }

theorem storable_officeConfig : officeConfig.Storable := by
  unfold Config.Storable
  decide

theorem storable_officePeer : officePeer.Storable officeNet where
  endpoint := by decide
  keepalive := by
    intro d hd
    cases hd
    exact ⟨25, by decide⟩
  networks := by decide

theorem inFile_office : InFile officeConfig [officePeer] where
  mark := rfl
  flags := by decide
  strings := by decide
  networks := by decide

theorem roundTrips_iff_office :
    officeConfig.Storable ∧ officePeer.Storable officeNet ∧
      RoundTrips officeNet (ascii "wg0.conf") officeConfig [officePeer] := by
  have hpeers : ∀ peer ∈ [officePeer], peer.Storable officeNet :=
    List.forall_mem_singleton.mpr storable_officePeer
  refine ⟨storable_officeConfig, storable_officePeer, ?_⟩
  exact (roundTrips_iff (by decide) storable_officeConfig hpeers).mpr inFile_office

def markedConfig : Config := { firewallMark := some 7 }

/-- **A firewall mark is lost.** -/
theorem markedConfig_not_roundTrips :
    markedConfig.Storable ∧ ¬ RoundTrips officeNet (ascii "wg0.conf") markedConfig [] := by
  have hparse : parseConfigFile officeNet (ascii "wg0.conf")
      (.ok { data := generateConfig markedConfig [] }) = .ok ({}, []) := by
    rfl
  refine ⟨by unfold Config.Storable; decide, ?_⟩
  rintro ⟨cfg', hcfg', hdevice⟩
  rw [hparse] at hcfg'
  cases hcfg'
  exact absurd hdevice (by decide)

end AwgMesh.Wg.Text
