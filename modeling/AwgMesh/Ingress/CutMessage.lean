import AwgMesh.Ingress.ServerNames

/-!
# Messages that end before their fields do

`ClientHelloServerName` reads its fields up to the end of the record, not up to the end of the
handshake message. A message that ends inside its fields is completed by the bytes behind it. This
module says, on the bytes of the message alone, which messages can be completed to one with a name.
-/

namespace AwgMesh.Ingress

open Lib Lib.Checked ByteText List Option Head

/-! ## Which messages can be completed -/

/-- Some host name of `n` bytes begins with `x`. -/
def NameOpen (n : Nat) (x : Bytes) : Prop :=
  ∃ w h, (x ++ w).length = n ∧ Folds (trimSpace (x ++ w)) h ∧ IsHostname h

/-- The names of a server name list. -/
def NamesOpen : Nat → Bytes → Prop := (tagged 1).ScanOpen 1 NameOpen

/-- A server name list, with its length. -/
def ListOpen : Nat → Bytes → Prop := (tagged 0).Open 4 NamesOpen fun _ _ => False

/-- The extensions. -/
def ExtensionsOpen : Nat → Bytes → Prop := (tagged 2).ScanOpen 6 ListOpen

/-- The extension block, with its length. -/
def BlockOpen : Nat → Bytes → Prop := (tagged 0).Open 10 ExtensionsOpen fun _ _ => False

/-- What follows the random bytes of a hello. -/
def HelloOpen : Nat → Bytes → Prop :=
  let methods := byte.Open 0 (fun _ _ => False) BlockOpen
  let suites := (tagged 0).passing.Open 0 (fun _ _ => False) methods
  byte.Open 0 (fun _ _ => False) suites

/-- A letter behind blanks. -/
theorem trimSpace_blanks (n : Nat) : trimSpace (replicate n 0x20 ++ [0x61]) = [0x61] := by
  have hstrip : ∀ n fuel, n < fuel →
      stripFuel spaceRunes fuel (replicate n 0x20 ++ [0x61]) = [0x61] := by
    intro n
    induction n with
    | zero => rintro (- | fuel) hfuel <;> trivial
    | succ n ih =>
      rintro (- | fuel) hfuel
      · trivial
      · rw [replicate_succ, cons_append, stripFuel, (stripOne_blank (by decide) _).1]
        exact ih fuel (by omega)
  have hfront : stripWords spaceRunes (replicate n 0x20 ++ [0x61]) = [0x61] :=
    hstrip n _ (by simp)
  rw [trimSpace, hfront]
  decide

theorem decides_hostname (table : LowerTable) (bound : Nat) :
    Decides bound 1 NameOpen (fun name => (normalizeHostname table.toLower name).toOption) := by
  have hsome : ∀ name, (normalizeHostname table.toLower name).toOption.isSome ↔
      ∃ h, Folds (trimSpace name) h ∧ IsHostname h := by
    intro name
    simp only [← @normalizeHostname_eq_ok_folds table]
    cases normalizeHostname table.toLower name <;> simp [Except.toOption]
  constructor
  · intro n x _ _
    simp only [NameOpen, Completes, hsome, exists_and_left]
  · intro name _ h
    obtain ⟨h, hfolds, hname⟩ := (hsome name).mp h
    by_contra hempty
    cases eq_nil_of_length_eq_zero (Nat.lt_one_iff.mp (not_le.mp hempty))
    cases hfolds
    exact absurd hname.length.1 (by decide)
  · intro n hn _
    refine ⟨replicate (n - 1) 0x20 ++ [0x61], by simp; omega, (hsome _).mpr ⟨[0x61], ?_, ?_⟩⟩
    · rw [nil_append, trimSpace_blanks]
      exact Folds.nil.plain (c := 0x61) (by decide)
    · exact ⟨by decide, by decide +kernel, by decide +kernel, by decide +kernel⟩

theorem decides_inside {need bound : Nat} {inner : Nat → Bytes → Prop} {p : Bytes → Option Bytes}
    (hneed : need ≤ 255) (hp : Decides bound need inner p) :
    Decides bound (2 + need) ((tagged 0).Open need inner fun _ _ => False)
      ((tagged 0).field p fun _ => none) := by
  have hfield : Decides (bound + 1) (2 + need) ((tagged 0).Open need inner fun _ _ => False)
      ((tagged 0).field p fun _ => none) :=
    (tagged 0).decides_field hneed le_rfl (fun _ _ => hp) fun _ hread => Bool.noConfusion hread
  exact hfield.mono (Nat.le_succ bound)

theorem decides_behind (h : Head UInt8) (hread : ∀ x, h.reads x = false) {need bound : Nat}
    {rest : Nat → Bytes → Prop} {g : Bytes → Option Bytes} (hg : Decides bound need rest g) :
    Decides bound (h.size + need) (h.Open 0 (fun _ _ => False) rest)
      (h.field (fun _ => none) g) := by
  have hfield : Decides (bound + 1) (h.size + if h.reads [] then 0 else need)
      (h.Open 0 (fun _ _ => False) rest) (h.field (fun _ => none) g) :=
    h.decides_field (Nat.zero_le _) (Nat.zero_le need)
      (fun x hx => by rw [hread] at hx; cases hx) fun _ _ => hg
  rw [hread] at hfield
  exact hfield.mono (Nat.le_succ bound)

theorem decides_hello (table : LowerTable) (bound : Nat) :
    Decides bound 16 HelloOpen (helloFields (nameInBlock table.toLower)) :=
  have hnames := (tagged 1).decides_scan (by decide) rfl (decides_hostname table)
  have hextensions := (tagged 2).decides_scan (by decide) rfl fun bound =>
    decides_inside (by decide) (hnames bound)
  have hblock := decides_inside (by decide) (hextensions bound)
  have hmethods := decides_behind byte (fun _ => rfl) hblock
  have hsuites := decides_behind (tagged 0).passing (fun _ => rfl) hmethods
  decides_behind byte (fun _ => rfl) hsuites

/-! ## The message and what follows it -/

theorem helloFields_extend {p : Bytes → Option Bytes} {x : Bytes} (h : (helloFields p x).isSome)
    (t : Bytes) : helloFields p (x ++ t) = helloFields p x :=
  field_extend (p := fun _ => none) h fun h =>
    field_extend (p := fun _ => none) h fun h =>
      field_extend (p := fun _ => none) h fun h =>
        field_extend h fun hnone => absurd hnone Bool.false_ne_true

theorem helloFields_eq_bind (p : Bytes → Option Bytes) (x : Bytes) :
    helloFields p x = (helloFields some x).bind p := by
  simp only [helloFields, field_bind, bind_some, bind_none]

def recordOf (message : Bytes) : Bytes := [22, 3, 3] ++ bytes16 message.length ++ message

theorem recordBody_recordOf {message : Bytes} (h : message.length < 65536) :
    recordBody (recordOf message) = some message := by
  have hfield := @field_tagged some (fun _ => none) message 0 [] rfl h []
  rw [append_nil] at hfield
  exact hfield

theorem length_of_recordBody {record body : Bytes} (h : recordBody record = some body) :
    body.length < 65536 := by
  unfold recordBody at h
  split at h
  · next rest =>
      split at h
      · match rest with
        | [] | [_] =>
          rw [field_cut (by simp [tagged])] at h
          cases h
        | hi :: lo :: rest =>
          rcases (tagged 0).field_cases [hi, lo] rfl rest with
            ⟨-, hnone⟩ | ⟨content, _, rfl, hcontent, heq⟩
          · cases (hnone _ _).symm.trans h
          · cases (heq _ _).symm.trans h
            exact hcontent ▸ word_lt hi lo
      · cases h
  · cases h

theorem declared_take {body : Bytes} {L : Nat} (h : declared body = some L) (n : Nat) :
    declared (body.take (4 + n)) = some L := by
  unfold declared at h
  split at h
  · rw [Nat.add_comm]
    exact h
  · cases h

theorem extensionBlock_extend {message block : Bytes} (h : extensionBlock message = some block)
    (t : Bytes) (p : Bytes → Option Bytes) : helloFields p ((message ++ t).drop 38) = p block := by
  have hsome : (helloFields some (message.drop 38)).isSome := isSome_iff_exists.mpr ⟨_, h⟩
  have hlength := length_of_helloFields hsome
  rw [length_drop] at hlength
  rw [helloFields_eq_bind, drop_append_of_le_length (by omega), helloFields_extend hsome]
  exact congrArg (bind · p) h

theorem serverName_eq (toLower : Bytes → Bytes) {body block : Bytes} {L : Nat}
    (hL : declared body = some L) (hblock : extensionBlock (body.take (4 + L)) = some block) :
    serverName toLower body =
      if (body.take (4 + L)).head? = some 1 ∧ 4 + L ≤ (body.take (4 + L)).length then
        nameInBlock toLower block
      else none := by
  have hwhole := extensionBlock_extend hblock (body.drop (4 + L)) (nameInBlock toLower)
  rw [take_append_drop] at hwhole
  have hhead : (body.take (4 + L)).head? = body.head? := by simp [head?_take]
  have hlength : 4 + L ≤ (body.take (4 + L)).length ↔ 4 + L ≤ body.length := by
    rw [length_take]
    omega
  simp only [serverName, hL, hwhole, hhead, hlength, bind_some]

theorem serverName_hello {toLower : Bytes → Bytes} {body : Bytes} {L : Nat}
    (hL : declared body = some L) (hhead : body.head? = some 1) (hlength : 4 + L ≤ body.length) :
    serverName toLower body = helloFields (nameInBlock toLower) (body.drop 38) := by
  rw [serverName, hL, bind_some, if_pos ⟨hhead, hlength⟩]

theorem declared_append {message : Bytes} {L : Nat} (h : declared message = some L) (t : Bytes) :
    declared (message ++ t) = some L := by
  unfold declared at h
  split at h
  · exact h
  · cases h

/-- **Which messages can be completed** to the body of a record with a name. -/
theorem exists_serverName_iff (table : LowerTable) {message : Bytes} {L : Nat}
    (hL : declared message = some L) (hhead : message.head? = some 1)
    (hlength : message.length = 4 + L) (hfits : message.length < 65536) :
    (∃ t, (message ++ t).length < 65536 ∧ (serverName table.toLower (message ++ t)).isSome) ↔
      HelloOpen 65497 (message.drop 38) := by
  have hhello : ∀ t, serverName table.toLower (message ++ t) =
      helloFields (nameInBlock table.toLower) ((message ++ t).drop 38) := by
    intro t
    refine serverName_hello (declared_append hL t) ?_ ?_
    · rw [head?_append, hhead]
      rfl
    · rw [length_append]
      omega
  rw [(decides_hello table 65498).iff (by rw [length_drop]; omega) (by decide)]
  simp only [hhello, drop_append]
  constructor
  · rintro ⟨t, ht, hname⟩
    -- what fills the record up changes nothing
    generalize hfill : replicate (65535 - (message ++ t).length) (0 : UInt8) = fill
    have hlong := helloFields_extend hname fill
    rw [append_assoc] at hlong
    have hlength := length_of_helloFields hname
    refine ⟨_, ?_, by rw [hlong]; exact hname⟩
    simp [← hfill] at ht hlength ⊢
    omega
  · rintro ⟨y, hy, hname⟩
    refine ⟨replicate (38 - message.length) 0 ++ y, ?_, ?_⟩
    · simp at hy ⊢
      omega
    · rw [drop_append]
      simpa using hname

/-- **When the name comes from the message alone**: its fields end inside it, or the message is no
hello, or is not all there, or cannot be completed to one with a name. -/
theorem server_name_of_message_iff (table : LowerTable) {record body : Bytes}
    (hrecord : recordBody record = some body) {L : Nat} (hL : declared body = some L) :
    (∀ record' body', recordBody record' = some body' → declared body' = some L →
      body'.take (4 + L) = body.take (4 + L) → value (clientHelloServerName table.toLower record') =
          value (clientHelloServerName table.toLower record)) ↔
    (extensionBlock (body.take (4 + L))).isSome ∨ body.head? ≠ some 1 ∨ body.length < 4 + L ∨
      ¬ HelloOpen 65497 ((body.take (4 + L)).drop 38) := by
  have hbody := length_of_recordBody hrecord
  simp only [value_clientHelloServerName, hrecord, bind_some]
  constructor
  · intro hsame
    by_contra! hno
    obtain ⟨hblock, hhead, hlength, hopen⟩ := hno
    have htake : (body.take (4 + L)).length = 4 + L := by rw [length_take]; omega
    -- the message alone in a record has no name
    have halone := hsame _ _ (recordBody_recordOf (by omega)) (declared_take hL L)
      (by rw [take_take, Nat.min_self])
    have hnone : serverName table.toLower (body.take (4 + L)) = none := by
      have hfields := helloFields_eq_bind (nameInBlock table.toLower) ((body.take (4 + L)).drop 38)
      rw [show helloFields some _ = none from not_isSome_iff_eq_none.mp hblock] at hfields
      rw [serverName, declared_take hL, hfields]
      simp
    rw [recordBody_recordOf (by omega), bind_some, hnone] at halone
    -- a completed one has
    obtain ⟨t, ht, hname⟩ := (exists_serverName_iff table (declared_take hL L)
      (by simpa [head?_take] using hhead) htake (by omega)).mpr hopen
    have hcomplete := hsame _ _ (recordBody_recordOf ht) (declared_append (declared_take hL L) t)
      (by rw [take_left' htake])
    rw [recordBody_recordOf ht, bind_some, ← halone] at hcomplete
    rw [hcomplete] at hname
    cases hname
  · rintro (hblock | hno) record' body' hrecord' hL' htake <;> rw [hrecord', bind_some]
    · obtain ⟨block, hblock⟩ := isSome_iff_exists.mp hblock
      rw [serverName_eq _ hL hblock, serverName_eq _ hL' (htake ▸ hblock), htake]
    · have hnone : ∀ b : Bytes, b.length < 65536 → declared b = some L →
          b.take (4 + L) = body.take (4 + L) → serverName table.toLower b = none := by
        intro b hb hLb hsame
        by_contra hname
        obtain ⟨name, hname⟩ := ne_none_iff_exists'.mp hname
        have hguard : b.head? = some 1 ∧ 4 + L ≤ b.length := by
          rw [serverName, hLb, bind_some] at hname
          split_ifs at hname with hguard
          exact hguard
        have htaken : (b.take (4 + L)).length = 4 + L := by rw [length_take]; omega
        have hhead : (b.take (4 + L)).head? = some 1 := by simpa [head?_take] using hguard.1
        have hopen := (exists_serverName_iff table (declared_take hLb L) hhead htaken
          (by omega)).mp ⟨b.drop (4 + L), by rwa [take_append_drop],
            by rw [take_append_drop, hname]; rfl⟩
        rw [hsame] at hopen htaken hhead
        rw [length_take] at htaken
        rcases hno with hno | hno | hno
        · exact hno (by simpa [head?_take] using hhead)
        · omega
        · exact hno hopen
      rw [hnone _ (length_of_recordBody hrecord') hL' htake, hnone _ hbody hL rfl]

theorem server_name_of_sample :
    declared sampleHello.body = some sampleHello.message.length ∧
      ∀ record body, recordBody record = some body →
        declared body = some sampleHello.message.length →
        body.take (4 + sampleHello.message.length) = sampleHello.body →
          value (clientHelloServerName smallTable.toLower record) =
            value (clientHelloServerName smallTable.toLower sampleHello.encode) := by
  have hrecord : recordBody sampleHello.encode = some sampleHello.body := by decide
  have hL : declared sampleHello.body = some sampleHello.message.length := by decide
  have hmessage : sampleHello.body.take (4 + sampleHello.message.length) = sampleHello.body := by
    decide
  refine ⟨hL, ?_⟩
  intro record body hbody hdeclared htake
  refine (server_name_of_message_iff smallTable hrecord hL).mpr (Or.inl ?_) record body hbody
    hdeclared (by rw [htake, hmessage])
  rw [hmessage]
  decide

/-- The message ends behind the random bytes, the body goes on to a name of one letter. -/
def cutShort (letter : UInt8) : Bytes :=
  [1, 0, 0, 34] ++ replicate 34 0 ++ [0, 0, 0, 0, 0, 10, 0, 0, 0, 6, 0, 4, 0, 0, 1, letter]

/-- **Bytes behind the message decide**. -/
theorem server_name_behind_message :
    declared (cutShort 0x61) = some 34 ∧ declared (cutShort 0x62) = some 34 ∧
      (cutShort 0x61).take 38 = (cutShort 0x62).take 38 ∧
      value (clientHelloServerName smallTable.toLower (recordOf (cutShort 0x61))) = some [0x61] ∧
      value (clientHelloServerName smallTable.toLower (recordOf (cutShort 0x62))) =
        some [0x62] := by
  have hname : ∀ letter : UInt8, Folds (trimSpace [letter]) [letter] → IsHostname [letter] →
      value (clientHelloServerName smallTable.toLower (recordOf (cutShort letter))) =
        some [letter] := by
    intro letter hfolds hletter
    have hnormal : normalizeHostname smallTable.toLower [letter] = .ok [letter] :=
      normalizeHostname_eq_ok_folds.mpr ⟨hfolds, hletter⟩
    have hfields : helloFields (nameInBlock smallTable.toLower) ((cutShort letter).drop 38) =
        some [letter] := by
      show nameInBlock _ [0, 0, 0, 6, 0, 4, 0, 0, 1, letter] = _
      rw [nameInBlock, scan_eq]
      show nameAmong _ [0, 0, 1, letter] = _
      rw [nameAmong, scan_eq]
      show (normalizeHostname _ [letter]).toOption = _
      rw [hnormal]
      rfl
    have hlength : (cutShort letter).length < 65536 := by simp [cutShort]
    have hguard : (cutShort letter).head? = some 1 ∧ 4 + 34 ≤ (cutShort letter).length := by
      simp [cutShort]
    rw [value_clientHelloServerName, recordBody_recordOf hlength, bind_some, serverName,
      hfields, show declared (cutShort letter) = some 34 from rfl, bind_some, if_pos hguard]
  refine ⟨by decide, by decide, by decide, hname _ ?_ ?_, hname _ ?_ ?_⟩
  · exact Folds.nil.plain (c := 0x61) (by decide)
  · exact ⟨by decide, by decide +kernel, by decide +kernel, by decide +kernel⟩
  · exact Folds.nil.plain (c := 0x62) (by decide)
  · exact ⟨by decide, by decide +kernel, by decide +kernel, by decide +kernel⟩

end AwgMesh.Ingress
