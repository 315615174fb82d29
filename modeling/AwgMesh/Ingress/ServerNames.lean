import AwgMesh.Ingress.ClientHello
import AwgMesh.Lib.Fields

/-! # ClientHello messages and what is read from them -/

namespace AwgMesh.Ingress

open Lib Lib.Checked ByteText Head List UInt8

/-! ## Messages -/

def bytes16 (n : Nat) : Bytes := [ofNat (n / 256), ofNat (n % 256)]

def bytes24 (n : Nat) : Bytes := ofNat (n / 65536) :: bytes16 (n % 65536)

structure ServerName where
  nameType : UInt8
  name : Bytes
  name_lt : name.length < 65536

def ServerName.encode (n : ServerName) : Bytes := n.nameType :: bytes16 n.name.length ++ n.name

structure ServerNameList where
  names : List ServerName
  distinct : (names.map (·.nameType)).Nodup
  fits : (names.flatMap ServerName.encode).length < 65534

def ServerNameList.encode (l : ServerNameList) : Bytes :=
  bytes16 (l.names.flatMap ServerName.encode).length ++ l.names.flatMap ServerName.encode

structure Extension where
  extType : Nat
  data : Bytes
  extType_lt : extType < 65536
  data_lt : data.length < 65536

def Extension.encode (e : Extension) : Bytes := bytes16 e.extType ++ bytes16 e.data.length ++ e.data

structure ClientHello where
  recordVersion : UInt8 × UInt8
  version : UInt8 × UInt8
  random : Bytes
  sessionID : Bytes
  cipherSuites : Bytes
  compressionMethods : Bytes
  extensions : List Extension
  random_length : random.length = 32
  sessionID_lt : sessionID.length < 256
  cipherSuites_lt : cipherSuites.length < 65536
  compressionMethods_lt : compressionMethods.length < 256
  extensions_distinct : (extensions.map (·.extType)).Nodup
  fits : sessionID.length + cipherSuites.length + compressionMethods.length +
    (extensions.flatMap Extension.encode).length < 65492

namespace ClientHello

variable (hello : ClientHello)

def message : Bytes :=
  [hello.version.1, hello.version.2] ++ hello.random ++
    [ofNat hello.sessionID.length] ++ hello.sessionID ++
    bytes16 hello.cipherSuites.length ++ hello.cipherSuites ++
    [ofNat hello.compressionMethods.length] ++ hello.compressionMethods ++
    bytes16 (hello.extensions.flatMap Extension.encode).length ++
    hello.extensions.flatMap Extension.encode

def body : Bytes := 1 :: bytes24 hello.message.length ++ hello.message

def encode : Bytes :=
  [22, hello.recordVersion.1, hello.recordVersion.2] ++ bytes16 hello.body.length ++ hello.body

end ClientHello

/-! ## Reading numbers -/

@[simp] theorem length_bytes16 (n : Nat) : (bytes16 n).length = 2 := rfl

@[simp] theorem length_bytes24 (n : Nat) : (bytes24 n).length = 3 := rfl

theorem toNat_ofNat_of_lt {n : Nat} (h : n < 256) : (ofNat n).toNat = n := by
  rw [toNat_ofNat', Nat.mod_eq_of_lt h]

theorem uint16_append {b pre post : Bytes} {pos n : Nat} (hb : b = pre ++ bytes16 n ++ post)
    (hpos : pos = pre.length) (hn : n < 65536) : uint16 b pos = pure n := by
  unfold uint16
  have hhi : (index (bytes16 n) 0 : Checked HelloError UInt8) = pure (ofNat (n / 256)) := rfl
  have hlo : (index (bytes16 n) 1 : Checked HelloError UInt8) = pure (ofNat (n % 256)) := rfl
  rw [slice_append hb hpos (by rw [length_bytes16]), pure_bind, hhi, pure_bind, hlo, pure_bind,
    toNat_ofNat_of_lt (by omega), toNat_ofNat_of_lt (by omega)]
  congr 1
  omega

/-! ## Heads -/

def word (hi lo : UInt8) : Nat := hi.toNat * 256 + lo.toNat

theorem word_lt (hi lo : UInt8) : word hi lo < 65536 := by
  have hhi := hi.toNat_lt
  have hlo := lo.toNat_lt
  unfold word
  omega

theorem bytes16_word (hi lo : UInt8) : bytes16 (word hi lo) = [hi, lo] := by
  have hlo := lo.toNat_lt
  have hdiv : word hi lo / 256 = hi.toNat := by unfold word; omega
  have hmod : word hi lo % 256 = lo.toNat := by unfold word; omega
  rw [bytes16, hdiv, hmod, UInt8.ofNat_toNat, UInt8.ofNat_toNat]

theorem word_ofNat {n : Nat} (h : n < 65536) :
    word (ofNat (n / 256)) (ofNat (n % 256)) = n := by
  rw [word, toNat_ofNat_of_lt (by omega), toNat_ofNat_of_lt (by omega)]
  omega

/-- The least length of `need` or more that a length field, cut to `x`, can declare. -/
def leastLength (need : Nat) : Bytes → Nat
  | [] => need
  | [hi] => max need (hi.toNat * 256)
  | hi :: lo :: _ => word hi lo

theorem leastLength_le {need : Nat} {x y rest : Bytes} {hi lo : UInt8}
    (h : x ++ y = hi :: lo :: rest) (hneed : need ≤ word hi lo) :
    leastLength need x ≤ word hi lo := by
  match x, h with
  | [], _ => exact hneed
  | [a], h =>
    cases h
    exact max_le hneed (Nat.le_add_right _ _)
  | a :: b :: x, h =>
    cases h
    exact le_rfl

theorem le_leastLength {need : Nat} {x : Bytes} (hx : x.length < 2) :
    need ≤ leastLength need x := by
  match x, hx with
  | [], _ => exact le_rfl
  | [hi], _ => exact le_max_left _ _

theorem drop_eq_cons {k : Nat} {x : Bytes} (hx : k + 2 ≤ x.length) :
    ∃ hi lo rest, x.drop k = hi :: lo :: rest := by
  match hdrop : x.drop k with
  | [] | [_] =>
    have := congrArg List.length hdrop
    simp at this
    omega
  | hi :: lo :: rest => exact ⟨hi, lo, rest, rfl⟩

/-- A tag of `k` bytes and a length of two. The content is read if the tag is zero. -/
def tagged (k : Nat) : Head UInt8 where
  size := k + 2
  size_pos := by omega
  limit := 255
  reads x := (x.take k).all (· == 0)
  length need x := leastLength need (x.drop k)
  length_nil := by simp [leastLength]
  complete := by
    intro x need hneed
    match hdrop : x.drop k with
    | [] =>
      have hx : x.length ≤ k := List.drop_eq_nil_iff.mp hdrop
      refine ⟨List.replicate (k - x.length) 0 ++ bytes16 need, by simp; omega, ?_, ?_⟩
      · simp [List.take_append, List.take_of_length_le hx]
      · simp [List.drop_append, hdrop, bytes16, leastLength, word_ofNat (by omega : need < 65536)]
    | [hi] =>
      have hx := congrArg List.length hdrop
      have hhi := hi.toNat_lt
      simp at hx
      have hdiv : max need (hi.toNat * 256) / 256 = hi.toNat := by omega
      have hword := word_ofNat (by omega : max need (hi.toNat * 256) < 65536)
      rw [hdiv, UInt8.ofNat_toNat] at hword
      refine ⟨[UInt8.ofNat (max need (hi.toNat * 256) % 256)], by simp; omega, ?_, ?_⟩
      · rw [List.take_append_of_le_length (by omega)]
      · rw [List.drop_append_of_le_length (by omega), hdrop]
        exact hword
    | hi :: lo :: rest =>
      have hx := congrArg List.length hdrop
      simp at hx
      refine ⟨[], by simp; omega, by rw [List.append_nil], ?_⟩
      rw [List.append_nil, hdrop]
      rfl
  stable := by
    intro x hx y need
    obtain ⟨hi, lo, rest, hdrop⟩ := drop_eq_cons hx
    rw [List.take_append_of_le_length (by omega), List.drop_append_of_le_length (by omega), hdrop]
    exact ⟨rfl, rfl⟩
  least := by
    intro x y need hx hneed
    obtain ⟨hi, lo, rest, hdrop⟩ := drop_eq_cons hx
    rw [hdrop] at hneed ⊢
    exact leastLength_le (List.drop_append ▸ hdrop) hneed
  enough hx := le_leastLength (by rw [List.length_drop]; omega)
  reads_of := by
    intro x y _ hread
    rw [List.take_append, List.all_append, Bool.and_eq_true] at hread
    exact hread.1
  undecided := by
    intro x y _ hread hnot need
    have hx : x.length ≤ k := by
      by_contra hx
      rw [List.take_append_of_le_length (by omega), hread] at hnot
      cases hnot
    rw [List.drop_of_length_le hx]
    rfl

/-- A length of one byte. The content is passed over. -/
def byte : Head UInt8 where
  size := 1
  size_pos := by decide
  limit := 255
  reads _ := false
  length need x := x.head?.elim need toNat
  length_nil _ := rfl
  complete := by
    intro x need hneed
    cases x with
    | nil => exact ⟨[ofNat need], rfl, rfl, toNat_ofNat_of_lt (by omega)⟩
    | cons n x => exact ⟨[], by simp, rfl, by simp⟩
  stable := by
    intro x hx y need
    cases x with
    | nil => cases hx
    | cons n x => exact ⟨rfl, rfl⟩
  least := by
    intro x y need _ hneed
    cases x with
    | nil => exact hneed
    | cons n x => exact le_rfl
  enough := by
    intro x need hx
    cases x with
    | nil => exact le_rfl
    | cons n x => simp at hx
  reads_of _ hread := hread
  undecided _ hread := absurd hread Bool.false_ne_true

/-! ## What a server name is read from -/

variable (toLower : Bytes → Bytes)

theorem toOption_mapError {ε ε' α : Type} (f : ε → ε') (x : Except ε α) :
    (x.mapError f).toOption = x.toOption := by
  cases x <;> rfl

/-- The first name of type zero. -/
def nameAmong : Bytes → Option Bytes :=
  (tagged 1).scan fun name => (normalizeHostname toLower name).toOption

def nameInList : Bytes → Option Bytes := (tagged 0).field (nameAmong toLower) fun _ => none

/-- The server name extension. -/
def nameInBlock : Bytes → Option Bytes := (tagged 2).scan (nameInList toLower)

/-- The session id, the cipher suites and the compression methods are passed over, and `p` reads the
extension block. -/
def helloFields (p : Bytes → Option Bytes) : Bytes → Option Bytes :=
  let methods := byte.field (fun _ => none) ((tagged 0).field p fun _ => none)
  let suites := (tagged 0).passing.field (fun _ => none) methods
  byte.field (fun _ => none) suites

def extensionBlock (body : Bytes) : Option Bytes := helloFields some (body.drop 38)

def declared : Bytes → Option Nat
  | _ :: b₁ :: b₂ :: b₃ :: _ => some (b₁.toNat * 65536 + b₂.toNat * 256 + b₃.toNat)
  | _ => none

def serverName (body : Bytes) : Option Bytes :=
  (declared body).bind fun helloLen =>
    if body.head? = some 1 ∧ 4 + helloLen ≤ body.length then
      helloFields (nameInBlock toLower) (body.drop 38)
    else none

def recordBody : Bytes → Option Bytes
  | contentType :: _ :: _ :: rest =>
    if contentType = 22 then (tagged 0).field some (fun _ => none) rest else none
  | _ => none

/-! ## The positions of the source -/

theorem uint16_cons (pre : Bytes) {b post : Bytes} {pos : Nat} {hi lo : UInt8}
    (hb : b = pre ++ hi :: lo :: post) (hpos : pos = pre.length) :
    uint16 b pos = pure (word hi lo) := by
  have hpiece : b = pre ++ bytes16 (word hi lo) ++ post := by simp [hb, bytes16_word]
  exact uint16_append hpiece hpos (word_lt hi lo)

theorem value_refuseIf_of {α : Type} {bad : Prop} [Decidable bad] (h : bad) {err : HelloError}
    {k : Unit → Checked HelloError α} : value (refuseIf bad err >>= k) = none := by
  rw [value_bind, value_refuseIf, if_pos h]
  rfl

/-- A loop over positions that reads one field and goes on behind it. -/
theorem value_eq_scan {h : Head UInt8} {p : Bytes → Option Bytes} {l : Bytes}
    {loop : Nat → Checked HelloError Bytes}
    (hstep : ∀ pre xs, l = pre ++ xs → value (loop pre.length) =
      h.field p (fun rest => value (loop (l.length - rest.length))) xs) {pre xs : Bytes}
    (hl : l = pre ++ xs) : value (loop pre.length) = h.scan p xs := by
  have hpos : ∀ {pre xs : Bytes}, l = pre ++ xs → l.length - xs.length = pre.length := by
    rintro pre xs rfl
    simp
  rw [← hpos hl]
  refine eq_scan (F := fun xs => value (loop (l.length - xs.length))) (P := (· <:+ l))
    (fun n hxs => (drop_suffix n _).trans hxs) ?_ ⟨pre, hl.symm⟩
  rintro xs ⟨pre, hpre⟩
  rw [hpos hpre.symm, hstep pre xs hpre.symm]

theorem value_serverNameLoop {data pre entries post : Bytes}
    (hdata : data = pre ++ entries ++ post) :
    value (serverNameLoop toLower data (pre ++ entries).length pre.length) =
      nameAmong toLower entries := by
  refine value_eq_scan ?_ rfl
  intro pre' xs hxs
  rw [hxs] at hdata ⊢
  match xs with
  | [] | [_] | [_, _] =>
    rw [serverNameLoop, if_neg (by simp), field_cut (by simp [tagged])]
    rfl
  | nameType :: hi :: lo :: rest =>
    rw [serverNameLoop, if_pos (by simp), index_append (by simpa using hdata) rfl, pure_bind,
      uint16_cons (pre' ++ [nameType]) (by simpa using hdata) (by simp), pure_bind]
    rcases (tagged 1).field_cases [nameType, hi, lo] rfl rest with
      ⟨hshort, hnone⟩ | ⟨name, rest, rfl, hname, heq⟩
    · change rest.length < word hi lo at hshort
      rw [value_refuseIf_of (by simp; omega)]
      exact (hnone _ _).symm
    · change name.length = word hi lo at hname
      have hslice : data = (pre' ++ [nameType, hi, lo]) ++ name ++ (rest ++ post) := by
        simp [hdata]
      refine Eq.trans ?_ (heq _ _).symm
      rw [← hname, refuseIf_of_not (by simp; omega), pure_bind, slice_append hslice (by simp) rfl,
        pure_bind]
      by_cases htype : nameType = 0
      · rw [if_pos htype, if_pos (by simp [tagged, htype]), value_lift, toOption_mapError]
      · rw [if_neg htype, if_neg (by simp [tagged, htype])]
        congr 2
        simp
        omega

theorem value_parseSNIServerName (data : Bytes) :
    value (parseSNIServerName toLower data) = nameInList toLower data := by
  unfold parseSNIServerName nameInList
  match data with
  | [] | [_] =>
    rw [value_refuseIf_of (by simp), field_cut (by simp [tagged])]
  | hi :: lo :: rest =>
    have hword : uint16 (hi :: lo :: rest) 0 = pure (word hi lo) := uint16_cons [] rfl rfl
    rw [refuseIf_of_not (by simp), pure_bind, hword, pure_bind]
    rcases (tagged 0).field_cases [hi, lo] rfl rest with
      ⟨hshort, hnone⟩ | ⟨names, rest, rfl, hnames, heq⟩
    · change rest.length < word hi lo at hshort
      rw [value_refuseIf_of (Or.inr (by simpa using hshort))]
      exact (hnone _ _).symm
    · change names.length = word hi lo at hnames
      refine Eq.trans ?_ ((heq _ _).trans (if_pos rfl)).symm
      rw [← hnames, value_bind, value_refuseIf]
      split
      · next hbad =>
          cases eq_nil_of_length_eq_zero (hbad.resolve_right (by simp))
          rw [nameAmong, scan_eq, field_cut (by decide)]
          rfl
      · have hdata : hi :: lo :: (names ++ rest) = [hi, lo] ++ names ++ rest := by simp
        refine Eq.trans ?_ (value_serverNameLoop toLower hdata)
        rw [length_append]
        rfl

theorem word_eq_zero_iff (t₁ t₀ : UInt8) : word t₁ t₀ = 0 ↔ t₁ = 0 ∧ t₀ = 0 := by
  rw [word, ← UInt8.toNat_inj, ← UInt8.toNat_inj, UInt8.toNat_zero]
  omega

theorem value_extensionLoop {body pre block post : Bytes} (hbody : body = pre ++ block ++ post) :
    value (extensionLoop toLower body (pre ++ block).length pre.length) =
      nameInBlock toLower block := by
  refine value_eq_scan ?_ rfl
  intro pre' xs hxs
  rw [hxs] at hbody ⊢
  match xs with
  | [] | [_] | [_, _] | [_, _, _] =>
    rw [extensionLoop, if_neg (by simp), field_cut (by simp [tagged])]
    rfl
  | t₁ :: t₀ :: hi :: lo :: rest =>
    rw [extensionLoop, if_pos (by simp), uint16_cons pre' (by simpa using hbody) rfl, pure_bind,
      uint16_cons (pre' ++ [t₁, t₀]) (by simpa using hbody) (by simp), pure_bind]
    rcases (tagged 2).field_cases [t₁, t₀, hi, lo] rfl rest with
      ⟨hshort, hnone⟩ | ⟨data, rest, rfl, hdata, heq⟩
    · change rest.length < word hi lo at hshort
      rw [value_refuseIf_of (by simp; omega)]
      exact (hnone _ _).symm
    · change data.length = word hi lo at hdata
      have hslice : body = (pre' ++ [t₁, t₀, hi, lo]) ++ data ++ (rest ++ post) := by
        simp [hbody]
      refine Eq.trans ?_ (heq _ _).symm
      rw [← hdata, refuseIf_of_not (by simp; omega), pure_bind, slice_append hslice (by simp) rfl,
        pure_bind]
      by_cases htype : word t₁ t₀ = 0
      · rw [if_pos htype, value_parseSNIServerName, if_pos]
        simpa [tagged] using (word_eq_zero_iff t₁ t₀).mp htype
      · rw [if_neg htype, if_neg]
        · congr 2
          simp
          omega
        · simpa [tagged] using mt (word_eq_zero_iff t₁ t₀).mpr htype

theorem value_helloExtensions (body : Bytes) :
    value (helloExtensions toLower body) =
      helloFields (nameInBlock toLower) (body.drop 38) := by
  have hstart : body = body.take 38 ++ body.drop 38 := (List.take_append_drop 38 body).symm
  have hlength : body.length = (body.take 38).length + (body.drop 38).length := by
    rw [← List.length_append, ← hstart]
  have hmin : (body.take 38).length = min 38 body.length := List.length_take
  unfold helloExtensions helloFields
  dsimp only
  generalize body.drop 38 = rest₀ at hstart hlength
  generalize body.take 38 = start at hstart hlength hmin
  rcases rest₀ with - | ⟨sid, rest₀⟩
  · exact value_refuseIf_of (by simp at hlength; omega)
  rw [List.length_cons] at hlength
  rw [refuseIf_of_not (by omega), pure_bind, index_append hstart (by omega), pure_bind]
  rcases byte.field_cases [sid] rfl rest₀ with
    ⟨hshort, hnone⟩ | ⟨field, rest₁, rfl, hfield, heq⟩
  · change rest₀.length < sid.toNat at hshort
    exact (value_refuseIf_of (by omega)).trans (hnone _ _).symm
  change field.length = sid.toNat at hfield
  refine Eq.trans ?_ ((heq _ _).trans (if_neg Bool.false_ne_true)).symm
  rw [List.length_append, hfield] at hlength
  -- the cipher suites
  rcases rest₁ with - | ⟨hi, - | ⟨lo, rest₁⟩⟩
  iterate 2
    refine Eq.trans (value_refuseIf_of ?_) (field_cut (by simp [tagged, passing])).symm
    simp only [List.length_cons, List.length_nil] at hlength
    omega
  simp only [List.length_cons] at hlength
  have hsuites : body = (start ++ sid :: field) ++ hi :: lo :: rest₁ := by simp [hstart]
  rw [refuseIf_of_not (by omega), pure_bind, uint16_cons _ hsuites (by simp; omega), pure_bind]
  rcases (tagged 0).passing.field_cases [hi, lo] rfl rest₁ with
    ⟨hshort, hnone⟩ | ⟨suites, rest₂, rfl, hword, heq⟩
  · change rest₁.length < word hi lo at hshort
    exact (value_refuseIf_of (by omega)).trans (hnone _ _).symm
  change suites.length = word hi lo at hword
  refine Eq.trans ?_ ((heq _ _).trans (if_neg Bool.false_ne_true)).symm
  rw [List.length_append, hword] at hlength
  -- the compression methods
  rcases rest₂ with - | ⟨m, rest₂⟩
  · exact value_refuseIf_of (by simp at hlength; omega)
  rw [List.length_cons] at hlength
  have hmethods : body = (start ++ sid :: field ++ hi :: lo :: suites) ++ m :: rest₂ := by
    simp [hstart]
  rw [refuseIf_of_not (by omega), pure_bind, index_append hmethods (by simp; omega), pure_bind]
  rcases byte.field_cases [m] rfl rest₂ with
    ⟨hshort, hnone⟩ | ⟨methods, rest₃, rfl, hm, heq⟩
  · change rest₂.length < m.toNat at hshort
    exact (value_refuseIf_of (by omega)).trans (hnone _ _).symm
  change methods.length = m.toNat at hm
  refine Eq.trans ?_ ((heq _ _).trans (if_neg Bool.false_ne_true)).symm
  rw [List.length_append, hm] at hlength
  -- the extensions
  rcases rest₃ with - | ⟨hi', - | ⟨lo', rest₃⟩⟩
  iterate 2
    refine Eq.trans (value_refuseIf_of ?_) (field_cut (by simp [tagged])).symm
    simp only [List.length_cons, List.length_nil] at hlength
    omega
  simp only [List.length_cons] at hlength
  have hexts : body = (start ++ sid :: field ++ hi :: lo :: suites ++ m :: methods) ++
      hi' :: lo' :: rest₃ := by simp [hstart]
  rw [refuseIf_of_not (by omega), pure_bind, uint16_cons _ hexts (by simp; omega), pure_bind]
  rcases (tagged 0).field_cases [hi', lo'] rfl rest₃ with
    ⟨hshort, hnone⟩ | ⟨block, rest₄, rfl, hword', heq⟩
  · change rest₃.length < word hi' lo' at hshort
    exact (value_refuseIf_of (by omega)).trans (hnone _ _).symm
  change block.length = word hi' lo' at hword'
  refine Eq.trans ?_ (heq _ _).symm
  rw [List.length_append, hword'] at hlength
  have hblock : body = (start ++ sid :: field ++ hi :: lo :: suites ++ m :: methods ++
      [hi', lo']) ++ block ++ rest₄ := by simp [hstart]
  rw [refuseIf_of_not (by omega), pure_bind]
  refine Eq.trans ?_ (value_extensionLoop toLower hblock)
  congr 2 <;> simp <;> omega

theorem length_of_helloFields {p : Bytes → Option Bytes} {x : Bytes}
    (h : (helloFields p x).isSome) : 4 ≤ x.length := by
  obtain ⟨h₁, ⟨hread, -⟩ | ⟨-, h⟩⟩ := of_field (p := fun _ => none) h
  · cases hread
  obtain ⟨h₂, ⟨hread, -⟩ | ⟨-, h⟩⟩ := of_field (p := fun _ => none) h
  · cases hread
  obtain ⟨h₃, -⟩ := of_field h
  change 1 + _ ≤ _ at h₁ h₃
  change 2 + _ ≤ _ at h₂
  simp only [length_drop] at h₁ h₂ h₃
  change _ ≤ _ - (1 + _) at h₂
  change _ ≤ _ - (1 + _) - (2 + _) at h₃
  omega

theorem value_clientHelloServerName (record : Bytes) :
    value (clientHelloServerName toLower record) =
      (recordBody record).bind (serverName toLower) := by
  unfold clientHelloServerName
  rcases record with - | ⟨contentType, - | ⟨v₁, - | ⟨v₀, - | ⟨hi, - | ⟨lo, rest⟩⟩⟩⟩⟩
  iterate 3 exact value_refuseIf_of (by simp)
  iterate 2
    rw [value_refuseIf_of (by simp), recordBody, field_cut (by simp [tagged]), ite_self]
    rfl
  have hfirst : (index (contentType :: v₁ :: v₀ :: hi :: lo :: rest) 0 : Checked HelloError UInt8) =
      pure contentType := rfl
  rw [refuseIf_of_not (by simp), pure_bind, hfirst, pure_bind, recordBody]
  by_cases htype : contentType = 22
  swap
  · rw [value_refuseIf_of htype, if_neg htype]
    rfl
  have hlen : uint16 (contentType :: v₁ :: v₀ :: hi :: lo :: rest) 3 = pure (word hi lo) :=
    uint16_cons [contentType, v₁, v₀] rfl rfl
  rw [refuseIf_of_not (not_not.mpr htype), pure_bind, if_pos htype, hlen, pure_bind]
  rcases (tagged 0).field_cases [hi, lo] rfl rest with
    ⟨hshort, hnone⟩ | ⟨body, rest, rfl, hword, heq⟩
  · change rest.length < word hi lo at hshort
    rw [value_refuseIf_of (by simp; omega)]
    exact (congrArg (Option.bind · (serverName toLower)) (hnone some fun _ => none)).symm
  change body.length = word hi lo at hword
  refine Eq.trans ?_ (congrArg (Option.bind · (serverName toLower)) (heq some fun _ => none)).symm
  have hpiece : contentType :: v₁ :: v₀ :: hi :: lo :: (body ++ rest) =
      [contentType, v₁, v₀, hi, lo] ++ body ++ rest := by simp
  have hslice : (slice (contentType :: v₁ :: v₀ :: hi :: lo :: (body ++ rest)) 5 (5 + word hi lo) :
      Checked HelloError Bytes) = pure body := slice_append hpiece rfl (by rw [hword])
  rw [refuseIf_of_not (by simp; omega), pure_bind, hslice, pure_bind]
  change _ = serverName toLower body
  -- the handshake header
  by_cases hlength : body.length < 42
  · have hnone : helloFields (nameInBlock toLower) (body.drop 38) = none := by
      by_contra hsome
      have := length_of_helloFields (Option.isSome_iff_ne_none.mpr hsome)
      rw [length_drop] at this
      omega
    rw [value_refuseIf_of hlength, serverName, hnone]
    cases declared body <;> simp
  rw [refuseIf_of_not hlength, pure_bind]
  rcases body with - | ⟨msgType, - | ⟨b₁, - | ⟨b₂, - | ⟨b₃, body⟩⟩⟩⟩
  iterate 4 simp at hlength
  generalize hbody : msgType :: b₁ :: b₂ :: b₃ :: body = b at hlength
  have hat : ∀ i c, b[i]? = some c → (index b i : Checked HelloError UInt8) = pure c := by
    intro i c hc
    simp [index, hc]
    rfl
  rw [hat 0 msgType (by rw [← hbody]; rfl), hat 1 b₁ (by rw [← hbody]; rfl),
    hat 2 b₂ (by rw [← hbody]; rfl), hat 3 b₃ (by rw [← hbody]; rfl)]
  simp only [pure_bind, value_bind, value_refuseIf, value_helloExtensions]
  have hdeclared : declared b = some (b₁.toNat * 65536 + b₂.toNat * 256 + b₃.toNat) := by
    rw [← hbody, declared]
  have hhead : b.head? = some msgType := by rw [← hbody, head?_cons]
  rw [serverName, hdeclared, Option.bind_some, hhead]
  by_cases hmsg : msgType = 1
  · by_cases hfits : b.length - 4 < b₁.toNat * 65536 + b₂.toNat * 256 + b₃.toNat
    · rw [if_neg (not_not.mpr hmsg), if_pos hfits, if_neg (by omega)]
      rfl
    · rw [if_neg (not_not.mpr hmsg), if_neg hfits, if_pos ⟨by rw [hmsg], by omega⟩]
      rfl
  · simp [hmsg]

/-! ## Well-formed records -/

section

variable {p g : Bytes → Option Bytes} {content : Bytes}

theorem field_byte (h : content.length < 256) (rest : Bytes) :
    byte.field p g (ofNat content.length :: (content ++ rest)) = g rest :=
  field_content (show [ofNat content.length].length = _ from rfl)
    (toNat_ofNat_of_lt h).symm rest

theorem field_passing (h : content.length < 65536) (rest : Bytes) :
    (tagged 0).passing.field p g (bytes16 content.length ++ (content ++ rest)) = g rest :=
  field_content rfl (word_ofNat h).symm rest

theorem field_tagged {k : Nat} {tag : Bytes} (htag : tag.length = k) (h : content.length < 65536)
    (rest : Bytes) : (tagged k).field p g (tag ++ (bytes16 content.length ++ (content ++ rest))) =
      if tag.all (· == 0) then p content else g rest := by
  have hhead : (tag ++ bytes16 content.length).length = (tagged k).size := by simp [tagged, htag]
  have hlength : content.length = (tagged k).length 0 (tag ++ bytes16 content.length) := by
    show _ = leastLength 0 _
    rw [drop_left' htag]
    exact (word_ofNat h).symm
  have hread : (tagged k).reads (tag ++ bytes16 content.length) = tag.all (· == 0) := by
    show all _ _ = _
    rw [take_left' htag]
  rw [← append_assoc, field_content hhead hlength, hread]

end

theorem nameAmong_encode (n : ServerName) (rest : Bytes) :
    nameAmong toLower (n.encode ++ rest) =
      if n.nameType = 0 then (normalizeHostname toLower n.name).toOption
      else nameAmong toLower rest := by
  have hentry : n.encode ++ rest = [n.nameType] ++ (bytes16 n.name.length ++ (n.name ++ rest)) := by
    simp [ServerName.encode]
  rw [nameAmong, scan_eq, hentry,
    field_tagged (show [n.nameType].length = 1 from rfl) n.name_lt]
  simp

theorem nameInBlock_encode (e : Extension) (rest : Bytes) :
    nameInBlock toLower (e.encode ++ rest) =
      if e.extType = 0 then nameInList toLower e.data else nameInBlock toLower rest := by
  have htype := word_eq_zero_iff (ofNat (e.extType / 256)) (ofNat (e.extType % 256))
  rw [word_ofNat e.extType_lt] at htype
  rw [nameInBlock, scan_eq, Extension.encode, append_assoc, append_assoc,
    field_tagged (show (bytes16 e.extType).length = 2 from rfl) e.data_lt]
  simp [bytes16, htype]

theorem found_of_nodup {α β κ γ : Type} [DecidableEq κ] {f : List β → γ} {encode : α → List β}
    {key : α → κ} {wanted : κ} {found : α → γ}
    (hstep : ∀ a rest, f (encode a ++ rest) = if key a = wanted then found a else f rest)
    {l : List α} (hl : (l.map key).Nodup) {a : α} (hmem : a ∈ l) (ha : key a = wanted) :
    f (l.flatMap encode) = found a := by
  induction l with
  | nil => cases hmem
  | cons b l ih =>
    rw [map_cons, nodup_cons] at hl
    rw [flatMap_cons, hstep]
    rcases mem_cons.mp hmem with rfl | hmem
    · rw [if_pos ha]
    · rw [if_neg, ih hl.2 hmem]
      intro hb
      exact hl.1 (mem_map.mpr ⟨a, hmem, ha.trans hb.symm⟩)

theorem nameInList_encode (l : ServerNameList) {n : ServerName} (hmem : n ∈ l.names)
    (hn : n.nameType = 0) :
    nameInList toLower l.encode = (normalizeHostname toLower n.name).toOption := by
  have hfits := l.fits
  have hlist := @field_tagged (nameAmong toLower) (fun _ => none) _ 0 [] rfl
    (hfits.trans (show 65534 < 65536 by decide)) []
  rw [append_nil] at hlist
  refine hlist.trans ?_
  exact found_of_nodup (nameAmong_encode toLower) l.distinct hmem hn

namespace ClientHello

variable (hello : ClientHello)

theorem length_message : hello.message.length = 40 + hello.sessionID.length +
    hello.cipherSuites.length + hello.compressionMethods.length +
    (hello.extensions.flatMap Extension.encode).length := by
  simp only [message, List.length_append, List.length_cons, List.length_nil, hello.random_length,
    length_bytes16]
  omega

theorem length_body : hello.body.length = 4 + hello.message.length := by
  simp [body]
  omega

theorem recordBody_encode : recordBody hello.encode = some hello.body := by
  have hfits := hello.fits
  have hmessage := hello.length_message
  have hcut := @field_tagged some (fun _ => none) hello.body 0 [] rfl
    (by rw [length_body]; omega) []
  rw [append_nil] at hcut
  exact hcut

theorem declared_body : declared hello.body = some hello.message.length := by
  have hfits := hello.fits
  have hmessage := hello.length_message
  rw [body, bytes24, bytes16]
  simp only [cons_append, declared]
  rw [toNat_ofNat_of_lt (by omega), toNat_ofNat_of_lt (by omega), toNat_ofNat_of_lt (by omega)]
  congr 1
  omega

theorem helloFields_body (p : Bytes → Option Bytes) :
    helloFields p (hello.body.drop 38) = p (hello.extensions.flatMap Extension.encode) := by
  have hfits := hello.fits
  have hdrop : hello.body.drop 38 = ofNat hello.sessionID.length :: (hello.sessionID ++
      (bytes16 hello.cipherSuites.length ++ (hello.cipherSuites ++
        ofNat hello.compressionMethods.length :: (hello.compressionMethods ++
          (bytes16 (hello.extensions.flatMap Extension.encode).length ++
            hello.extensions.flatMap Extension.encode))))) := by
    have hstart : (1 :: bytes24 hello.message.length ++ [hello.version.1, hello.version.2] ++
        hello.random).length = 38 := by simp [hello.random_length]
    refine Eq.trans ?_ (drop_left' hstart)
    simp only [body, message, append_assoc, cons_append, nil_append]
  have hlast := @field_tagged p (fun _ => none) _ 0 [] rfl
    (by omega : (hello.extensions.flatMap Extension.encode).length < 65536) []
  rw [append_nil] at hlast
  rw [helloFields, hdrop]
  rw [field_byte hello.sessionID_lt, field_passing hello.cipherSuites_lt,
    field_byte hello.compressionMethods_lt]
  exact hlast

theorem value_encode {e : Extension} (hmem : e ∈ hello.extensions) (he : e.extType = 0) :
    value (clientHelloServerName toLower hello.encode) = nameInList toLower e.data := by
  rw [value_clientHelloServerName, hello.recordBody_encode, Option.bind_some, serverName,
    hello.declared_body, Option.bind_some, if_pos ⟨rfl, hello.length_body.ge⟩,
    hello.helloFields_body]
  exact found_of_nodup (nameInBlock_encode toLower) hello.extensions_distinct hmem he

end ClientHello

/-- **Parsing a ClientHello is safe and complete.** -/
theorem clientHello_safe_and_complete (toLower : Bytes → Bytes) (record : Bytes)
    (hello : ClientHello) (e : Extension) (l : ServerNameList) (n : ServerName) (host : Bytes) :
    (∃ r, ExceptT.run (clientHelloServerName toLower record) = some r) ∧
    (e ∈ hello.extensions → e.extType = 0 → e.data = l.encode → n ∈ l.names → n.nameType = 0 →
      normalizeHostname toLower n.name = .ok host →
        ExceptT.run (clientHelloServerName toLower hello.encode) = some (.ok host)) := by
  constructor
  · obtain ⟨r, hr, -⟩ := clientHelloServerName_meets toLower record
    exact ⟨r, hr⟩
  · intro hmem he hdata hname hn hhost
    apply run_of_value
    rw [hello.value_encode toLower hmem he, hdata, nameInList_encode toLower l hname hn, hhost]
    rfl

/-! ## A message -/

def sampleName : ServerName := ⟨0, [0x41, 0x2e, 0x62], by decide⟩

def sampleList : ServerNameList := ⟨[⟨7, [1, 2], by decide⟩, sampleName], by decide, by decide⟩

def sampleServerName : Extension := ⟨0, sampleList.encode, by decide, by decide⟩

def sampleHello : ClientHello where
  recordVersion := (3, 1)
  version := (3, 3)
  random := replicate 32 9
  sessionID := [5, 6]
  cipherSuites := [0x13, 0x01]
  compressionMethods := [0]
  extensions := [⟨43, [2, 3, 4], by decide, by decide⟩, sampleServerName,
    ⟨21, [], by decide, by decide⟩]
  random_length := by decide
  sessionID_lt := by decide
  cipherSuites_lt := by decide
  compressionMethods_lt := by decide
  extensions_distinct := by decide
  fits := by decide

def asciiLower (b : Bytes) : Bytes := b.map fun c => if 0x41 ≤ c ∧ c ≤ 0x5a then c + 0x20 else c

theorem clientHello_of_sample :
    ExceptT.run (clientHelloServerName asciiLower sampleHello.encode) =
      some (.ok [0x61, 0x2e, 0x62]) :=
  (clientHello_safe_and_complete asciiLower [] sampleHello sampleServerName sampleList sampleName
    [0x61, 0x2e, 0x62]).2 (by simp [sampleHello]) rfl rfl (by simp [sampleList]) rfl (by rfl)

end AwgMesh.Ingress
