import AwgMesh.Clock
import AwgMesh.Role
import AwgMesh.Lib.Map

/-!
# The identity registry

`pkg/control_plane/registry.go`: the authoritative list of nodes, indexed by name and by overlay.
-/

namespace AwgMesh.ControlPlane

open Lib OMap

structure RegisteredNode where
  name : String := ""
  roles : List Role := []
  overlayIP : String := ""
  region : String := ""
  nodeCertPEM : Bytes := []
  pendingCertPEM : Bytes := []
  certOverlapUntil : Time := 0
  nodeVersion : String := ""
  registeredAt : Time := 0
  lastHeartbeatAt : Time := 0
  healthIndicators : Option (OMap String String) := none
  pubkey : Bytes := []
  endpointHost : String := ""
  protocol : String := ""
  deriving DecidableEq

def RegisteredNode.isMaster (node : RegisteredNode) : Bool := node.roles.contains .master

inductive RegistryError where
  | emptyName
  | emptyRoles
  | roles (err : RoleError)
  | noCert
  | overlayRequired (name : String)
  | notFound
  | overlayDup (overlayIP existing : String)
  | nameDup
  | overlayMove (prev next : String)
  | pendingCert
  | overlap
  deriving DecidableEq

def RegistryError.message (quote : String → String) : RegistryError → String
  | .emptyName => "registry: node name required"
  | .emptyRoles => "registry: node roles required"
  | .roles err => "registry: " ++ err.message quote
  | .noCert => "registry: node cert required"
  | .overlayRequired name => "registry: overlay_ip required for node " ++ quote name
  | .notFound => "registry: node not found"
  | .overlayDup overlayIP existing =>
    "registry: overlay_ip already registered to another node: " ++ quote overlayIP ++
      " claimed by " ++ quote existing
  | .nameDup => "registry: node name already registered with different cert"
  | .overlayMove prev next =>
    "registry: overlay_ip change on re-register is not supported: " ++ quote prev ++ " -> " ++
      quote next
  | .pendingCert => "registry: different pending cert rollover is still active"
  | .overlap => "registry: cert overlap window must be in the future"

structure Registry where
  byName : OMap String RegisteredNode := ∅
  byOverlay : OMap String String := ∅
  deriving DecidableEq

/-! ## Certificates -/

def certBytesEqual (a b : Bytes) : Bool :=
  if a.length ≠ b.length then false else (a.zip b).all fun p => p.1 == p.2

def hasActivePendingCert (node : RegisteredNode) (now : Time) : Bool :=
  if node.pendingCertPEM = [] then false
  else !node.certOverlapUntil.isZero && node.certOverlapUntil > now

def canPromotePendingCert (prev : RegisteredNode) (certPEM : Bytes) (now : Time) : Bool :=
  if prev.pendingCertPEM = [] || !certBytesEqual prev.pendingCertPEM certPEM then false
  else if prev.certOverlapUntil.isZero || !(prev.certOverlapUntil > now) then false
  else true

namespace Registry

/-! ## Registering -/

def validate (node : RegisteredNode) : Except RegistryError Unit :=
  if node.name = "" then .error .emptyName
  else if node.roles = [] then .error .emptyRoles
  else match validateComposability node.roles with
    | .error err => .error (.roles err)
    | .ok () =>
      if node.nodeCertPEM = [] then .error .noCert
      else if node.overlayIP = "" then .error (.overlayRequired node.name)
      else .ok ()

def pinCert (prev node : RegisteredNode) (now : Time) : Except RegistryError RegisteredNode :=
  if certBytesEqual prev.nodeCertPEM node.nodeCertPEM then
    .ok { node with
      pendingCertPEM := prev.pendingCertPEM, certOverlapUntil := prev.certOverlapUntil }
  else if canPromotePendingCert prev node.nodeCertPEM now then
    .ok { node with pendingCertPEM := [], certOverlapUntil := 0 }
  else .error .nameDup

def carryOver (prev node : RegisteredNode) : RegisteredNode :=
  { node with
    pubkey := if node.pubkey = [] then prev.pubkey else node.pubkey
    endpointHost := if node.endpointHost = "" then prev.endpointHost else node.endpointHost
    protocol := if node.protocol = "" then prev.protocol else node.protocol
    registeredAt := prev.registeredAt }

def accept (r : Registry) (now : Time) (node : RegisteredNode) :
    Except RegistryError RegisteredNode :=
  match r.byName[node.name]? with
  | none => .ok { node with registeredAt := now }
  | some prev =>
    match pinCert prev node now with
    | .error err => .error err
    | .ok node =>
      if prev.overlayIP ≠ node.overlayIP then
        .error (.overlayMove prev.overlayIP node.overlayIP)
      else .ok (carryOver prev node)

def store (r : Registry) (node : RegisteredNode) : Registry :=
  { byName := r.byName.insert node.name node
    byOverlay := r.byOverlay.insert node.overlayIP node.name }

def register (r : Registry) (now : Time) (node : RegisteredNode) : Except RegistryError Registry :=
  match validate node with
  | .error err => .error err
  | .ok () =>
    -- the caller's pending certificate and deadline are dropped before anything is read
    let node := { node with pendingCertPEM := [], certOverlapUntil := 0 }
    match r.byOverlay[node.overlayIP]? with
    | some existing =>
      if existing ≠ node.name then .error (.overlayDup node.overlayIP existing)
      else (r.accept now node).map r.store
    | none => (r.accept now node).map r.store

/-! ## The other methods -/

def modify (r : Registry) (name : String) (node : RegisteredNode) : Registry :=
  { r with byName := r.byName.insert name node }

def allowCertRollover (r : Registry) (now : Time) (name : String) (certPEM : Bytes)
    (overlapUntil : Time) : Except RegistryError Registry :=
  if name = "" then .error .emptyName
  else if certPEM = [] then .error .noCert
  else if overlapUntil.isZero || !(overlapUntil > now) then .error .overlap
  else match r.byName[name]? with
    | none => .error .notFound
    | some node =>
      if hasActivePendingCert node now && !certBytesEqual node.pendingCertPEM certPEM then
        .error .pendingCert
      else .ok (r.modify name
        { node with pendingCertPEM := certPEM, certOverlapUntil := overlapUntil })

def clearCertRollover (r : Registry) (name : String) (certPEM : Bytes) :
    Except RegistryError Registry :=
  if name = "" then .error .emptyName
  else match r.byName[name]? with
    | none => .error .notFound
    | some node =>
      if certPEM ≠ [] && !certBytesEqual node.pendingCertPEM certPEM then .ok r
      else .ok (r.modify name { node with pendingCertPEM := [], certOverlapUntil := 0 })

def beat (node : RegisteredNode) (now : Time) (health : Option (OMap String String))
    (pubkey : Bytes) (endpointHost protocol : String) : RegisteredNode :=
  { node with
    lastHeartbeatAt := now
    healthIndicators := if health.isSome then health else node.healthIndicators
    pubkey := if pubkey = [] then node.pubkey else pubkey
    endpointHost := if endpointHost = "" then node.endpointHost else endpointHost
    protocol := if protocol = "" then node.protocol else protocol }

def heartbeat (r : Registry) (now : Time) (name : String) (health : Option (OMap String String))
    (pubkey : Bytes) (endpointHost protocol : String) : Except RegistryError Registry :=
  match r.byName[name]? with
  | none => .error .notFound
  | some node => .ok (r.modify name (beat node now health pubkey endpointHost protocol))

def lookup (r : Registry) (name : String) : Option RegisteredNode := r.byName[name]?

def list (r : Registry) : List RegisteredNode := r.byName.vals

def mastersInRegion (r : Registry) (region : String) : List String :=
  (r.byName.vals.filter fun n => (region = "" || n.region = region) && n.isMaster).map (·.name)

def remove (r : Registry) (name : String) : Except RegistryError Registry :=
  match r.byName[name]? with
  | none => .error .notFound
  | some n => .ok { byName := r.byName.erase name, byOverlay := r.byOverlay.erase n.overlayIP }

end Registry

/-! ## Certificates -/

theorem certBytesEqual_iff {a b : Bytes} : certBytesEqual a b = true ↔ a = b := by
  unfold certBytesEqual
  constructor
  · intro h
    split at h
    · cases h
    · next hlen =>
        have hlen : a.length = b.length := not_not.mp hlen
        apply List.ext_getElem hlen
        intro i hi hi'
        have hmem : (a[i], b[i]) ∈ a.zip b := by
          rw [List.mem_iff_getElem]
          exact ⟨i, by rw [List.length_zip]; omega, List.getElem_zip⟩
        simpa using List.all_eq_true.mp h _ hmem
  · rintro rfl
    rw [if_neg (not_not.mpr rfl), List.all_eq_true]
    intro p hp
    have : p.1 = p.2 := by
      obtain ⟨i, hi, rfl⟩ := List.mem_iff_getElem.mp hp
      rw [List.getElem_zip]
    simp [this]

@[simp] theorem certBytesEqual_eq_false_iff {a b : Bytes} : certBytesEqual a b = false ↔ a ≠ b := by
  rw [← Bool.not_eq_true, certBytesEqual_iff]

variable {now : Time}

theorem hasActivePendingCert_iff {node : RegisteredNode} :
    hasActivePendingCert node now = true ↔
      node.pendingCertPEM ≠ [] ∧ node.certOverlapUntil ≠ 0 ∧ now < node.certOverlapUntil := by
  unfold hasActivePendingCert
  by_cases h : node.pendingCertPEM = []
  · simp [h]
  · simp [h, Time.isZero]

theorem canPromotePendingCert_iff {prev : RegisteredNode} {certPEM : Bytes} :
    canPromotePendingCert prev certPEM now = true ↔
      prev.pendingCertPEM ≠ [] ∧ prev.pendingCertPEM = certPEM ∧
        prev.certOverlapUntil ≠ 0 ∧ now < prev.certOverlapUntil := by
  unfold canPromotePendingCert
  by_cases hc : prev.pendingCertPEM = certPEM
  · simp [hc, Time.isZero]
  · simp [hc]

/-- The node may take the place of `prev`, with the same or the pending certificate. -/
abbrev RegisteredNode.Continues (prev node : RegisteredNode) (now : Time) : Prop :=
  (prev.nodeCertPEM = node.nodeCertPEM ∨ canPromotePendingCert prev node.nodeCertPEM now = true) ∧
    prev.overlayIP = node.overlayIP

namespace Registry

variable {r r' : Registry} {now : Time} {node : RegisteredNode}

/-! ## `Register` -/

/-- The nodes `Register` takes. -/
structure Admits (r : Registry) (now : Time) (node : RegisteredNode) : Prop where
  valid : validate node = .ok ()
  free : ∀ existing, r.byOverlay[node.overlayIP]? = some existing → existing = node.name
  pinned : ∀ prev, r.byName[node.name]? = some prev → prev.Continues node now

def recorded (r : Registry) (now : Time) (node : RegisteredNode) : RegisteredNode :=
  match r.byName[node.name]? with
  | none => { node with pendingCertPEM := [], certOverlapUntil := 0, registeredAt := now }
  | some prev =>
    carryOver prev { node with
      pendingCertPEM := if prev.nodeCertPEM = node.nodeCertPEM then prev.pendingCertPEM else []
      certOverlapUntil :=
        if prev.nodeCertPEM = node.nodeCertPEM then prev.certOverlapUntil else 0 }

@[simp] theorem recorded_name : (r.recorded now node).name = node.name := by
  unfold recorded; split <;> rfl

@[simp] theorem recorded_roles : (r.recorded now node).roles = node.roles := by
  unfold recorded; split <;> rfl

@[simp] theorem recorded_overlayIP : (r.recorded now node).overlayIP = node.overlayIP := by
  unfold recorded; split <;> rfl

@[simp] theorem recorded_nodeCertPEM : (r.recorded now node).nodeCertPEM = node.nodeCertPEM := by
  unfold recorded; split <;> rfl

@[simp] theorem recorded_isMaster : (r.recorded now node).isMaster = node.isMaster := by
  simp [RegisteredNode.isMaster]

variable {prev : RegisteredNode}

theorem recorded_pending (now : Time) (hprev : r.byName[node.name]? = some prev) :
    (r.recorded now node).pendingCertPEM =
      (if prev.nodeCertPEM = node.nodeCertPEM then prev.pendingCertPEM else []) ∧
    (r.recorded now node).certOverlapUntil =
      if prev.nodeCertPEM = node.nodeCertPEM then prev.certOverlapUntil else 0 := by
  rw [recorded, hprev]
  exact ⟨rfl, rfl⟩

variable {rec : RegisteredNode}

theorem pinCert_eq_ok_iff :
    pinCert prev node now = .ok rec ↔ (prev.nodeCertPEM = node.nodeCertPEM ∨
          canPromotePendingCert prev node.nodeCertPEM now = true) ∧
        rec = { node with
          pendingCertPEM := if prev.nodeCertPEM = node.nodeCertPEM then prev.pendingCertPEM else []
          certOverlapUntil :=
            if prev.nodeCertPEM = node.nodeCertPEM then prev.certOverlapUntil else 0 } := by
  unfold pinCert
  by_cases hc : prev.nodeCertPEM = node.nodeCertPEM
  · rw [if_pos (certBytesEqual_iff.mpr hc), if_pos hc, if_pos hc]
    constructor
    · intro h; cases h; exact ⟨.inl hc, rfl⟩
    · rintro ⟨-, rfl⟩; rfl
  · rw [if_neg (mt certBytesEqual_iff.mp hc), if_neg hc, if_neg hc]
    by_cases hp : canPromotePendingCert prev node.nodeCertPEM now = true
    · rw [if_pos hp]
      constructor
      · intro h; cases h; exact ⟨.inr hp, rfl⟩
      · rintro ⟨-, rfl⟩; rfl
    · rw [if_neg hp]
      constructor
      · intro h; cases h
      · rintro ⟨hc' | hp', -⟩
        · exact absurd hc' hc
        · exact absurd hp' hp

theorem accept_eq_ok_iff
    (hp : node.pendingCertPEM = []) (ho : node.certOverlapUntil = 0) :
    r.accept now node = .ok rec ↔
      (∀ prev, r.byName[node.name]? = some prev → prev.Continues node now) ∧
        rec = r.recorded now node := by
  unfold accept recorded
  cases hprev : r.byName[node.name]? with
  | none =>
    have hnode : ({ node with registeredAt := now } : RegisteredNode) =
        { node with pendingCertPEM := [], certOverlapUntil := 0, registeredAt := now } := by
      rw [← hp, ← ho]
    show Except.ok { node with registeredAt := now } = Except.ok rec ↔ _
    rw [hnode]
    constructor
    · intro h
      cases h
      exact ⟨fun prev h => (Option.some_ne_none prev h.symm).elim, rfl⟩
    · rintro ⟨-, rfl⟩; rfl
  | some prev =>
    have hall : (∀ prev', some prev = some prev' → prev'.Continues node now) ↔
        prev.Continues node now :=
      ⟨fun h => h prev rfl, fun h prev' heq => Option.some.inj heq ▸ h⟩
    rw [hall]
    dsimp only
    cases hpin : pinCert prev node now with
    | error err =>
      constructor
      · intro h; cases h
      · rintro ⟨⟨hok, -⟩, -⟩
        rw [pinCert_eq_ok_iff.mpr ⟨hok, rfl⟩] at hpin
        cases hpin
    | ok pinned =>
      obtain ⟨hok, rfl⟩ := pinCert_eq_ok_iff.mp hpin
      dsimp only
      by_cases hov : prev.overlayIP = node.overlayIP
      · rw [if_neg (not_not.mpr hov)]
        constructor
        · intro h; cases h; exact ⟨⟨hok, hov⟩, rfl⟩
        · rintro ⟨-, rfl⟩; rfl
      · rw [if_pos hov]
        constructor
        · intro h; cases h
        · rintro ⟨⟨-, hov'⟩, -⟩; exact absurd hov' hov

theorem register_eq_ok_iff :
    r.register now node = .ok r' ↔ r.Admits now node ∧ r' = r.store (r.recorded now node) := by
  set node₀ : RegisteredNode := { node with pendingCertPEM := [], certOverlapUntil := 0 } with h₀
  -- Dropping the caller's pending fields changes neither the record nor who is admitted.
  have hrec : r.recorded now node₀ = r.recorded now node := by
    unfold recorded
    cases r.byName[node.name]? <;> rfl
  have hacc : ∀ rec, r.accept now node₀ = .ok rec ↔ (∀ prev, r.byName[node.name]? = some prev →
        prev.Continues node now) ∧ rec = r.recorded now node₀ :=
    fun rec => accept_eq_ok_iff rfl rfl
  have hmap : (r.accept now node₀).map r.store = .ok r' ↔
      (∀ prev, r.byName[node.name]? = some prev → prev.Continues node now) ∧
        r' = r.store (r.recorded now node) := by
    rw [← hrec]
    cases ha : r.accept now node₀ with
    | error err =>
      have hno := (hacc (r.recorded now node₀)).not.mp (by rw [ha]; simp)
      constructor
      · intro h; cases h
      · rintro ⟨hpin, -⟩; exact absurd ⟨hpin, rfl⟩ hno
    | ok rec =>
      obtain ⟨hpin, rfl⟩ := (hacc rec).mp ha
      constructor
      · intro h; cases h; exact ⟨hpin, rfl⟩
      · rintro ⟨-, rfl⟩; rfl
  unfold register
  cases hv : validate node with
  | error err =>
    constructor
    · intro h; cases h
    · rintro ⟨had, -⟩
      have := had.valid
      rw [hv] at this
      cases this
  | ok u =>
    dsimp only
    cases hov : r.byOverlay[node.overlayIP]? with
    | none =>
      rw [hmap]
      constructor
      · rintro ⟨hpin, rfl⟩
        exact ⟨⟨hv, by simp [hov], hpin⟩, rfl⟩
      · rintro ⟨had, rfl⟩; exact ⟨had.pinned, rfl⟩
    | some existing =>
      by_cases hex : existing = node.name
      · simp only [hex, ne_eq, not_true_eq_false, if_false]
        rw [hmap]
        constructor
        · rintro ⟨hpin, rfl⟩
          exact ⟨⟨hv, by simp [hov, hex], hpin⟩, rfl⟩
        · rintro ⟨had, rfl⟩; exact ⟨had.pinned, rfl⟩
      · simp only [ne_eq, hex, not_false_eq_true, if_true]
        constructor
        · intro h; cases h
        · rintro ⟨had, -⟩; exact absurd (had.free existing hov) hex

theorem validate_ne_nameDup : validate node ≠ .error .nameDup := by
  intro h
  unfold validate at h
  split at h
  · cases h
  split at h
  · cases h
  split at h
  · cases h
  split at h
  · cases h
  split at h <;> cases h

theorem accept_nameDup (h : (r.accept now node).map r.store = .error .nameDup) :
    ∃ prev, r.byName[node.name]? = some prev ∧ prev.nodeCertPEM ≠ node.nodeCertPEM ∧
      canPromotePendingCert prev node.nodeCertPEM now ≠ true := by
  unfold accept at h
  split at h
  · cases h
  next prev hprev =>
  refine ⟨prev, hprev, ?_⟩
  split at h
  · next err hpin =>
      rw [← not_or]
      intro hok
      rw [pinCert_eq_ok_iff.mpr ⟨hok, rfl⟩] at hpin
      cases hpin
  · split at h <;> cases h

theorem register_nameDup (h : r.register now node = .error .nameDup) :
    ∃ prev, r.byName[node.name]? = some prev ∧ prev.nodeCertPEM ≠ node.nodeCertPEM ∧
      canPromotePendingCert prev node.nodeCertPEM now ≠ true := by
  unfold register at h
  split at h
  · next err hv =>
      cases h
      exact absurd hv validate_ne_nameDup
  dsimp only at h
  split at h
  · split at h
    · cases h
    · have := accept_nameDup h
      exact this
  · have := accept_nameDup h
    exact this

/-! ## The other methods, inverted -/

variable {name : String} {certPEM : Bytes} {overlapUntil : Time}

theorem allowCertRollover_ok
    (h : r.allowCertRollover now name certPEM overlapUntil = .ok r') :
    certPEM ≠ [] ∧ overlapUntil ≠ 0 ∧ now < overlapUntil ∧ ∃ node, r.byName[name]? = some node ∧
        (hasActivePendingCert node now = true → node.pendingCertPEM = certPEM) ∧ r' = r.modify name
          { node with pendingCertPEM := certPEM, certOverlapUntil := overlapUntil } := by
  unfold allowCertRollover at h
  split at h
  · cases h
  split at h
  · cases h
  next hcert =>
  split at h
  · cases h
  next hover =>
  split at h
  · cases h
  next node hnode =>
  split at h
  · cases h
  next hact =>
  cases h
  simp only [Time.isZero, Bool.or_eq_true, decide_eq_true_eq, Bool.not_eq_true',
    decide_eq_false_iff_not, not_or, not_not] at hover
  refine ⟨hcert, hover.1, hover.2, node, hnode, ?_, rfl⟩
  intro hactive
  by_contra hne
  exact hact (by simp [hactive, hne])

theorem clearCertRollover_ok
    (h : r.clearCertRollover name certPEM = .ok r') :
    ∃ node, r.byName[name]? = some node ∧ ((certPEM ≠ [] ∧ node.pendingCertPEM ≠ certPEM ∧ r' = r) ∨
        ((certPEM = [] ∨ node.pendingCertPEM = certPEM) ∧
          r' = r.modify name { node with pendingCertPEM := [], certOverlapUntil := 0 })) := by
  unfold clearCertRollover at h
  split at h
  · cases h
  split at h
  · cases h
  next node hnode =>
  refine ⟨node, hnode, ?_⟩
  split at h
  · next hkeep =>
      cases h
      left
      simpa using hkeep
  · next hclear =>
      cases h
      right
      refine ⟨?_, rfl⟩
      by_contra hno
      rw [not_or] at hno
      exact hclear (by simp [hno.1, hno.2])

variable {health : Option (OMap String String)} {pubkey : Bytes} {endpointHost protocol : String}

theorem heartbeat_ok
    (h : r.heartbeat now name health pubkey endpointHost protocol = .ok r') :
    ∃ node, r.byName[name]? = some node ∧
      r' = r.modify name (beat node now health pubkey endpointHost protocol) := by
  unfold heartbeat at h
  split at h
  · cases h
  · next node hnode => cases h; exact ⟨node, hnode, rfl⟩

theorem remove_ok (h : r.remove name = .ok r') :
    ∃ node, r.byName[name]? = some node ∧
      r' = { byName := r.byName.erase name, byOverlay := r.byOverlay.erase node.overlayIP } := by
  unfold remove at h
  split at h
  · cases h
  · next node hnode => cases h; exact ⟨node, hnode, rfl⟩

/-! ## The two maps index each other -/

structure WF (r : Registry) : Prop where
  named : ∀ {n : String} {node}, r.byName[n]? = some node → node.name = n ∧ n ≠ ""
  indexed : ∀ {n : String} {node}, r.byName[n]? = some node → r.byOverlay[node.overlayIP]? = some n
  backed : ∀ {o n : String}, r.byOverlay[o]? = some n →
    ∃ node, r.byName[n]? = some node ∧ node.overlayIP = o

theorem WF.empty : WF {} where
  named h := by simp at h
  indexed h := by simp at h
  backed h := by simp at h

theorem WF.overlay_inj (hr : r.WF) {m n : String} {a b : RegisteredNode}
    (ha : r.byName[m]? = some a) (hb : r.byName[n]? = some b) (h : a.overlayIP = b.overlayIP) :
    m = n := by
  have hm := hr.indexed ha
  rw [h, hr.indexed hb] at hm
  exact (Option.some.inj hm).symm

theorem Admits.name_ne (h : r.Admits now node) : node.name ≠ "" := by
  intro hname
  have := h.valid
  unfold validate at this
  rw [if_pos hname] at this
  cases this

theorem WF.store (hr : r.WF) (had : r.Admits now node)
    (hname : rec.name = node.name) (hov : rec.overlayIP = node.overlayIP) : (r.store rec).WF := by
  -- a record on the new overlay can only be the previous record of this very name
  have hother : ∀ {n : String} {x}, r.byName[n]? = some x → x.overlayIP = node.overlayIP →
      n = node.name := by
    intro n x hx hxo
    have := hr.indexed hx
    rw [hxo] at this
    exact had.free n this
  constructor
  · intro n x hx
    simp only [Registry.store, getElem?_insert] at hx
    split at hx
    · next hn =>
        cases hx
        exact ⟨hn, hn ▸ hname ▸ had.name_ne⟩
    · exact hr.named hx
  · intro n x hx
    simp only [Registry.store, getElem?_insert] at hx ⊢
    split at hx
    · next hn => cases hx; rw [if_pos rfl, hn]
    · next hn =>
        rw [if_neg ?_]
        · exact hr.indexed hx
        · intro ho
          exact hn ((hother hx (ho.symm.trans hov)).trans hname.symm).symm
  · intro o n h
    simp only [Registry.store, getElem?_insert] at h ⊢
    split at h
    · next ho =>
        cases h
        exact ⟨rec, by rw [if_pos rfl], ho⟩
    · next ho =>
        obtain ⟨x, hx, hxo⟩ := hr.backed h
        by_cases hn : rec.name = n
        · -- the previous record of this name was already on the same overlay
          have hprev : x.overlayIP = node.overlayIP :=
            (had.pinned x (by rw [← hname, hn]; exact hx)).2
          exact absurd (hov.trans (hprev.symm.trans hxo)) ho
        · exact ⟨x, by rw [if_neg hn]; exact hx, hxo⟩

theorem WF.modify (hr : r.WF) {old new : RegisteredNode}
    (hold : r.byName[name]? = some old) (hname : new.name = old.name)
    (hov : new.overlayIP = old.overlayIP) : (r.modify name new).WF := by
  constructor
  · intro n x hx
    simp only [Registry.modify, getElem?_insert] at hx
    split at hx
    · next hn =>
        cases hx
        subst hn
        rw [hname]
        exact hr.named hold
    · exact hr.named hx
  · intro n x hx
    simp only [Registry.modify, getElem?_insert] at hx ⊢
    split at hx
    · next hn =>
        cases hx
        subst hn
        rw [hov]
        exact hr.indexed hold
    · exact hr.indexed hx
  · intro o n h
    obtain ⟨x, hx, hxo⟩ := hr.backed h
    simp only [Registry.modify, getElem?_insert]
    by_cases hn : name = n
    · subst hn
      rw [hold] at hx
      cases hx
      exact ⟨new, by rw [if_pos rfl], hov.trans hxo⟩
    · exact ⟨x, by rw [if_neg hn]; exact hx, hxo⟩

theorem WF.register (hr : r.WF) (h : r.register now node = .ok r') : r'.WF := by
  obtain ⟨had, rfl⟩ := register_eq_ok_iff.mp h
  exact hr.store had recorded_name recorded_overlayIP

theorem WF.allowCertRollover (hr : r.WF)
    (h : r.allowCertRollover now name certPEM overlapUntil = .ok r') : r'.WF := by
  obtain ⟨-, -, -, node, hnode, -, rfl⟩ := allowCertRollover_ok h
  exact hr.modify hnode rfl rfl

theorem WF.clearCertRollover (hr : r.WF)
    (h : r.clearCertRollover name certPEM = .ok r') : r'.WF := by
  obtain ⟨node, hnode, ⟨-, -, rfl⟩ | ⟨-, rfl⟩⟩ := clearCertRollover_ok h
  · exact hr
  · exact hr.modify hnode rfl rfl

theorem WF.heartbeat (hr : r.WF)
    (h : r.heartbeat now name health pubkey endpointHost protocol = .ok r') : r'.WF := by
  obtain ⟨node, hnode, rfl⟩ := heartbeat_ok h
  exact hr.modify hnode rfl rfl

theorem WF.remove (hr : r.WF) (h : r.remove name = .ok r') : r'.WF := by
  obtain ⟨node, hnode, rfl⟩ := remove_ok h
  constructor
  · intro n x hx
    simp only [getElem?_erase] at hx
    split at hx
    · cases hx
    · exact hr.named hx
  · intro n x hx
    simp only [getElem?_erase] at hx ⊢
    split at hx
    · cases hx
    · next hn =>
        rw [if_neg ?_]
        · exact hr.indexed hx
        · intro ho; exact hn (hr.overlay_inj hnode hx ho)
  · intro o n h
    simp only [getElem?_erase] at h ⊢
    split at h
    · cases h
    · next ho =>
        obtain ⟨x, hx, hxo⟩ := hr.backed h
        refine ⟨x, ?_, hxo⟩
        rw [if_neg ?_]
        · exact hx
        · intro hn
          subst hn
          rw [hnode] at hx
          cases hx
          exact ho hxo

def without (r : Registry) (node : RegisteredNode) : Registry :=
  { byName := r.byName.erase node.name, byOverlay := r.byOverlay.erase node.overlayIP }

theorem remove_eq_without (hr : r.WF) (hnode : r.byName[name]? = some node) :
    r.remove name = .ok (r.without node) := by
  unfold remove without
  rw [hnode, (hr.named hnode).1]

theorem remove_store (hname : rec.name = node.name) (hov : rec.overlayIP = node.overlayIP) :
    (r.store rec).remove node.name = .ok (r.without node) := by
  unfold remove
  have hget : (r.store rec).byName[node.name]? = some rec := by
    simp only [store, getElem?_insert, hname, if_true]
  rw [hget]
  simp only [store, without, hname, hov, erase_insert_self]

theorem WF.without_eq_self (hr : r.WF) (had : r.Admits now node)
    (hnew : r.byName[node.name]? = none) : r.without node = r := by
  have hfree : r.byOverlay[node.overlayIP]? = none := by
    cases ho : r.byOverlay[node.overlayIP]? with
    | none => rfl
    | some existing =>
      obtain ⟨x, hx, -⟩ := hr.backed ho
      rw [had.free existing ho, hnew] at hx
      cases hx
  unfold without
  rw [erase_eq_self hnew, erase_eq_self hfree]

variable {n : String}

theorem without_byName_getElem? :
    (r.without node).byName[n]? = if node.name = n then none else r.byName[n]? :=
  getElem?_erase _ _ _

theorem store_byName_getElem? :
    (r.store rec).byName[n]? = if rec.name = n then some rec else r.byName[n]? :=
  getElem?_insert _ _ _ _

variable {new : RegisteredNode}

theorem modify_byName_getElem? :
    (r.modify name new).byName[n]? = if name = n then some new else r.byName[n]? :=
  getElem?_insert _ _ _ _

theorem modify_byName_self : (r.modify name new).byName[name]? = some new := by
  rw [modify_byName_getElem?, if_pos rfl]

theorem store_recorded_byName_self :
    (r.store (r.recorded now node)).byName[node.name]? = some (r.recorded now node) := by
  rw [store_byName_getElem?, if_pos recorded_name]

theorem WF.mem_list (hr : r.WF) {node : RegisteredNode} :
    node ∈ r.list ↔ r.byName[node.name]? = some node := by
  unfold list
  rw [mem_vals]
  constructor
  · rintro ⟨k, hk⟩
    rw [(hr.named hk).1]
    exact hk
  · exact fun h => ⟨node.name, h⟩

theorem WF.mem_mastersInRegion (hr : r.WF) {region name : String} :
    name ∈ r.mastersInRegion region ↔
      ∃ node, r.byName[name]? = some node ∧ (region = "" ∨ node.region = region) ∧
        node.isMaster = true := by
  unfold mastersInRegion
  simp only [List.mem_map, List.mem_filter, Bool.and_eq_true, Bool.or_eq_true, decide_eq_true_eq]
  constructor
  · rintro ⟨node, ⟨hmem, hcond⟩, rfl⟩
    exact ⟨node, hr.mem_list.mp hmem, hcond⟩
  · rintro ⟨node, hnode, hcond⟩
    have hname : node.name = name := (hr.named hnode).1
    exact ⟨node, ⟨hr.mem_list.mpr (hname ▸ hnode), hcond⟩, hname⟩

end Registry

end AwgMesh.ControlPlane
