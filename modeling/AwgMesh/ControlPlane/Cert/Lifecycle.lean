import AwgMesh.ControlPlane.Registry.Basic
import AwgMesh.Net.Addr
import AwgMesh.Lib.Machine

/-!
# The certificate lifecycle

`pkg/control_plane/cert_lifecycle.go`: when a registered node needs a replacement certificate, and
until when the old one and the new one overlap.
-/

namespace AwgMesh.ControlPlane

structure Certificate where
  commonName : String
  dnsNames : List String := []
  ipAddresses : List (BitVec 128) := []
  notBefore : Time := 0
  notAfter : Time := 0
  deriving DecidableEq

abbrev CertParser := Bytes → Except String Certificate

structure IssuedCert where
  certPEM : Bytes
  keyPEM : Bytes
  cert : Certificate

abbrev CertIssuer := RegisteredNode → List String → Duration → Except String IssuedCert

/-! ## Configuration -/

def defaultCertRotationDays : Int := 90
def defaultCertRenewBefore : Duration := 7 * 24 * hour
def defaultCertPollInterval : Duration := hour
def defaultCertPromotionGrace : Duration := hour

structure CertLifecycleConfig where
  rotationDays : Int := 0
  renewBefore : Duration := 0
  pollInterval : Duration := 0

structure CertLifecycle where
  validFor : Duration
  renewBefore : Duration
  pollInterval : Duration
  deriving DecidableEq

def positiveOr (value default : Int) : Int := if value ≤ 0 then default else value

theorem positiveOr_pos {value default : Int} (h : 0 < default) : 0 < positiveOr value default := by
  unfold positiveOr
  split
  · exact h
  · next hpos => exact Int.not_le.mp hpos

/-- `NewCertLifecycle`. -/
def newCertLifecycle (issuer : Option CertIssuer) (cfg : CertLifecycleConfig) :
    Except String CertLifecycle :=
  if issuer.isNone then .error "cert issuer is required"
  else .ok
    { validFor := (positiveOr cfg.rotationDays defaultCertRotationDays * 24 * hour).bmod (2 ^ 64)
      renewBefore := positiveOr cfg.renewBefore defaultCertRenewBefore
      pollInterval := positiveOr cfg.pollInterval defaultCertPollInterval }

/-! ## Hosts of the replacement -/

def addUniqueHost (hosts : List String) (host : String) : List String :=
  if host = "" then hosts
  else
    let host := match Net.parseIP host with
      | some ip => Net.ipString ip
      | none => host
    if hosts.contains host then hosts else hosts ++ [host]

def certHostsForNode (node : RegisteredNode) (current : Certificate) : List String :=
  let named := current.commonName :: current.dnsNames ++ current.ipAddresses.map Net.ipString ++
    [node.name]
  (if node.overlayIP ≠ "" then named ++ [node.overlayIP] else named).foldl addUniqueHost []

/-! ## Due updates -/

structure CertUpdate where
  certPem : Bytes
  keyPem : Bytes
  validFromUnix : Int
  validUntilUnix : Int
  deriving DecidableEq

inductive LifecycleError where
  | parse (name err : String)
  | commonName (cn name : String)
  | issue (name err : String)
  deriving DecidableEq

namespace CertLifecycle

def promotionDeadline (now : Time) (current : Certificate) : Time :=
  if current.notAfter < now + defaultCertPromotionGrace then now + defaultCertPromotionGrace
  else current.notAfter

/-- `CertLifecycle.NextDueUpdate`. -/
def nextDueUpdate (parse : CertParser) (issue : CertIssuer) (c : CertLifecycle) (now : Time)
    (node : RegisteredNode) : Except LifecycleError (Option CertUpdate × Time) :=
  match parse node.nodeCertPEM with
  | .error err => .error (.parse node.name err)
  | .ok current =>
    if current.commonName ≠ node.name then
      .error (.commonName current.commonName node.name)
    else if hasActivePendingCert node now then .ok (none, current.notAfter)
    else if now + c.renewBefore < current.notAfter then .ok (none, current.notAfter)
    else match issue node (certHostsForNode node current) c.validFor with
      | .error err => .error (.issue node.name err)
      | .ok issued =>
        .ok (some
          { certPem := issued.certPEM
            keyPem := issued.keyPEM
            validFromUnix := issued.cert.notBefore.unix
            validUntilUnix := issued.cert.notAfter.unix }, promotionDeadline now current)

def timeSub (t u : Time) : Duration := max (-2 ^ 63) (min (t - u) (2 ^ 63 - 1))

def delayUntilDue (parse : CertParser) (c : CertLifecycle) (now : Time) (node : RegisteredNode) :
    Duration :=
  match parse node.nodeCertPEM with
  | .error _ => 0
  | .ok current =>
    if hasActivePendingCert node now then c.pollInterval
    else
      let delay := timeSub (current.notAfter - c.renewBefore) now
      if delay < 0 then 0 else if delay > c.pollInterval then c.pollInterval else delay

/-! ## When an update is due -/

section

variable {parse : CertParser} {issue : CertIssuer} {c : CertLifecycle} {now : Time}
  {node : RegisteredNode} {current : Certificate}

theorem nextDueUpdate_due {update : CertUpdate} {overlapUntil : Time}
    (h : c.nextDueUpdate parse issue now node = .ok (some update, overlapUntil)) :
    ∃ current, parse node.nodeCertPEM = .ok current ∧ current.commonName = node.name ∧
      hasActivePendingCert node now = false ∧ current.notAfter ≤ now + c.renewBefore ∧
        overlapUntil = promotionDeadline now current := by
  unfold nextDueUpdate at h
  split at h
  · cases h
  next current hparse =>
  split at h
  · cases h
  next hcn =>
  split at h
  · cases h
  next hactive =>
  split at h
  · cases h
  next hwindow =>
  split at h
  · cases h
  cases h
  exact ⟨current, hparse, not_not.mp hcn, by simpa using hactive, Int.not_lt.mp hwindow, rfl⟩

theorem exists_nextDueUpdate_due {issued : IssuedCert}
    (hparse : parse node.nodeCertPEM = .ok current) (hcn : current.commonName = node.name)
    (hactive : hasActivePendingCert node now = false)
    (hwindow : current.notAfter ≤ now + c.renewBefore)
    (hissue : issue node (certHostsForNode node current) c.validFor = .ok issued) :
    ∃ update, c.nextDueUpdate parse issue now node =
      .ok (some update, promotionDeadline now current) ∧ update.certPem = issued.certPEM := by
  unfold nextDueUpdate
  rw [hparse]
  simp only [hcn, hactive, Int.not_lt.mpr hwindow, hissue, ne_eq, not_true_eq_false, if_false,
    Bool.false_eq_true]
  exact ⟨_, rfl, rfl⟩

end

end CertLifecycle

/-! ## A sample -/

def sampleClient : RegisteredNode :=
  { name := "c", roles := [.client], overlayIP := "10.0.0.2", nodeCertPEM := [1] }

def sampleParse : CertParser := fun certPEM =>
  if certPEM = [1] then .ok { commonName := "c", notAfter := 10 * hour } else .error "unknown"

def sampleIssuer : CertIssuer := fun _ _ _ =>
  .ok { certPEM := [2], keyPEM := [3], cert := { commonName := "c", notAfter := 100 * hour } }

def sampleLifecycle : CertLifecycle :=
  { validFor := 90 * 24 * hour, renewBefore := 7 * 24 * hour, pollInterval := hour }

/-! ## Certificate roll-over, end to end -/

open Lib Registry List

/-! ## The system -/

structure Replacement where
  certPEM : Bytes
  overlapUntil : Time

/-- Where a `StreamCertUpdate` handler stands. -/
inductive CertStream where
  | watching
  | looked (node : RegisteredNode)
  | due (u : Replacement)
  | pinned (u : Replacement)
  | unsent (u : Replacement)
  | ended

def CertStream.held : CertStream → Option Replacement
  | .due u | .pinned u | .unsent u => some u
  | _ => none

inductive AgentPhase where
  | down
  | starting
  | running
  | stored
  deriving DecidableEq

structure Rollover where
  registry : Registry
  now : Time
  disk : Bytes
  diskUntil : Option Time := none
  agent : AgentPhase := .down
  stream : Option Nat := none
  inbox : List Replacement := []
  streams : OMap Nat CertStream := ∅
  known : List Bytes

/-- The steps. -/
inductive RolloverStep where
  | lookup (sid : Nat)
  | issue (sid : Nat) (issuer : CertIssuer)
  | pin (sid : Nat)
  | send (sid : Nat) (ok reached : Bool)
  | clear (sid : Nat)
  | hangUp (sid : Nat)
  | start
  | register
  | connect (sid : Nat)
  | store (ok : Bool)
  | crash
  | tick (t : Time)

namespace Rollover

def put (w : Rollover) (sid : Nat) (st : CertStream) : Rollover :=
  { w with streams := w.streams.insert sid st }

def halt (w : Rollover) : Rollover := { w with agent := .down, stream := none, inbox := [] }

def step (client : RegisteredNode) (parse : CertParser) (c : CertLifecycle) (w : Rollover) :
    RolloverStep → Option Rollover
  | .lookup sid =>
    match w.streams[sid]? with
    | some .watching =>
      match w.registry.lookup client.name with
      | none => some (w.put sid .ended)
      | some node => some (w.put sid (.looked node))
    | _ => none
  | .issue sid issuer =>
    match w.streams[sid]? with
    | some (.looked node) =>
      match c.nextDueUpdate parse issuer w.now node with
      | .error _ => some (w.put sid .ended)
      | .ok (none, _) => some (w.put sid .watching)
      | .ok (some update, overlapUntil) =>
        if update.certPem ∈ w.known then none
        else some ({ w with known := update.certPem :: w.known }.put sid
          (.due ⟨update.certPem, overlapUntil⟩))
    | _ => none
  | .pin sid =>
    match w.streams[sid]? with
    | some (.due u) =>
      match w.registry.allowCertRollover w.now client.name u.certPEM u.overlapUntil with
      | .error _ => some (w.put sid .ended)
      | .ok r => some ({ w with registry := r }.put sid (.pinned u))
    | _ => none
  | .send sid ok reached =>
    match w.streams[sid]? with
    | some (.pinned u) =>
      let w := if reached ∧ w.stream = some sid then { w with inbox := w.inbox ++ [u] } else w
      some (w.put sid (if ok then .watching else .unsent u))
    | _ => none
  | .clear sid =>
    match w.streams[sid]? with
    | some (.unsent u) =>
      match w.registry.clearCertRollover client.name u.certPEM with
      | .error _ => some (w.put sid .ended)
      | .ok r => some ({ w with registry := r }.put sid .ended)
    | _ => none
  | .hangUp sid =>
    match w.streams[sid]? with
    | some .watching => some (w.put sid .ended)
    | _ => none
  | .start => if w.agent = .down then some { w with agent := .starting } else none
  | .register =>
    if w.agent = .starting ∨ w.agent = .stored then
      match w.registry.register w.now { client with nodeCertPEM := w.disk } with
      | .error _ => some w.halt
      | .ok r => some { w with registry := r, agent := .running }
    else none
  | .connect sid =>
    if w.agent = .running ∧ w.stream = none ∧ w.streams[sid]? = none then
      some ({ w with stream := some sid }.put sid .watching)
    else none
  | .store ok =>
    match w.agent, w.inbox with
    | .running, u :: rest =>
      if ok then
        some { w with
          disk := u.certPEM, diskUntil := some u.overlapUntil, inbox := rest, agent := .stored }
      else some w.halt
    | _, _ => none
  | .crash => if w.agent = .down then none else some w.halt
  | .tick t => if w.now ≤ t then some { w with now := t } else none

end Rollover

def rollover (client : RegisteredNode) (parse : CertParser) (c : CertLifecycle)
    (registry : Registry) (now : Time) (disk : Bytes) : Machine Rollover RolloverStep where
  init :=
    { registry := registry
      now := now
      disk := disk
      known := disk :: registry.list.map (·.pendingCertPEM) }
  step := Rollover.step client parse c

/-! ## What it should guarantee -/

/-- Before its deadline, the certificate on disk is one of the two on record. -/
def KeepsIdentity (client : RegisteredNode) (w : Rollover) : Prop :=
  (∀ d, w.diskUntil = some d → w.now < d) → (∃ node, w.registry.lookup client.name = some node ∧
      (w.disk = node.nodeCertPEM ∨ w.disk = node.pendingCertPEM)) ∧
    w.registry.register w.now { client with nodeCertPEM := w.disk } ≠ .error .nameDup

def RolloverStep.FailsCleanly (w : Rollover) : RolloverStep → Prop
  | .send sid ok reached => ok = false → reached = true → w.stream ≠ some sid
  | _ => True

/-! ## The invariant -/

namespace Rollover

def Holds (w : Rollover) (sid : Nat) (u : Replacement) : Prop :=
  ∃ st, w.streams[sid]? = some st ∧ st.held = some u

def carried (w : Rollover) : List Bytes := w.disk :: w.inbox.map (·.certPEM)

def Honours (node : RegisteredNode) (now : Time) (u : Replacement) : Prop :=
  u.overlapUntil ≤ now ∨ (node.pendingCertPEM = u.certPEM ∧
    node.certOverlapUntil = u.overlapUntil ∧ u.certPEM ≠ [] ∧ u.overlapUntil ≠ 0)

def Fits (node : RegisteredNode) (now : Time) : CertStream → Prop
  | .due u => u.certPEM ≠ [] → node.pendingCertPEM ≠ u.certPEM
  | .pinned u => u.certPEM ≠ [] ∧ Honours node now u
  | .unsent u => u.certPEM ≠ []
  | _ => True

structure Custody (w : Rollover) (node : RegisteredNode) : Prop where
  disk : w.disk = node.nodeCertPEM ∨ ∃ d, w.diskUntil = some d ∧ Honours node w.now ⟨w.disk, d⟩
  inbox : ∀ u ∈ w.inbox, Honours node w.now u
  streams : ∀ {sid : Nat} {st}, w.streams[sid]? = some st → Fits node w.now st
  apart : ∀ {sid u}, w.Holds sid u → u.certPEM ∉ w.carried
  single : ∀ {sid sid' u u'}, w.Holds sid u → w.Holds sid' u' → u.certPEM = u'.certPEM → sid = sid'
  nodup : w.carried.Nodup
  carriedKnown : ∀ x ∈ w.carried, x ∈ w.known
  heldKnown : ∀ {sid u}, w.Holds sid u → u.certPEM ∈ w.known
  pendingKnown : node.pendingCertPEM ≠ [] → node.pendingCertPEM ∈ w.known

section Lemmas

variable {w w' : Rollover} {node node' : RegisteredNode} {sid k : Nat} {u v : Replacement}
  {st : CertStream}

theorem getElem?_put : (w.put sid st).streams[k]? = if sid = k then some st else w.streams[k]? :=
  OMap.getElem?_insert _ _ _ _

theorem holds_put :
    (w.put sid st).Holds k v ↔ if sid = k then st.held = some v else w.Holds k v := by
  unfold Holds
  rw [getElem?_put]
  split
  · simp
  · rfl

theorem holds_of_due (h : w.streams[sid]? = some (.due u)) : w.Holds sid u := ⟨_, h, rfl⟩

theorem holds_of_pinned (h : w.streams[sid]? = some (.pinned u)) : w.Holds sid u := ⟨_, h, rfl⟩

theorem holds_of_unsent (h : w.streams[sid]? = some (.unsent u)) : w.Holds sid u := ⟨_, h, rfl⟩

variable {now now' : Time}

theorem Honours.later (h : Honours node now u) (hle : now ≤ now') : Honours node now' u := by
  rcases h with h | h
  · exact .inl (Int.le_trans h hle)
  · exact .inr h

theorem Honours.expired (h : Honours node now u)
    (hactive : hasActivePendingCert node now ≠ true) : u.overlapUntil ≤ now := by
  rcases h with h | ⟨hp, ho, hne, hz⟩
  · exact h
  · by_contra hlt
    apply hactive
    rw [hasActivePendingCert_iff, hp, ho]
    exact ⟨hne, hz, Int.not_le.mp hlt⟩

theorem Fits.later (h : Fits node now st) (hle : now ≤ now') : Fits node now' st := by
  cases st with
  | pinned u => exact ⟨h.1, h.2.later hle⟩
  | _ => exact h

theorem fits_put (hst : Fits node now st)
    (hother : ∀ {k : Nat} {st'}, sid ≠ k → w.streams[k]? = some st' → Fits node now st') :
    ∀ {k : Nat} {st'}, (w.put sid st).streams[k]? = some st' → Fits node now st' := by
  intro k st' hk
  rw [getElem?_put] at hk
  split at hk
  · cases hk
    exact hst
  · next hne => exact hother hne hk

variable (h : Custody w node)

include h

theorem Custody.later {t : Time} (hle : w.now ≤ t) : Custody { w with now := t } node :=
  { h with
    disk := h.disk.imp_right fun ⟨d, hd, hv⟩ => ⟨d, hd, hv.later hle⟩
    inbox := fun u hu => (h.inbox u hu).later hle
    streams := fun hk => (h.streams hk).later hle }

theorem Custody.record (hcert : node'.nodeCertPEM = node.nodeCertPEM)
    (hpending : node'.pendingCertPEM = node.pendingCertPEM)
    (hover : node'.certOverlapUntil = node.certOverlapUntil) : Custody w node' := by
  have hhon : ∀ {now v}, Honours node' now v ↔ Honours node now v := by
    intro now v
    unfold Honours
    rw [hpending, hover]
  have hfits : ∀ {now st}, Fits node now st → Fits node' now st := by
    intro now st hst
    cases st with
    | due u => exact fun hne => hpending ▸ hst hne
    | pinned u => exact ⟨hst.1, hhon.mpr hst.2⟩
    | _ => exact hst
  exact
    { h with
      disk := by simpa only [hcert, hhon] using h.disk
      inbox := fun v hv => hhon.mpr (h.inbox v hv)
      streams := fun hk => hfits (h.streams hk)
      pendingKnown := hpending ▸ h.pendingKnown }

theorem Custody.put (hfits : Fits node w.now st)
    (hholds : ∀ {k v}, (w.put sid st).Holds k v → w.Holds k v) : Custody (w.put sid st) node :=
  { h with
    streams := fits_put hfits fun _ hk => h.streams hk
    apart := fun hv => h.apart (hholds hv)
    single := fun hv hv' => h.single (hholds hv) (hholds hv')
    heldKnown := fun hv => h.heldKnown (hholds hv) }

theorem Custody.put_free (sid : Nat) (hfree : st.held = none) : Custody (w.put sid st) node := by
  have hholds : ∀ {k v}, (w.put sid st).Holds k v → w.Holds k v := by
    intro k v hv
    rw [holds_put, hfree] at hv
    split at hv
    · cases hv
    · exact hv
  have hfits : Fits node w.now st := by
    cases st with
    | watching | looked | ended => trivial
    | due | pinned | unsent => cases hfree
  exact h.put hfits hholds

theorem Custody.halt : Custody w.halt node := by
  have hcarried : ∀ {x}, x ∈ w.halt.carried → x ∈ w.carried := by
    intro x hx
    rw [carried, Rollover.halt, map_nil, mem_singleton] at hx
    exact hx ▸ mem_cons_self
  exact
    { h with
      inbox := fun u hu => by cases hu
      apart := fun hv hmem => h.apart hv (hcarried hmem)
      nodup := by simp [carried, Rollover.halt]
      carriedKnown := fun x hx => h.carriedKnown x (hcarried hx) }

theorem Custody.issue (hnew : u.certPEM ∉ w.known) :
    Custody ({ w with known := u.certPEM :: w.known }.put sid (.due u)) node := by
  have hother : ∀ {k v}, w.Holds k v → v.certPEM ≠ u.certPEM :=
    fun hv heq => hnew (heq ▸ h.heldKnown hv)
  have hholds : ∀ {k v}, ({ w with known := u.certPEM :: w.known }.put sid (.due u)).Holds k v →
      (sid = k ∧ v = u) ∨ (sid ≠ k ∧ w.Holds k v) := by
    intro k v hv
    rw [holds_put] at hv
    split at hv
    · next hk => exact .inl ⟨hk, (Option.some.inj hv).symm⟩
    · next hk => exact .inr ⟨hk, hv⟩
  -- what is pending has been issued before
  have hfits : Fits node w.now (.due u) :=
    fun hne heq => hnew (heq ▸ h.pendingKnown (heq ▸ hne))
  refine
    { h with
      streams := fits_put hfits fun _ hk => h.streams hk
      apart := ?_
      single := ?_
      carriedKnown := fun x hx => mem_cons_of_mem _ (h.carriedKnown x hx)
      heldKnown := ?_
      pendingKnown := fun hp => mem_cons_of_mem _ (h.pendingKnown hp) }
  · intro k v hv
    rcases hholds hv with ⟨-, rfl⟩ | ⟨-, hv⟩
    · exact fun hmem => hnew (h.carriedKnown _ hmem)
    · exact h.apart hv
  · intro k k' v v' hv hv' heq
    rcases hholds hv with ⟨rfl, rfl⟩ | ⟨-, hw⟩ <;> rcases hholds hv' with ⟨rfl, rfl⟩ | ⟨-, hw'⟩
    · rfl
    · exact absurd heq.symm (hother hw')
    · exact absurd heq (hother hw)
    · exact h.single hw hw' heq
  · intro k v hv
    rcases hholds hv with ⟨-, rfl⟩ | ⟨-, hv⟩
    · exact mem_cons_self
    · exact mem_cons_of_mem _ (h.heldKnown hv)

omit h in
theorem holds_put_same (hu : w.Holds sid u) (hst : st.held = some u) :
    (w.put sid st).Holds k v ↔ w.Holds k v := by
  rw [holds_put]
  split
  · next hk =>
      subst hk
      obtain ⟨st₀, hat, hheld⟩ := hu
      unfold Holds
      rw [hat, hst]
      simp [hheld]
  · rfl

theorem Custody.pin (hat : w.streams[sid]? = some (.due u)) (hcert : u.certPEM ≠ [])
    (hover : u.overlapUntil ≠ 0)
    (hactive : hasActivePendingCert node w.now = true → node.pendingCertPEM = u.certPEM) :
    Custody (w.put sid (.pinned u))
      { node with pendingCertPEM := u.certPEM, certOverlapUntil := u.overlapUntil } := by
  have hinactive : hasActivePendingCert node w.now ≠ true :=
    fun ha => h.streams hat hcert (hactive ha)
  have hholds : ∀ {k v}, (w.put sid (.pinned u)).Holds k v ↔ w.Holds k v :=
    holds_put_same (holds_of_due hat) rfl
  have hfits : Fits { node with
      pendingCertPEM := u.certPEM, certOverlapUntil := u.overlapUntil } w.now (.pinned u) :=
    ⟨hcert, .inr ⟨rfl, rfl, hcert, hover⟩⟩
  refine
    { h with
      disk := h.disk.imp_right fun ⟨d, hd, hv⟩ => ⟨d, hd, .inl (hv.expired hinactive)⟩
      inbox := fun v hv => .inl ((h.inbox v hv).expired hinactive)
      streams := fits_put hfits ?_
      apart := fun hv => h.apart (hholds.mp hv)
      single := fun hv hv' => h.single (hholds.mp hv) (hholds.mp hv')
      heldKnown := fun hv => h.heldKnown (hholds.mp hv)
      pendingKnown := fun _ => h.heldKnown (holds_of_due hat) }
  intro k st hne hk
  have hst : Fits node w.now st := h.streams hk
  cases st with
  | due v => exact fun _ heq => hne (h.single (holds_of_due hat) (holds_of_due hk) heq)
  | pinned v => exact ⟨hst.1, .inl (hst.2.expired hinactive)⟩
  | _ => exact hst

theorem Custody.deliver (hat : w.streams[sid]? = some (.pinned u)) :
    Custody ({ w with inbox := w.inbox ++ [u] }.put sid .watching) node := by
  have hu : w.Holds sid u := holds_of_pinned hat
  have hfree : Custody (w.put sid .watching) node := h.put_free sid rfl
  have hcarried : ({ w with inbox := w.inbox ++ [u] } : Rollover).carried =
      w.carried ++ [u.certPEM] := by
    simp [carried]
  refine
    { hfree with
      inbox := ?_
      apart := ?_
      nodup := ?_
      carriedKnown := ?_ }
  · intro v hv
    rcases mem_append.mp hv with hv | hv
    · exact h.inbox v hv
    · rw [mem_singleton.mp hv]
      exact (h.streams hat).2
  · intro k v hv hmem
    have hv' : (w.put sid .watching).Holds k v := hv
    rcases mem_append.mp (hcarried ▸ hmem) with hmem | hmem
    · exact hfree.apart hv' hmem
    · rw [holds_put] at hv'
      split at hv'
      · cases hv'
      · next hk => exact hk (h.single hu hv' (mem_singleton.mp hmem).symm)
  · show ({ w with inbox := w.inbox ++ [u] } : Rollover).carried.Nodup
    rw [hcarried]
    exact nodup_append.mpr ⟨h.nodup, by simp, by
      intro x hx y hy
      rw [mem_singleton.mp hy]
      rintro rfl
      exact h.apart hu hx⟩
  · intro x hx
    rcases mem_append.mp (hcarried ▸ hx) with hx | hx
    · exact h.carriedKnown x hx
    · rw [mem_singleton.mp hx]
      exact h.heldKnown hu

theorem Custody.keep (hat : w.streams[sid]? = some (.pinned u)) :
    Custody (w.put sid (.unsent u)) node := by
  have hfits : Fits node w.now (.unsent u) := (h.streams hat).1
  exact h.put hfits fun hv => (holds_put_same (holds_of_pinned hat) rfl).mp hv

omit h in
/-- A replacement that is honoured and is not the pending one has expired. -/
theorem Honours.other {now : Time} {cert : Bytes} (h : Honours node now u)
    (hpending : node.pendingCertPEM = cert) (hne : u.certPEM ≠ cert) : u.overlapUntil ≤ now :=
  h.resolve_right fun ⟨hp, _⟩ => hne (hp.symm.trans hpending)

theorem Custody.clear (hat : w.streams[sid]? = some (.unsent u))
    (hpending : node.pendingCertPEM = u.certPEM) :
    Custody (w.put sid .ended) { node with pendingCertPEM := [], certOverlapUntil := 0 } := by
  have hu : w.Holds sid u := holds_of_unsent hat
  have hfree : Custody (w.put sid .ended) node := h.put_free sid rfl
  refine
    { hfree with
      disk := ?_
      inbox := ?_
      streams := fits_put (show Fits _ _ .ended from trivial) ?_
      pendingKnown := fun hp => absurd rfl hp }
  · apply h.disk.imp_right
    rintro ⟨d, hd, hv⟩
    refine ⟨d, hd, .inl (hv.other hpending fun heq => h.apart hu ?_)⟩
    exact heq ▸ mem_cons_self
  · intro v hv
    refine .inl ((h.inbox v hv).other hpending fun heq => h.apart hu ?_)
    exact heq ▸ mem_cons_of_mem _ (mem_map_of_mem hv)
  · intro k st hne hk
    have hst : Fits node w.now st := h.streams hk
    cases st with
    | due v => exact fun hcert => hcert.symm
    | pinned v =>
      refine ⟨hst.1, .inl (hst.2.other hpending fun heq => ?_)⟩
      exact hne (h.single hu (holds_of_pinned hk) heq.symm)
    | _ => exact hst

theorem Custody.store {rest : List Replacement} {phase : AgentPhase} (hinbox : w.inbox = u :: rest)
    :
    Custody
      { w with disk := u.certPEM, diskUntil := some u.overlapUntil, inbox := rest, agent := phase }
      node := by
  have hu : u ∈ w.inbox := hinbox ▸ mem_cons_self
  have hcarried : w.carried = w.disk :: u.certPEM :: rest.map (·.certPEM) := by
    rw [carried, hinbox, map_cons]
  exact
    { h with
      disk := .inr ⟨u.overlapUntil, rfl, h.inbox u hu⟩
      inbox := fun v hv => h.inbox v (hinbox ▸ mem_cons_of_mem _ hv)
      apart := fun hv hmem => h.apart hv (hcarried ▸ mem_cons_of_mem _ hmem)
      nodup := (nodup_cons.mp (hcarried ▸ h.nodup)).2
      carriedKnown := fun x hx => h.carriedKnown x (hcarried ▸ mem_cons_of_mem _ hx) }

theorem Custody.promote (hpending : node.pendingCertPEM = w.disk)
    (hcert : node'.nodeCertPEM = w.disk) (hempty : node'.pendingCertPEM = []) :
    Custody w node' := by
  refine
    { h with
      disk := .inl hcert.symm
      inbox := ?_
      streams := ?_
      pendingKnown := fun hp => absurd hempty hp }
  · intro v hv
    refine .inl ((h.inbox v hv).other hpending fun heq => ?_)
    exact (nodup_cons.mp h.nodup).1 (heq ▸ mem_map_of_mem hv)
  · intro k st hk
    have hst : Fits node w.now st := h.streams hk
    cases st with
    | due v => exact fun hne => hempty ▸ hne.symm
    | pinned v =>
      refine ⟨hst.1, .inl (hst.2.other hpending fun heq => ?_)⟩
      exact h.apart (holds_of_pinned hk) (heq ▸ mem_cons_self)
    | _ => exact hst

theorem Custody.register {client : RegisteredNode}
    (had : w.registry.Admits w.now { client with nodeCertPEM := w.disk })
    (hnode : w.registry.byName[client.name]? = some node) :
    Custody w (w.registry.recorded w.now { client with nodeCertPEM := w.disk }) := by
  obtain ⟨hpending, hover⟩ := recorded_pending w.now
    (show w.registry.byName[({ client with nodeCertPEM := w.disk } : RegisteredNode).name]? =
      some node from hnode)
  by_cases hsame : node.nodeCertPEM = w.disk
  · rw [if_pos hsame] at hpending hover
    exact h.record (by rw [recorded_nodeCertPEM, hsame]) hpending hover
  · rw [if_neg hsame] at hpending
    have hpromote := (had.pinned node hnode).1.resolve_left hsame
    exact h.promote (canPromotePendingCert_iff.mp hpromote).2.1 recorded_nodeCertPEM
      hpending

end Lemmas

def Sound (client : RegisteredNode) (w : Rollover) : Prop :=
  ∃ node, w.registry.byName[client.name]? = some node ∧ Custody w node

variable {client : RegisteredNode}

theorem Sound.step {parse : CertParser} {c : CertLifecycle}
    {w w' : Rollover} {a : RolloverStep} (h : w.Sound client) (hclean : a.FailsCleanly w)
    (hstep : w.step client parse c a = some w') : w'.Sound client := by
  obtain ⟨node, hnode, h⟩ := h
  cases a <;> dsimp only [Rollover.step] at hstep
  case lookup sid =>
    split at hstep
    · split at hstep <;> cases hstep <;> exact ⟨node, hnode, h.put_free sid rfl⟩
    · cases hstep
  case issue sid issuer =>
    split at hstep
    · split at hstep
      · cases hstep
        exact ⟨node, hnode, h.put_free sid rfl⟩
      · cases hstep
        exact ⟨node, hnode, h.put_free sid rfl⟩
      · split at hstep
        · cases hstep
        · next hnew =>
            cases hstep
            exact ⟨node, hnode, h.issue (u := ⟨_, _⟩) hnew⟩
    · cases hstep
  case pin sid =>
    split at hstep
    · next u hat =>
        split at hstep
        · cases hstep
          exact ⟨node, hnode, h.put_free sid rfl⟩
        · next r hr =>
            cases hstep
            obtain ⟨hcert, hover, -, node₀, hnode₀, hactive, rfl⟩ :=
              allowCertRollover_ok hr
            rw [hnode] at hnode₀
            cases hnode₀
            exact ⟨_, modify_byName_self, { h.pin hat hcert hover hactive with }⟩
    · cases hstep
  case send sid ok reached =>
    split at hstep
    · next u hat =>
        cases hstep
        split
        · next hreach =>
            cases ok with
            | true => exact ⟨node, hnode, h.deliver hat⟩
            | false =>
              -- the one case the condition excludes: handler and client would both have it
              exact absurd hreach.2 (hclean rfl hreach.1)
        · cases ok with
          | true => exact ⟨node, hnode, h.put_free sid rfl⟩
          | false => exact ⟨node, hnode, h.keep hat⟩
    · cases hstep
  case clear sid =>
    split at hstep
    · next u hat =>
        split at hstep
        · cases hstep
          exact ⟨node, hnode, h.put_free sid rfl⟩
        · next r hr =>
            cases hstep
            obtain ⟨node₀, hnode₀, hcase⟩ := clearCertRollover_ok hr
            rw [hnode] at hnode₀
            cases hnode₀
            rcases hcase with ⟨-, -, rfl⟩ | ⟨hclear, rfl⟩
            · exact ⟨node, hnode, { h.put_free sid rfl with }⟩
            · -- pinned replacements are not empty, so only this one is cleared
              have hpending := hclear.resolve_left (h.streams hat)
              exact ⟨_, modify_byName_self, { h.clear hat hpending with }⟩
    · cases hstep
  case hangUp sid =>
    split at hstep
    · cases hstep
      exact ⟨node, hnode, h.put_free sid rfl⟩
    · cases hstep
  case start =>
    split at hstep
    · cases hstep
      exact ⟨node, hnode, { h with }⟩
    · cases hstep
  case register =>
    split at hstep
    · split at hstep
      · cases hstep
        exact ⟨node, hnode, h.halt⟩
      · next r hr =>
          cases hstep
          obtain ⟨had, rfl⟩ := register_eq_ok_iff.mp hr
          exact ⟨_, store_recorded_byName_self, { h.register had hnode with }⟩
    · cases hstep
  case connect sid =>
    split at hstep
    · cases hstep
      have hfree : Custody (w.put sid .watching) node := h.put_free sid rfl
      exact ⟨node, hnode, { hfree with }⟩
    · cases hstep
  case store ok =>
    split at hstep
    · next u rest hagent hinbox =>
        split at hstep
        · cases hstep
          exact ⟨node, hnode, h.store hinbox⟩
        · cases hstep
          exact ⟨node, hnode, h.halt⟩
    · cases hstep
  case crash =>
    split at hstep
    · cases hstep
    · cases hstep
      exact ⟨node, hnode, h.halt⟩
  case tick t =>
    split at hstep
    · next hle =>
        cases hstep
        exact ⟨node, hnode, h.later hle⟩
    · cases hstep

theorem Sound.init {client node : RegisteredNode} (parse : CertParser) (c : CertLifecycle)
    {r : Registry} (now : Time) (hnode : r.lookup client.name = some node) :
    (rollover client parse c r now node.nodeCertPEM).init.Sound client := by
  have hholds : ∀ {k v}, ¬ (rollover client parse c r now node.nodeCertPEM).init.Holds k v := by
    rintro k v ⟨st, hat, -⟩
    simp [rollover] at hat
  exact ⟨node, hnode,
    { disk := .inl rfl
      inbox := fun u hu => by cases hu
      streams := fun hat => by simp [rollover] at hat
      apart := fun hv => (hholds hv).elim
      single := fun hv => (hholds hv).elim
      nodup := by simp [carried, rollover]
      carriedKnown := fun x hx => mem_singleton.mp hx ▸ mem_cons_self
      heldKnown := fun hv => (hholds hv).elim
      pendingKnown := fun _ => mem_cons_of_mem _
        (mem_map_of_mem (OMap.mem_vals.mpr ⟨client.name, hnode⟩)) }⟩

theorem Sound.keepsIdentity {w : Rollover} (h : w.Sound client) : KeepsIdentity client w := by
  obtain ⟨node, hnode, h⟩ := h
  intro htime
  rcases h.disk with hd | ⟨d, hd, hexp | ⟨hp, ho, hne, hz⟩⟩
  · refine ⟨⟨node, hnode, .inl hd⟩, ?_⟩
    intro hdup
    obtain ⟨prev, hprev, hcert, -⟩ := register_nameDup hdup
    rw [show ({ client with nodeCertPEM := w.disk } : RegisteredNode).name = client.name from rfl,
      hnode] at hprev
    cases hprev
    exact hcert hd.symm
  · exact absurd (htime d hd) (Int.not_lt.mpr hexp)
  · refine ⟨⟨node, hnode, .inr hp.symm⟩, ?_⟩
    intro hdup
    obtain ⟨prev, hprev, -, hpromote⟩ := register_nameDup hdup
    rw [show ({ client with nodeCertPEM := w.disk } : RegisteredNode).name = client.name from rfl,
      hnode] at hprev
    cases hprev
    apply hpromote
    rw [canPromotePendingCert_iff, hp, ho]
    exact ⟨hne, rfl, hz, htime d hd⟩

end Rollover

/-! ## Results -/

/-- **Roll-over does not lock the node out, if failed sends do not arrive.** In every run of any
number of handlers with a client that may crash and reconnect at any point, as long as no send that
reports an error reaches the client, the certificate on the client's disk is the node's or the
pending one until the deadline it was pinned with, and `Register` does not refuse it as another
node's. -/
theorem rollover_keeps_identity (client node : RegisteredNode) (parse : CertParser)
    (c : CertLifecycle) (r : Registry) (now : Time) (hnode : r.lookup client.name = some node)
    (ls : List RolloverStep) (hclean : (rollover client parse c r now node.nodeCertPEM).Along
      (fun w a => a.FailsCleanly w) (rollover client parse c r now node.nodeCertPEM).init ls) :
    (rollover client parse c r now node.nodeCertPEM).Throughout (KeepsIdentity client)
      (rollover client parse c r now node.nodeCertPEM).init ls := by
  refine Machine.Throughout.imp (fun w hw => Rollover.Sound.keepsIdentity hw) ?_
  refine Machine.throughout_of_along (J := fun _ => True) (fun _ _ => trivial) ?_ trivial
    (Rollover.Sound.init parse c now hnode) hclean
  intro w a w' _ hw ha hstep
  exact hw.step ha hstep

/-! ## A send that fails and arrives -/

section Sample

def sampleRollover : Machine Rollover RolloverStep :=
  rollover sampleClient sampleParse sampleLifecycle (({} : Registry).store sampleClient) 1 [1]

def sampleSend (ok : Bool) : List RolloverStep :=
  [.start, .register, .connect 0, .lookup 0, .issue 0 sampleIssuer, .pin 0, .send 0 ok true]

/-- The theorem at a roll-over interrupted by a crash after the new certificate was stored. -/
theorem rollover_keeps_identity_crash :
    ∃ w, sampleRollover.exec sampleRollover.init
        (sampleSend true ++ [.store true, .crash, .start]) =
        some w ∧ w.disk = [2] ∧ KeepsIdentity sampleClient w := by
  have hrun : (sampleRollover.exec sampleRollover.init
      (sampleSend true ++ [.store true, .crash, .start])).map (·.disk) = some [2] := by decide
  obtain ⟨w, hw, hdisk⟩ := Option.map_eq_some_iff.mp hrun
  refine ⟨w, hw, hdisk, ?_⟩
  refine Machine.Throughout.last (rollover_keeps_identity sampleClient sampleClient sampleParse
    sampleLifecycle (({} : Registry).store sampleClient) 1 (by decide) _ ?_) hw
  apply Machine.along_of_forall
  simp [sampleSend, RolloverStep.FailsCleanly]

/-- **The lock-out.** The send fails, but the client has the update. -/
theorem rollover_withdraws_identity :
    ∃ w, sampleRollover.exec sampleRollover.init (sampleSend false ++ [.store true, .clear 0]) =
        some w ∧ w.now = 1 ∧ w.diskUntil = some (10 * hour) ∧ ¬ KeepsIdentity sampleClient w ∧
      w.registry.register w.now { sampleClient with nodeCertPEM := w.disk } = .error .nameDup := by
  have hrun : (sampleRollover.exec sampleRollover.init
      (sampleSend false ++ [.store true, .clear 0])).map (fun w => (w.now, w.diskUntil,
        match w.registry.register w.now { sampleClient with nodeCertPEM := w.disk } with
        | .error .nameDup => true
        | _ => false)) = some (1, some (10 * hour), true) := by decide
  obtain ⟨w, hw, heq⟩ := Option.map_eq_some_iff.mp hrun
  rw [Prod.mk.injEq, Prod.mk.injEq] at heq
  obtain ⟨hnow, huntil, hdup⟩ := heq
  have hdup : w.registry.register w.now { sampleClient with nodeCertPEM := w.disk } =
      .error .nameDup := by
    split at hdup
    · next h => exact h
    · cases hdup
  refine ⟨w, hw, hnow, huntil, ?_, hdup⟩
  intro hkeeps
  refine (hkeeps ?_).2 hdup
  intro d hd
  rw [huntil] at hd
  cases hd
  rw [hnow]
  decide

end Sample

end AwgMesh.ControlPlane
