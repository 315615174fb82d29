import AwgMesh.ControlPlane.Cert.Lifecycle
import AwgMesh.ControlPlane.Registry.Pinning

/-! # Updates that get lost -/

namespace AwgMesh.ControlPlane

open Lib Registry

/-- What may happen while the client goes on with its certificate `old`. -/
def RegistryStep.GoesOn (name : String) (old pinned : Bytes) (deadline : Time) (a : RegistryStep) :
    Prop :=
  match a.op with
  | .register node => node.name = name → node.nodeCertPEM = old
  | .allowCertRollover n certPEM _ => n = name → certPEM ≠ pinned ∧ a.now < deadline
  | .clearCertRollover n certPEM => n = name → certPEM ≠ [] ∧ certPEM ≠ pinned
  | .heartbeat .. => True
  | .remove n => n ≠ name

def Awaits (name : String) (old pinned : Bytes) (deadline : Time) (r : Registry) : Prop :=
  ∃ node, r.byName[name]? = some node ∧ node.name = name ∧ node.nodeCertPEM = old ∧
    node.pendingCertPEM = pinned ∧ node.certOverlapUntil = deadline

section

variable {name : String} {old pinned : Bytes} {deadline : Time} {r r' : Registry} {a : RegistryStep}

theorem Awaits.after (hp : pinned ≠ []) (hd : deadline ≠ 0) (h : Awaits name old pinned deadline r)
    (ha : a.GoesOn name old pinned deadline) : Awaits name old pinned deadline (a.after r) := by
  cases hres : a.result r with
  | error err => rw [a.after_error hres]; exact h
  | ok r' =>
    rw [a.after_ok hres]
    obtain ⟨node, hnode, hname, hold, hpinned, hdeadline⟩ := h
    unfold RegistryStep.GoesOn at ha
    cases a.recordOutcome name hres with
    | other hop h => exact ⟨node, h.trans hnode, hname, hold, hpinned, hdeadline⟩
    | registered x hop hx had h =>
      rw [hop] at ha
      have hcert : x.nodeCertPEM = old := ha hx
      obtain ⟨hpending, hover⟩ := recorded_pending a.now (hx ▸ hnode)
      rw [if_pos (hold.trans hcert.symm)] at hpending hover
      exact ⟨_, h, recorded_name.trans hx, recorded_nodeCertPEM.trans hcert,
        hpending.trans hpinned, hover.trans hdeadline⟩
    | pinned certPEM overlapUntil x hop hx hactive h =>
      -- another replacement is refused while `pinned` is active
      rw [hop] at ha
      obtain ⟨hother, hnow⟩ := ha rfl
      rw [hnode] at hx
      cases hx
      have : node.pendingCertPEM = certPEM := hactive <| hasActivePendingCert_iff.mpr
        ⟨hpinned ▸ hp, hdeadline ▸ hd, hdeadline ▸ hnow⟩
      exact absurd (this.symm.trans hpinned) hother
    | notCleared certPEM x hop hx hne hother h =>
      exact ⟨node, h.trans (hx.symm.trans hnode), hname, hold, hpinned, hdeadline⟩
    | cleared certPEM x hop hx hclear h =>
      rw [hop] at ha
      obtain ⟨hne, hother⟩ := ha rfl
      rw [hnode] at hx
      cases hx
      exact absurd ((hclear.resolve_left hne).symm.trans hpinned) hother
    | beaten x y hop hx h =>
      obtain ⟨_, _, _, _, -, rfl⟩ := hop
      rw [hnode] at hx
      cases hx
      exact ⟨_, h, hname, hold, hpinned, hdeadline⟩
    | removed hop h =>
      rw [hop] at ha
      exact absurd rfl ha

theorem Awaits.exec {calls : List RegistryStep} (hp : pinned ≠ []) (hd : deadline ≠ 0)
    (h : Awaits name old pinned deadline r)
    (hcalls : ∀ a ∈ calls, a.GoesOn name old pinned deadline)
    (hrun : registryRuns.exec r calls = some r') : Awaits name old pinned deadline r' := by
  refine Machine.exec_invariant (I := fun ls r => (∀ a ∈ ls, a.GoesOn name old pinned deadline) →
    Awaits name old pinned deadline r) (fun _ => h) ?_ hrun hcalls
  intro ls r a t _ ih hstep hls
  cases hstep
  refine (ih fun b hb => hls b (List.mem_append_left _ hb)).after hp hd ?_
  exact hls a (List.mem_append_right _ (List.mem_singleton_self a))

variable {parse : CertParser} {issuer : CertIssuer} {c : CertLifecycle} {node : RegisteredNode}

theorem nextDueUpdate_of_awaits
    {t : Time} (current : Certificate) (hp : node.pendingCertPEM ≠ [])
    (hd : node.certOverlapUntil = current.notAfter) (hz : current.notAfter ≠ 0)
    (hparse : parse node.nodeCertPEM = .ok current) (hcn : current.commonName = node.name)
    (ht : t < current.notAfter) :
    c.nextDueUpdate parse issuer t node = .ok (none, current.notAfter) := by
  have hactive := hasActivePendingCert_iff.mpr ⟨hp, hd ▸ hz, hd ▸ ht⟩
  rw [CertLifecycle.nextDueUpdate, hparse]
  simp only [hcn, hactive, ne_eq, not_true_eq_false, if_false, if_true]

end

theorem renewBefore_pos {issuer : Option CertIssuer} {cfg : CertLifecycleConfig} {c : CertLifecycle}
    (h : newCertLifecycle issuer cfg = .ok c) : 0 < c.renewBefore := by
  unfold newCertLifecycle at h
  split at h
  · cases h
  · cases h
    exact positiveOr_pos (by decide)

/-- **A lost update is offered again only after the expiry.** A replacement is issued with more than
an hour left, pinned and sent, and the client goes on with its old certificate. -/
theorem lost_update_reoffered (parse : CertParser) (issuer : CertIssuer)
    (cfg : CertLifecycleConfig) (c : CertLifecycle)
    (hc : newCertLifecycle (some issuer) cfg = .ok c) (r r₁ r₂ : Registry) (node : RegisteredNode)
    (current : Certificate) (update : CertUpdate) (overlapUntil t t' : Time)
    (hnode : r.lookup node.name = some node) (hparse : parse node.nodeCertPEM = .ok current)
    (hleft : t + hour < current.notAfter)
    (hdue : c.nextDueUpdate parse issuer t node = .ok (some update, overlapUntil))
    (hpin : r.allowCertRollover t' node.name update.certPem overlapUntil = .ok r₁)
    (calls : List RegistryStep) (hcalls : ∀ a ∈ calls,
      a.GoesOn node.name node.nodeCertPEM update.certPem current.notAfter)
    (hrun : registryRuns.exec r₁ calls = some r₂) :
    ∃ node₂, r₂.lookup node.name = some node₂ ∧ (∀ issuer' t₂, t₂ < current.notAfter →
        c.nextDueUpdate parse issuer' t₂ node₂ = .ok (none, current.notAfter)) ∧
      ∀ issuer' t₂ issued, current.notAfter ≤ t₂ →
        issuer' node₂ (certHostsForNode node₂ current) c.validFor = .ok issued → ∃ update' until',
            c.nextDueUpdate parse issuer' t₂ node₂ = .ok (some update', until') := by
  obtain ⟨current', hparse', hcn, -, -, hover⟩ := CertLifecycle.nextDueUpdate_due hdue
  rw [hparse] at hparse'
  cases hparse'
  have hkept : CertLifecycle.promotionDeadline t current = current.notAfter :=
    if_neg (Int.not_lt.mpr (Int.le_of_lt hleft))
  rw [hkept] at hover
  obtain ⟨hp, hzero, -, x, hx, -, hr⟩ := allowCertRollover_ok hpin
  have hx' : some node = some x := hnode.symm.trans hx
  cases hx'
  have hz : current.notAfter ≠ 0 := hover ▸ hzero
  have hawaits : Awaits node.name node.nodeCertPEM update.certPem current.notAfter r₁ := by
    rw [hr]
    exact ⟨_, modify_byName_self, rfl, rfl, rfl, hover⟩
  obtain ⟨node₂, hnode₂, hname, hold, hpending, hover⟩ := hawaits.exec hp hz hcalls hrun
  rw [← hold] at hparse
  rw [← hname] at hcn
  refine ⟨node₂, hnode₂, ?_, ?_⟩
  · intro issuer' t₂ ht
    exact nextDueUpdate_of_awaits current (hpending ▸ hp) hover hz hparse hcn ht
  · intro issuer' t₂ issued ht hissue
    have hinactive : hasActivePendingCert node₂ t₂ = false := by
      rw [← Bool.not_eq_true, hasActivePendingCert_iff, hover]
      intro hact
      exact absurd hact.2.2 (Int.not_lt.mpr ht)
    have hwindow : current.notAfter ≤ t₂ + c.renewBefore :=
      Int.le_trans ht (Int.le_add_of_nonneg_right (Int.le_of_lt (renewBefore_pos hc)))
    obtain ⟨update', hdue', -⟩ :=
      CertLifecycle.exists_nextDueUpdate_due hparse hcn hinactive hwindow hissue
    exact ⟨update', _, hdue'⟩

/-! ## A lost update -/

section Sample

def sampleUpdate : CertUpdate :=
  { certPem := [2], keyPem := [3]
    validFromUnix := -62135596800, validUntilUnix := 360000 - 62135596800 }

def samplePinned : Registry :=
  (({} : Registry).store sampleClient).modify "c"
    { sampleClient with pendingCertPEM := [2], certOverlapUntil := 10 * hour }

/-- The theorem at a client that registers once more with its old certificate. -/
theorem lost_update_reoffered_register :
    ∃ node, (RegistryStep.after samplePinned ⟨2, .register sampleClient⟩).lookup "c" = some node ∧
      ∀ t, 10 * hour ≤ t → ∃ update overlapUntil,
        sampleLifecycle.nextDueUpdate sampleParse sampleIssuer t node =
          .ok (some update, overlapUntil) := by
  obtain ⟨node, hnode, -, hdue⟩ := lost_update_reoffered sampleParse sampleIssuer {}
    sampleLifecycle (by decide) (({} : Registry).store sampleClient) samplePinned
    (RegistryStep.after samplePinned ⟨2, .register sampleClient⟩) sampleClient
    { commonName := "c", notAfter := 10 * hour } sampleUpdate (10 * hour) 1 1 (by decide)
    (by decide)
    (by decide) (by decide) (by decide) [⟨2, .register sampleClient⟩]
    (by simp [RegistryStep.GoesOn]) rfl
  exact ⟨node, hnode, fun t ht => hdue sampleIssuer t _ ht rfl⟩

/-- **Not in time.** Nine hours are left. -/
theorem lost_update_not_reoffered_in_time :
    (1 + hour < 10 * hour ∧ newCertLifecycle (some sampleIssuer) {} = .ok sampleLifecycle ∧
      sampleParse sampleClient.nodeCertPEM = .ok { commonName := "c", notAfter := 10 * hour } ∧
      sampleLifecycle.nextDueUpdate sampleParse sampleIssuer 1 sampleClient =
        .ok (some sampleUpdate, 10 * hour) ∧
      (({} : Registry).store sampleClient).allowCertRollover 1 "c" [2] (10 * hour) =
        .ok samplePinned) ∧
    ∃ r node, samplePinned.register 2 sampleClient = .ok r ∧ r.lookup "c" = some node ∧
      ∀ issuer t, t < 10 * hour → ∀ update overlapUntil,
        sampleLifecycle.nextDueUpdate sampleParse issuer t node ≠
          .ok (some update, overlapUntil) := by
  refine ⟨by decide, samplePinned.store (samplePinned.recorded 2 sampleClient),
    samplePinned.recorded 2 sampleClient, by decide, by decide, ?_⟩
  intro issuer t ht update overlapUntil hdue
  rw [nextDueUpdate_of_awaits { commonName := "c", notAfter := 10 * hour } (by decide) (by decide)
    (by decide) (by decide) (by decide) ht] at hdue
  cases hdue

end Sample

/-!
## Issuing certificates, and when a new one is due

`IssueCertWithValidity` of `pkg/tls/ca.go` and the `CAIssuer` of `cert_lifecycle.go`, which the
lifecycle calls for its replacements.
-/

def wholeSeconds (t : Time) : Time := t - t % 1000000000

def Certificate.encoded (cert : Certificate) : Certificate :=
  { cert with notBefore := wholeSeconds cert.notBefore, notAfter := wholeSeconds cert.notAfter }

/-- What is used of `crypto/x509`. -/
structure X509 where
  create : Certificate → Except String (Bytes × Bytes)
  parse : CertParser
  parse_create : ∀ {tmpl certPEM keyPEM}, create tmpl = .ok (certPEM, keyPEM) →
    parse certPEM = .ok tmpl.encoded

def certificateValidityBackdate : Duration := 60 * 1000000000

/-- The template of `IssueCertWithValidity`. -/
def certTemplate (now : Time) (commonName : String) (hosts : List String) (validFor : Duration) :
    Certificate :=
  { commonName := commonName
    dnsNames := hosts.filter fun h => (Net.parseIP h).isNone
    ipAddresses := hosts.filterMap Net.parseIP
    notBefore := now - certificateValidityBackdate
    notAfter := now + validFor }

def issueCertWithValidity (x : X509) (now : Time) (commonName : String) (hosts : List String)
    (validFor : Duration) : Except String (Bytes × Bytes) :=
  if validFor ≤ 0 then .error "certificate validity must be positive"
  else x.create (certTemplate now commonName hosts validFor)

def caIssuer (x : X509) (hasCA : Bool) (now : Time) : CertIssuer := fun node hosts validFor =>
  if !hasCA then .error "cert issuer CA material is required"
  else match issueCertWithValidity x now node.name hosts validFor with
    | .error err => .error err
    | .ok (certPEM, keyPEM) =>
      match x.parse certPEM with
      | .error err => .error err
      | .ok cert => .ok { certPEM := certPEM, keyPEM := keyPEM, cert := cert }

/-! ## The settings -/

def CertLifecycleConfig.validity (cfg : CertLifecycleConfig) : Duration :=
  (positiveOr cfg.rotationDays defaultCertRotationDays * 24 * hour).bmod (2 ^ 64)

def CertLifecycleConfig.window (cfg : CertLifecycleConfig) : Duration :=
  positiveOr cfg.renewBefore defaultCertRenewBefore

theorem newCertLifecycle_ok {issuer : Option CertIssuer} {cfg : CertLifecycleConfig}
    {c : CertLifecycle} (h : newCertLifecycle issuer cfg = .ok c) :
    c.validFor = cfg.validity ∧ c.renewBefore = cfg.window ∧ 0 < c.pollInterval := by
  unfold newCertLifecycle at h
  split at h
  · cases h
  · cases h
    exact ⟨rfl, rfl, positiveOr_pos (by decide)⟩

/-! ## Due or not -/

namespace CertLifecycle

def NotDue (parse : CertParser) (issue : CertIssuer) (c : CertLifecycle) (now : Time)
    (node : RegisteredNode) : Prop :=
  ∃ notAfter, c.nextDueUpdate parse issue now node = .ok (none, notAfter)

section

variable {parse : CertParser} {issue : CertIssuer} {c : CertLifecycle} {now : Time}
  {node : RegisteredNode} {current : Certificate}

theorem notDue_iff : c.NotDue parse issue now node ↔
    ∃ current, parse node.nodeCertPEM = .ok current ∧ current.commonName = node.name ∧
      (hasActivePendingCert node now = true ∨ now + c.renewBefore < current.notAfter) := by
  unfold NotDue nextDueUpdate
  constructor
  · rintro ⟨notAfter, h⟩
    split at h
    · cases h
    next current hparse =>
    split at h
    · cases h
    next hcn =>
    refine ⟨current, hparse, not_not.mp hcn, ?_⟩
    split at h
    · next hactive => exact .inl hactive
    split at h
    · next hwindow => exact .inr hwindow
    split at h <;> cases h
  · rintro ⟨current, hparse, hcn, hor⟩
    refine ⟨current.notAfter, ?_⟩
    rw [hparse]
    dsimp only
    rw [if_neg (not_not.mpr hcn)]
    rcases hor with hactive | hwindow
    · rw [if_pos hactive]
    · rw [if_pos hwindow, ite_self]

theorem delayUntilDue_pos (hpoll : 0 < c.pollInterval) (h : c.NotDue parse issue now node) :
    0 < c.delayUntilDue parse now node := by
  obtain ⟨current, hparse, -, hor⟩ := notDue_iff.mp h
  unfold delayUntilDue
  rw [hparse]
  dsimp only
  split
  · exact hpoll
  next hinactive =>
  have hwindow := hor.resolve_left hinactive
  have hsub : 0 < timeSub (current.notAfter - c.renewBefore) now := by
    unfold timeSub
    have hpos : (0 : Int) < current.notAfter - c.renewBefore - now := by
      exact Int.sub_pos_of_lt (Int.lt_sub_right_of_add_lt hwindow)
    exact lt_max_of_lt_right (lt_min hpos (by decide))
  rw [if_neg (Int.not_lt.mpr (Int.le_of_lt hsub))]
  split
  · exact hpoll
  · exact hsub

theorem parse_due {x : X509} {hasCA : Bool} {update : CertUpdate} {overlapUntil : Time}
    (h : c.nextDueUpdate x.parse (caIssuer x hasCA now) now node =
      .ok (some update, overlapUntil)) :
    ∃ hosts,
      x.parse update.certPem = .ok (certTemplate now node.name hosts c.validFor).encoded := by
  unfold nextDueUpdate at h
  split at h
  · cases h
  next current hparse =>
  iterate 3
    split at h
    · cases h
  split at h
  · cases h
  next issued hissue =>
  cases h
  unfold caIssuer issueCertWithValidity at hissue
  split at hissue
  · cases hissue
  split at hissue
  · cases hissue
  next certPEM keyPEM hcreate =>
  split at hcreate
  · cases hcreate
  split at hissue
  · cases hissue
  cases hissue
  exact ⟨certHostsForNode node current, x.parse_create hcreate⟩

end

end CertLifecycle

open CertLifecycle

/-- **When a new certificate is due at once.** -/
theorem new_certificate_not_due_iff (x : X509) (hasCA : Bool) {cfg : CertLifecycleConfig}
    {c : CertLifecycle} {t overlapUntil : Time} {node : RegisteredNode} {update : CertUpdate}
    (hnew : newCertLifecycle (some (caIssuer x hasCA t)) cfg = .ok c)
    (hdue : c.nextDueUpdate x.parse (caIssuer x hasCA t) t node = .ok (some update, overlapUntil))
    (node' : RegisteredNode) (hname : node'.name = node.name)
    (hcert : node'.nodeCertPEM = update.certPem) (hpending : node'.pendingCertPEM = []) :
    (c.NotDue x.parse (caIssuer x hasCA t) t node' ∧
        ∀ other now, c.NotDue x.parse (caIssuer x hasCA now) now other →
          0 < c.delayUntilDue x.parse now other) ↔
      cfg.window + (t + cfg.validity) % 1000000000 < cfg.validity := by
  obtain ⟨hvalid, hrenew, hpoll⟩ := newCertLifecycle_ok hnew
  obtain ⟨hosts, hparse⟩ := parse_due hdue
  have hinactive : hasActivePendingCert node' t = false := by
    unfold hasActivePendingCert
    rw [if_pos hpending]
  have hnotDue : c.NotDue x.parse (caIssuer x hasCA t) t node' ↔
      t + cfg.window < wholeSeconds (t + cfg.validity) := by
    rw [notDue_iff, hcert, hparse, hinactive, hrenew]
    constructor
    · rintro ⟨current, hcurrent, -, hor⟩
      cases hcurrent
      rw [← hvalid]
      exact hor.resolve_left Bool.false_ne_true
    · intro hlt
      refine ⟨_, rfl, hname.symm, .inr ?_⟩
      rw [← hvalid] at hlt
      exact hlt
  rw [and_iff_left fun other now => delayUntilDue_pos hpoll, hnotDue]
  unfold wholeSeconds
  have harith : ∀ t r v f : Int, t + r < t + v - f ↔ r + f < v := by omega
  exact harith t cfg.window cfg.validity _

/-! ## A sample -/

def sampleX509 (validFor : Duration) : X509 where
  create tmpl :=
    if tmpl = certTemplate 1 "c" ["c", "10.0.0.2"] validFor then .ok ([2], [3])
    else .error "not this one"
  parse certPEM :=
    if certPEM = [2] then .ok (certTemplate 1 "c" ["c", "10.0.0.2"] validFor).encoded
    else sampleParse certPEM
  parse_create := by
    grind

def sampleCA (validFor : Duration) : CertIssuer := caIssuer (sampleX509 validFor) true 1

/-- With the default settings the replacement is not due. -/
theorem new_certificate_not_due_default :
    sampleLifecycle.NotDue (sampleX509 (90 * 24 * hour)).parse (sampleCA (90 * 24 * hour)) 1
      { sampleClient with nodeCertPEM := [2] } := by
  have hnew : newCertLifecycle (some (sampleCA (90 * 24 * hour))) {} = .ok sampleLifecycle := by
    decide
  have hdue : sampleLifecycle.nextDueUpdate (sampleX509 (90 * 24 * hour)).parse
      (sampleCA (90 * 24 * hour)) 1 sampleClient =
        .ok (some { certPem := [2], keyPem := [3], validFromUnix := -62135596860,
                    validUntilUnix := -62127820800 }, 10 * hour) := by
    decide
  exact ((new_certificate_not_due_iff (sampleX509 (90 * 24 * hour)) true hnew hdue
    { sampleClient with nodeCertPEM := [2] } rfl rfl rfl).mpr (by decide)).1

theorem week_certificate_due_at_once :
    ∃ c update overlapUntil,
      newCertLifecycle (some (sampleCA (7 * 24 * hour))) { rotationDays := 7 } = .ok c ∧
      c.nextDueUpdate (sampleX509 (7 * 24 * hour)).parse (sampleCA (7 * 24 * hour)) 1 sampleClient =
        .ok (some update, overlapUntil) ∧
      c.nextDueUpdate (sampleX509 (7 * 24 * hour)).parse (sampleCA (7 * 24 * hour)) 1
        { sampleClient with nodeCertPEM := update.certPem } =
          .ok (some update, 7 * 24 * hour) := by
  refine ⟨{ validFor := 7 * 24 * hour, renewBefore := 7 * 24 * hour, pollInterval := hour },
    { certPem := [2], keyPem := [3], validFromUnix := -62135596860,
      validUntilUnix := -62134992000 }, 10 * hour, by decide, by decide, by decide⟩

end AwgMesh.ControlPlane
