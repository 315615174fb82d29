import AwgMesh.Clock
import AwgMesh.Lib.Map
import AwgMesh.Strconv
import AwgMesh.Text
import AwgMesh.Lib.Machine
import AwgMesh.Lib.RoundRobin

/-!
# The balancer's configuration

`pkg/balancer/types.go`: egress targets, label mappings and their normalisation.
-/

namespace AwgMesh.Balancer

open Lib Net List

inductive Mode where
  | dumb
  | labeled
  | unknown (got : String)
  deriving DecidableEq

inductive LabelType where
  | dscp
  | fwmark
  | unknown (got : String)

def LabelType.text : LabelType → String
  | .dscp => "dscp"
  | .fwmark => "fwmark"
  | .unknown got => got

structure EgressTarget where
  id : String
  target : String
  weight : Int
  deriving DecidableEq

structure LabelMapping where
  type : LabelType
  value : Int
  egressID : String

structure Config where
  name : String
  overlayIP : String
  mode : Mode := .unknown ""
  egresses : List EgressTarget
  labels : List LabelMapping := []
  healthProbeInterval : Duration := 0
  flowIdleTimeout : Duration := 0
  metricsAddress : String := ""

def second : Duration := 1000000000

def defaultHealthProbeInterval : Duration := 5 * second

def defaultFlowIdleTimeout : Duration := 30 * second

def maxFWMarkValue : Int := 2 ^ 32 - 1

/-! ## Errors -/

inductive TargetError where
  | required
  | hostPort (target : String) (err : HostPortError)
  | host (host : String)
  | port (portText : String)

inductive EgressError where
  | idRequired
  | idSeparator (id : String)
  | target (err : TargetError)
  | weight (id : String)

inductive LabelError where
  | unsupported (type : LabelType)
  | notPositive (type : LabelType)
  | dscpRange (value : Int)
  | fwmarkRange (value : Int)
  | egressRequired (type : LabelType)

inductive ConfigError where
  | nameRequired
  | overlayRequired
  | overlayParse (overlay : String)
  | mode (mode : Mode)
  | noEgress
  | egress (i : Nat) (err : EgressError)
  | egressDup (id : String)
  | label (i : Nat) (err : LabelError)
  | labelUnknown (label : LabelMapping)
  | labelDup (label : LabelMapping)

/-! ## Egress targets -/

def validateTarget (target : String) : Except TargetError Unit :=
  if target = "" then .error .required
  else match splitHostPort target.toList with
    | .error err => .error (.hostPort target err)
    | .ok (host, portText) =>
      if (parseAddr (String.ofList host)).isNone then .error (.host (String.ofList host))
      else match atoi portText with
        | none => .error (.port (String.ofList portText))
        | some port =>
          if port < 1 ∨ port > 65535 then .error (.port (String.ofList portText)) else .ok ()

def isSeparator (c : Char) : Bool :=
  c = ' ' || c = '\t' || c = '\r' || c = '\n' || c = '=' || c = ','

def normalizeEgressTarget (egress : EgressTarget) : Except EgressError EgressTarget :=
  let id := trimSpace egress.id
  if id = "" then .error .idRequired
  else if id.toList.any isSeparator then .error (.idSeparator id)
  else
    let target := trimSpace egress.target
    match validateTarget target with
    | .error err => .error (.target err)
    | .ok () =>
      if egress.weight ≤ 0 then .error (.weight id)
      else .ok { id := id, target := target, weight := egress.weight }

theorem normalizeEgressTarget_weight {egress next : EgressTarget}
    (h : normalizeEgressTarget egress = .ok next) : 0 < next.weight := by
  unfold normalizeEgressTarget at h
  dsimp only at h
  split at h
  · cases h
  split at h
  · cases h
  split at h
  · cases h
  split at h
  · cases h
  next hweight =>
  cases h
  exact not_le.mp hweight

structure Indexed where
  egresses : List EgressTarget
  byID : OMap String EgressTarget
  byID_iff : ∀ {id : String} {egress : EgressTarget},
    byID[id]? = some egress ↔ egress ∈ egresses ∧ egress.id = id
  weight_pos : ∀ egress ∈ egresses, 0 < egress.weight

namespace Indexed

def empty : Indexed where
  egresses := []
  byID := ∅
  byID_iff := by simp
  weight_pos := by simp

def push (x : Indexed) (next : EgressTarget) (hfresh : x.byID[next.id]? = none)
    (hweight : 0 < next.weight) : Indexed where
  egresses := x.egresses ++ [next]
  byID := x.byID.insert next.id next
  byID_iff := by
    grind [byID_iff]
  weight_pos := by
    intro egress hmem
    rcases mem_append.mp hmem with hmem | hmem
    · exact x.weight_pos egress hmem
    · rw [mem_singleton] at hmem
      exact hmem ▸ hweight

end Indexed

def normalizeEgressesFrom : List EgressTarget → (i : Nat) → Indexed → Except ConfigError Indexed
  | [], _, acc => .ok acc
  | egress :: rest, i, acc =>
    match hnext : normalizeEgressTarget egress with
    | .error err => .error (.egress i err)
    | .ok next =>
      match hfresh : acc.byID[next.id]? with
      | some _ => .error (.egressDup next.id)
      | none =>
        normalizeEgressesFrom rest (i + 1)
          (acc.push next hfresh (normalizeEgressTarget_weight hnext))

def normalizeEgresses (egresses : List EgressTarget) : Except ConfigError Indexed :=
  if egresses = [] then .error .noEgress else normalizeEgressesFrom egresses 0 Indexed.empty

/-! ## Label mappings -/

def labelKey (type : LabelType) (value : Int) : String := type.text ++ ":" ++ itoa value

def normalizeLabelMapping (label : LabelMapping) : Except LabelError LabelMapping :=
  let checked : Except LabelError Unit :=
    match label.type with
    | .unknown got => .error (.unsupported (.unknown got))
    | .dscp =>
      if label.value ≤ 0 then .error (.notPositive .dscp)
      else if label.value > 63 then .error (.dscpRange label.value)
      else .ok ()
    | .fwmark =>
      if label.value ≤ 0 then .error (.notPositive .fwmark)
      else if label.value > maxFWMarkValue then .error (.fwmarkRange label.value)
      else .ok ()
  match checked with
  | .error err => .error err
  | .ok () =>
    let egressID := trimSpace label.egressID
    if egressID = "" then .error (.egressRequired label.type)
    else .ok { label with egressID := egressID }

def normalizeLabelsFrom (byID : OMap String EgressTarget) : List LabelMapping → (i : Nat) →
    (seen : List String) → Except ConfigError (List LabelMapping)
  | [], _, _ => .ok []
  | label :: rest, i, seen =>
    match normalizeLabelMapping label with
    | .error err => .error (.label i err)
    | .ok next =>
      if byID[next.egressID]?.isNone then .error (.labelUnknown next)
      else if labelKey next.type next.value ∈ seen then .error (.labelDup next)
      else
        match normalizeLabelsFrom byID rest (i + 1) (labelKey next.type next.value :: seen) with
        | .error err => .error err
        | .ok labels => .ok (next :: labels)

def normalizeLabels (labels : List LabelMapping) (byID : OMap String EgressTarget) :
    Except ConfigError (List LabelMapping) := normalizeLabelsFrom byID labels 0 []

/-! ## The configuration -/

def validateMode : Mode → Except ConfigError Unit
  | .unknown got => .error (.mode (.unknown got))
  | _ => .ok ()

def normalizeConfig (cfg : Config) : Except ConfigError Config := do
  let name := trimSpace cfg.name
  if name = "" then throw .nameRequired
  let overlay := trimSpace cfg.overlayIP
  if overlay = "" then throw .overlayRequired
  if (parseAddr overlay).isNone then throw (.overlayParse overlay)
  let mode := if cfg.mode = .unknown "" then .dumb else cfg.mode
  validateMode mode
  let indexed ← normalizeEgresses cfg.egresses
  let labels ← normalizeLabels cfg.labels indexed.byID
  let healthInterval :=
    if cfg.healthProbeInterval ≤ 0 then defaultHealthProbeInterval else cfg.healthProbeInterval
  let flowIdle := if cfg.flowIdleTimeout ≤ 0 then defaultFlowIdleTimeout else cfg.flowIdleTimeout
  return {
    name := name
    overlayIP := overlay
    mode := mode
    egresses := indexed.egresses
    labels := labels
    healthProbeInterval := healthInterval
    flowIdleTimeout := flowIdle
    metricsAddress := trimSpace cfg.metricsAddress }

/-!
## The selection engine

`pkg/balancer/selector.go` with the registry (`registry.go`) and the health tracker (`health.go`) it
consults.
-/

/-! ## Snapshots of the registry -/

structure Snapshot extends Indexed where
  weighted : List EgressTarget
  mem_weighted : ∀ {egress : EgressTarget}, egress ∈ weighted ↔ egress ∈ egresses

def expandWeights (egresses : List EgressTarget) : List EgressTarget :=
  egresses.flatMap fun egress => replicate egress.weight.toNat egress

theorem Indexed.mem_expandWeights (x : Indexed) {egress : EgressTarget} :
    egress ∈ expandWeights x.egresses ↔ egress ∈ x.egresses := by
  unfold expandWeights
  rw [mem_flatMap]
  constructor
  · rintro ⟨e, he, hmem⟩
    rw [(mem_replicate.mp hmem).2]
    exact he
  · intro h
    have hpos := x.weight_pos egress h
    exact ⟨egress, h, mem_replicate.mpr ⟨by omega, rfl⟩⟩

def newSnapshot (egresses : List EgressTarget) : Except ConfigError Snapshot :=
  match normalizeEgresses egresses with
  | .error err => .error err
  | .ok indexed =>
    .ok { indexed with
      weighted := expandWeights indexed.egresses
      mem_weighted := indexed.mem_expandWeights }

def Snapshot.lookup (s : Snapshot) (id : String) : Option EgressTarget := s.byID[id]?

theorem Snapshot.lookup_eq_some {s : Snapshot} {id : String} {egress : EgressTarget} :
    s.lookup id = some egress ↔ egress ∈ s.egresses ∧ egress.id = id := s.byID_iff

/-! ## The engine's state -/

structure FlowKey where
  source : String := ""
  destination : String := ""
  protocol : String := ""
  sourcePort : Int := 0
  destinationPort : Int := 0
  deriving DecidableEq

def FlowKey.string (k : FlowKey) : String :=
  "|".intercalate [trimSpace k.source, trimSpace k.destination, trimSpace k.protocol,
    itoa k.sourcePort, itoa k.destinationPort]

def FlowKey.empty (k : FlowKey) : Bool :=
  trimSpace k.source = "" && trimSpace k.destination = "" && trimSpace k.protocol = "" &&
    k.sourcePort = 0 && k.destinationPort = 0

structure DecisionRequest where
  flowKey : FlowKey := {}
  dscp : Int := 0
  fwmark : Int := 0

inductive FallbackReason where
  | none
  | missing
  | unhealthy

structure Decision where
  egress : EgressTarget
  mode : Mode
  flowKey : FlowKey
  sticky : Bool
  fallbackReason : FallbackReason
  expiresAt : Time

structure FlowEntry where
  egressID : String
  expiresAt : Time

structure TargetHealth where
  healthy : Bool
  lastError : String
  checkedAt : Time

inductive SelectError where
  | noWeighted
  | noHealthy

structure Engine where
  cfg : Config
  registry : Snapshot
  health : OMap String TargetHealth := ∅
  labelMap : OMap String String
  flowIdle : Duration
  rrCursor : Nat := 0
  flowEntries : OMap String FlowEntry := ∅

def newEngine (cfg : Config) : Except ConfigError Engine :=
  match normalizeConfig cfg with
  | .error err => .error err
  | .ok normalized =>
    match newSnapshot normalized.egresses with
    | .error err => .error err
    | .ok snapshot =>
      .ok {
        cfg := normalized
        registry := snapshot
        labelMap := normalized.labels.foldl (fun labelMap label =>
          labelMap.insert (labelKey label.type label.value) label.egressID) ∅
        flowIdle := normalized.flowIdleTimeout }

namespace Engine

def isHealthy (e : Engine) (egress : EgressTarget) : Bool :=
  match e.health[egress.id]? with
  | none => true
  | some status => status.healthy

def setHealth (e : Engine) (egressID : String) (healthy : Bool) (checkedAt : Time)
    (lastError : String) : Engine :=
  { e with health := e.health.insert egressID ⟨healthy, lastError, checkedAt⟩ }

def replace (e : Engine) (egresses : List EgressTarget) : Engine :=
  match newSnapshot egresses with
  | .error _ => e
  | .ok snapshot => { e with registry := snapshot }

/-! ## Selecting -/

def expireFlows (e : Engine) (now : Time) : Engine :=
  { e with flowEntries := e.flowEntries.prune fun _ entry => !(now < entry.expiresAt) }

def mappedEgress (e : Engine) (req : DecisionRequest) : Option String :=
  let byDSCP := if req.dscp > 0 then e.labelMap[labelKey .dscp req.dscp]? else none
  let byFWMark := if req.fwmark > 0 then e.labelMap[labelKey .fwmark req.fwmark]? else none
  byDSCP.or byFWMark

/-- The cursor is unbounded here; `nextHealthyDumb_eq_lookLoop` is about the one that wraps. -/
def nextHealthyDumb (e : Engine) : Engine × Except SelectError EgressTarget :=
  let weighted := e.registry.weighted
  if weighted = [] then (e, .error .noWeighted)
  else
    let (cursor, found) := RoundRobin.scan e.isHealthy weighted weighted.length e.rrCursor
    match found with
    | some candidate => ({ e with rrCursor := cursor }, .ok candidate)
    | none => ({ e with rrCursor := cursor }, .error .noHealthy)

def recordDecision (e : Engine) (req : DecisionRequest) (egress : EgressTarget)
    (reason : FallbackReason) (sticky : Bool) (now : Time) (flowID : String) : Engine × Decision :=
  let expiresAt := now + e.flowIdle
  let entries :=
    if flowID ≠ "" then e.flowEntries.insert flowID ⟨egress.id, expiresAt⟩ else e.flowEntries
  ({ e with flowEntries := entries },
    { egress := egress
      mode := e.cfg.mode
      flowKey := req.flowKey
      sticky := sticky
      fallbackReason := reason
      expiresAt := expiresAt })

/-- The end of `Select`: the weighted choice. -/
def selectDumb (e : Engine) (req : DecisionRequest) (now : Time) (flowID : String)
    (reason : FallbackReason) : Engine × Except SelectError Decision :=
  match e.nextHealthyDumb with
  | (e, .error err) => (e, .error err)
  | (e, .ok egress) =>
    let (e, decision) := e.recordDecision req egress reason false now flowID
    (e, .ok decision)

def selectFresh (e : Engine) (req : DecisionRequest) (now : Time) (flowID : String) :
    Engine × Except SelectError Decision :=
  if e.cfg.mode = .labeled then
    match e.mappedEgress req with
    | none => e.selectDumb req now flowID .none
    | some mapped =>
      match e.registry.lookup mapped with
      | none => e.selectDumb req now flowID .missing
      | some egress =>
        if e.isHealthy egress then
          let (e, decision) := e.recordDecision req egress .none false now flowID
          (e, .ok decision)
        else e.selectDumb req now flowID .unhealthy
  else e.selectDumb req now flowID .none

def effective (now clock : Time) : Time := if now.isZero then clock else now

def select (e : Engine) (req : DecisionRequest) (now clock : Time) :
    Engine × Except SelectError Decision :=
  let now := effective now clock
  let e := e.expireFlows now
  if req.flowKey.empty then e.selectFresh req now ""
  else
    let flowID := req.flowKey.string
    match e.flowEntries[flowID]? with
    | none => e.selectFresh req now flowID
    | some entry =>
      if now < entry.expiresAt then
        match (e.registry.lookup entry.egressID).filter e.isHealthy with
        | some egress =>
          let (e, decision) := e.recordDecision req egress .none true now flowID
          (e, .ok decision)
        | none =>
          { e with flowEntries := e.flowEntries.erase flowID }.selectFresh req now flowID
      else e.selectFresh req now flowID

/-! ## What a selection comes to -/

def stickyEgress (e : Engine) (key : FlowKey) (now : Time) : Option EgressTarget :=
  if key.empty then none
  else match e.flowEntries[key.string]? with
    | none => none
    | some entry =>
      if now < entry.expiresAt then (e.registry.lookup entry.egressID).filter e.isHealthy
      else none

def pinnedEgress (e : Engine) (req : DecisionRequest) : Option EgressTarget :=
  if e.cfg.mode = .labeled then
    ((e.mappedEgress req).bind e.registry.lookup).filter e.isHealthy
  else none

def others (e : Engine) (key : FlowKey) (now : Time) : OMap String FlowEntry :=
  let live := (e.expireFlows now).flowEntries
  if key.empty then live else live.erase key.string

def recorded (e : Engine) (key : FlowKey) (now : Time) (egress : EgressTarget) :
    OMap String FlowEntry :=
  let live := (e.expireFlows now).flowEntries
  if key.empty then live else live.insert key.string ⟨egress.id, now + e.flowIdle⟩

def moved (e : Engine) (cursor : Nat) (entries : OMap String FlowEntry) : Engine :=
  { e with rrCursor := cursor, flowEntries := entries }

inductive Outcome (e : Engine) (req : DecisionRequest) (now : Time) :
    Engine × Except SelectError Decision → Prop where
  | sticky {egress : EgressTarget} {d : Decision}
      (hsticky : e.stickyEgress req.flowKey now = some egress) (hd : d.egress = egress) :
      Outcome e req now (e.moved e.rrCursor (e.recorded req.flowKey now egress), .ok d)
  | pinned {egress : EgressTarget} {d : Decision}
      (hsticky : e.stickyEgress req.flowKey now = none)
      (hpinned : e.pinnedEgress req = some egress) (hd : d.egress = egress) :
      Outcome e req now (e.moved e.rrCursor (e.recorded req.flowKey now egress), .ok d)
  | dumb {egress : EgressTarget} {d : Decision} (cursor : Nat)
      (hsticky : e.stickyEgress req.flowKey now = none) (hpinned : e.pinnedEgress req = none)
      (hscan : RoundRobin.scan e.isHealthy e.registry.weighted e.registry.weighted.length
        e.rrCursor = (cursor, some egress)) (hd : d.egress = egress) :
      Outcome e req now (e.moved cursor (e.recorded req.flowKey now egress), .ok d)
  | failed {err : SelectError} (cursor : Nat)
      (hsticky : e.stickyEgress req.flowKey now = none) (hpinned : e.pinnedEgress req = none)
      (hscan : ∀ egress ∈ e.registry.weighted, e.isHealthy egress = false) :
      Outcome e req now (e.moved cursor (e.others req.flowKey now), .error err)

end Engine

theorem FlowKey.string_ne_empty (k : FlowKey) : k.string ≠ "" := by
  intro h
  have hlist := congrArg String.toList h
  unfold FlowKey.string at hlist
  rw [String.toList_intercalate] at hlist
  simp [intercalate_cons_cons] at hlist

namespace Engine

variable {e : Engine} {req : DecisionRequest} {now clock : Time} {egress : EgressTarget}

/-! ### What a move leaves as it is -/

section Moved

variable (e) (cursor : Nat) (entries : OMap String FlowEntry)

@[simp] theorem cfg_moved : (e.moved cursor entries).cfg = e.cfg := rfl

@[simp] theorem registry_moved : (e.moved cursor entries).registry = e.registry := rfl

@[simp] theorem rrCursor_moved : (e.moved cursor entries).rrCursor = cursor := rfl

@[simp] theorem flowIdle_moved : (e.moved cursor entries).flowIdle = e.flowIdle := rfl

@[simp] theorem flowEntries_moved : (e.moved cursor entries).flowEntries = entries := rfl

@[simp] theorem isHealthy_moved : (e.moved cursor entries).isHealthy = e.isHealthy := rfl

@[simp] theorem mappedEgress_moved : (e.moved cursor entries).mappedEgress = e.mappedEgress := rfl

@[simp] theorem moved_moved (cursor' : Nat) (entries' : OMap String FlowEntry) :
    (e.moved cursor entries).moved cursor' entries' = e.moved cursor' entries' := rfl

end Moved

/-! ### From the code to its outcomes -/

def flowID (key : FlowKey) : String := if key.empty then "" else key.string

theorem getElem?_expireFlows (id : String) :
    (e.expireFlows now).flowEntries[id]? =
      e.flowEntries[id]?.filter fun entry => now < entry.expiresAt := by
  unfold expireFlows
  rw [OMap.getElem?_prune]
  simp

theorem recordDecision_others (e : Engine) (req : DecisionRequest) (now : Time) (cursor : Nat)
    (reason : FallbackReason) (sticky : Bool) (egress : EgressTarget) :
    ∃ d, d.egress = egress ∧
      (e.moved cursor (e.others req.flowKey now)).recordDecision req egress reason sticky now
        (flowID req.flowKey) = (e.moved cursor (e.recorded req.flowKey now egress), d) := by
  refine ⟨{
    egress := egress, mode := e.cfg.mode, flowKey := req.flowKey, sticky := sticky,
    fallbackReason := reason, expiresAt := now + e.flowIdle }, rfl, ?_⟩
  unfold recordDecision others recorded flowID
  cases req.flowKey.empty with
  | true => simp [moved]
  | false => simp [req.flowKey.string_ne_empty, OMap.insert_erase_self, moved]

theorem select_of_sticky (h : e.stickyEgress req.flowKey (effective now clock) = some egress) :
    ∃ d, d.egress = egress ∧ e.select req now clock =
      (e.moved e.rrCursor (e.recorded req.flowKey (effective now clock) egress), .ok d) := by
  unfold stickyEgress at h
  split at h
  · cases h
  next hkey =>
  split at h
  · cases h
  next entry hentry =>
  split at h
  · next hlive =>
      have hget : (e.expireFlows (effective now clock)).flowEntries[req.flowKey.string]? =
          some entry := by
        rw [getElem?_expireFlows, hentry]
        simpa using hlive
      have hfound : ((e.expireFlows (effective now clock)).registry.lookup entry.egressID).filter
          (e.expireFlows (effective now clock)).isHealthy = some egress := h
      unfold select
      dsimp only
      rw [if_neg hkey, hget]
      dsimp only
      rw [if_pos hlive, hfound]
      refine ⟨((e.expireFlows (effective now clock)).recordDecision req egress .none true
        (effective now clock) req.flowKey.string).2, rfl, ?_⟩
      simp [recordDecision, recorded, hkey, req.flowKey.string_ne_empty, expireFlows, moved]
  · cases h

theorem select_of_not_sticky
    (h : e.stickyEgress req.flowKey (effective now clock) = none) :
    e.select req now clock =
      (e.moved e.rrCursor (e.others req.flowKey (effective now clock))).selectFresh req
        (effective now clock) (flowID req.flowKey) := by
  unfold select flowID others
  dsimp only
  unfold stickyEgress at h
  split
  · rfl
  next hkey =>
  rw [if_neg hkey] at h
  split
  · next hnone =>
      rw [OMap.erase_eq_self hnone]
      rfl
  · next entry hentry =>
      rw [getElem?_expireFlows, Option.filter_eq_some_iff] at hentry
      obtain ⟨hget, hlive⟩ := hentry
      rw [hget] at h
      dsimp only at h
      rw [if_pos (by simpa using hlive)] at h ⊢
      have hgone : ((e.expireFlows (effective now clock)).registry.lookup entry.egressID).filter
          (e.expireFlows (effective now clock)).isHealthy = none := h
      rw [hgone]
      rfl

theorem nextHealthyDumb_cases (e : Engine) :
    (∃ cursor err, e.nextHealthyDumb = (e.moved cursor e.flowEntries, .error err) ∧
      ∀ egress ∈ e.registry.weighted, e.isHealthy egress = false) ∨
    ∃ cursor egress, e.nextHealthyDumb = (e.moved cursor e.flowEntries, .ok egress) ∧
      RoundRobin.scan e.isHealthy e.registry.weighted e.registry.weighted.length e.rrCursor =
        (cursor, some egress) := by
  unfold nextHealthyDumb
  dsimp only
  split
  · next hnil => exact .inl ⟨e.rrCursor, .noWeighted, rfl, by simp [hnil]⟩
  next hne =>
  split
  · next egress hfound => exact .inr ⟨_, egress, rfl, Prod.ext rfl hfound⟩
  · next hfound =>
      exact .inl ⟨_, .noHealthy, rfl, (RoundRobin.scan_length_eq_none hne).mp hfound⟩

theorem selectDumb_outcome (reason : FallbackReason)
    (hsticky : e.stickyEgress req.flowKey now = none) (hpinned : e.pinnedEgress req = none) :
    Outcome e req now ((e.moved e.rrCursor (e.others req.flowKey now)).selectDumb req now
      (flowID req.flowKey) reason) := by
  unfold selectDumb
  rcases nextHealthyDumb_cases (e.moved e.rrCursor (e.others req.flowKey now)) with
    ⟨cursor, err, hnext, hnone⟩ | ⟨cursor, egress, hnext, hscan⟩
  · rw [hnext, flowEntries_moved, moved_moved]
    rw [registry_moved, isHealthy_moved] at hnone
    exact .failed cursor hsticky hpinned hnone
  · obtain ⟨d, hd, hrec⟩ := recordDecision_others e req now cursor reason false egress
    rw [registry_moved, isHealthy_moved, rrCursor_moved] at hscan
    rw [hnext]
    dsimp only
    rw [flowEntries_moved, moved_moved, hrec]
    exact .dumb cursor hsticky hpinned hscan hd

theorem selectFresh_outcome (hsticky : e.stickyEgress req.flowKey now = none) :
    Outcome e req now ((e.moved e.rrCursor (e.others req.flowKey now)).selectFresh req now
      (flowID req.flowKey)) := by
  rw [selectFresh, cfg_moved, registry_moved, isHealthy_moved, mappedEgress_moved]
  by_cases hmode : e.cfg.mode = .labeled
  · rw [if_pos hmode]
    split
    · next hmapped => exact selectDumb_outcome _ hsticky (by simp [pinnedEgress, hmapped])
    next mapped hmapped =>
    split
    · next hlookup =>
        exact selectDumb_outcome _ hsticky (by simp [pinnedEgress, hmapped, hlookup])
    next egress hlookup =>
    split
    · next hhealthy =>
        obtain ⟨d, hd, hrec⟩ := recordDecision_others e req now e.rrCursor .none false egress
        rw [hrec]
        exact .pinned hsticky (by simp [pinnedEgress, hmode, hmapped, hlookup, hhealthy]) hd
    · next hhealthy =>
        exact selectDumb_outcome _ hsticky (by simp [pinnedEgress, hmapped, hlookup, hhealthy])
  · rw [if_neg hmode]
    exact selectDumb_outcome _ hsticky (by simp [pinnedEgress, hmode])

theorem select_outcome (e : Engine) (req : DecisionRequest) (now clock : Time) :
    Outcome e req (effective now clock) (e.select req now clock) := by
  cases hsticky : e.stickyEgress req.flowKey (effective now clock) with
  | some egress =>
    obtain ⟨d, hd, hselect⟩ := select_of_sticky hsticky
    rw [hselect]
    exact .sticky hsticky hd
  | none =>
    rw [select_of_not_sticky hsticky]
    exact selectFresh_outcome hsticky

end Engine

/-! ## Runs of the balancer -/

inductive Op where
  | select (req : DecisionRequest) (now clock : Time)
  | setHealth (egressID : String) (healthy : Bool) (checkedAt : Time) (lastError : String)
  | replace (egresses : List EgressTarget)

def Engine.perform (e : Engine) : Op → Engine
  | .select req now clock => (e.select req now clock).1
  | .setHealth egressID healthy checkedAt lastError =>
    e.setHealth egressID healthy checkedAt lastError
  | .replace egresses => e.replace egresses

def balancer (e₀ : Engine) : Machine Engine Op where
  init := e₀
  step e op := some (e.perform op)

open Engine

def Op.time? : Op → Option Time
  | .select _ now clock => some (effective now clock)
  | _ => none

def TimesAscend (ops : List Op) : Prop := (ops.filterMap Op.time?).IsChain (· ≤ ·)

namespace Engine

variable {e : Engine} {req : DecisionRequest} {now clock : Time} {egress : EgressTarget}

def Usable (e : Engine) (egress : EgressTarget) : Prop :=
  egress ∈ e.registry.egresses ∧ e.isHealthy egress = true

theorem lookup_filter_usable {id : String}
    (h : (e.registry.lookup id).filter e.isHealthy = some egress) : e.Usable egress := by
  obtain ⟨hlookup, hhealthy⟩ := Option.filter_eq_some_iff.mp h
  exact ⟨(Snapshot.lookup_eq_some.mp hlookup).1, hhealthy⟩

theorem stickyEgress_usable {key : FlowKey} (h : e.stickyEgress key now = some egress) :
    e.Usable egress := by
  unfold stickyEgress at h
  split at h
  · cases h
  split at h
  · cases h
  split at h
  · exact lookup_filter_usable h
  · cases h

theorem pinnedEgress_usable (h : e.pinnedEgress req = some egress) : e.Usable egress := by
  unfold pinnedEgress at h
  split at h
  · obtain ⟨hbind, hhealthy⟩ := Option.filter_eq_some_iff.mp h
    obtain ⟨mapped, -, hlookup⟩ := Option.bind_eq_some_iff.mp hbind
    exact ⟨(Snapshot.lookup_eq_some.mp hlookup).1, hhealthy⟩
  · cases h

theorem Outcome.usable {t : Engine} {d : Decision} (h : Outcome e req now (t, .ok d)) :
    e.Usable d.egress := by
  cases h with
  | sticky hsticky hd => exact hd ▸ stickyEgress_usable hsticky
  | pinned hsticky hpinned hd => exact hd ▸ pinnedEgress_usable hpinned
  | dumb cursor hsticky hpinned hscan hd =>
    obtain ⟨hmem, hhealthy⟩ := RoundRobin.scan_eq_some (congrArg Prod.snd hscan)
    exact hd ▸ ⟨e.registry.mem_weighted.mp hmem, hhealthy⟩

theorem Outcome.none_healthy {t : Engine} {err : SelectError}
    (h : Outcome e req now (t, .error err)) :
    ∀ egress ∈ e.registry.egresses, e.isHealthy egress = false := by
  cases h with
  | failed cursor hsticky hpinned hscan =>
    intro egress hmem
    exact hscan egress (e.registry.mem_weighted.mpr hmem)

theorem usable_of_select {d : Decision} (h : (e.select req now clock).2 = .ok d) :
    e.Usable d.egress := by
  have hout := e.select_outcome req now clock
  generalize e.select req now clock = out at hout h
  obtain ⟨t, result⟩ := out
  cases h
  exact hout.usable

end Engine

/-! ## Safety -/

/-- A selection returns a healthy egress, and fails exactly if there is none. -/
def SelectSafe (e : Engine) (op : Op) : Prop :=
  ∀ req now clock, op = .select req now clock → (∀ d, (e.select req now clock).2 = .ok d →
      d.egress ∈ e.registry.egresses ∧ e.isHealthy d.egress = true) ∧
    ((∃ err, (e.select req now clock).2 = .error err) ↔
      ∀ egress ∈ e.registry.egresses, e.isHealthy egress = false)

/-- **Balancer safety**: every selection of every run is safe. -/
theorem selections_safe (e₀ : Engine) (ops : List Op) : (balancer e₀).Along SelectSafe e₀ ops := by
  refine Machine.along_of_forall ?_ e₀
  intro op _ e req now clock _
  refine ⟨fun d => usable_of_select, ?_, ?_⟩
  · rintro ⟨err, herr⟩
    have hout := e.select_outcome req now clock
    generalize e.select req now clock = out at hout herr
    obtain ⟨t, result⟩ := out
    cases herr
    exact hout.none_healthy
  · intro hnone
    cases hres : (e.select req now clock).2 with
    | error err => exact ⟨err, rfl⟩
    | ok d =>
      obtain ⟨hmem, hhealthy⟩ := usable_of_select hres
      rw [hnone d.egress hmem] at hhealthy
      cases hhealthy

/-! ## Reports -/

def Op.report? (id : String) : Op → Option Bool
  | .setHealth egressID healthy _ _ => if egressID = id then some healthy else none
  | _ => none

namespace Engine

/-- The last report on an egress, or what `e` knows of it. -/
def latest (e : Engine) (ops : List Op) (egress : EgressTarget) : Bool :=
  (ops.filterMap (Op.report? egress.id)).getLast?.getD (e.isHealthy egress)

theorem isHealthy_perform (e : Engine) (op : Op) :
    (e.perform op).isHealthy egress = (op.report? egress.id).getD (e.isHealthy egress) := by
  cases op with
  | select req now clock =>
    have hout := e.select_outcome req now clock
    rw [perform]
    generalize e.select req now clock = out at hout
    cases hout <;> rfl
  | setHealth egressID healthy checkedAt lastError =>
    rw [perform, isHealthy, setHealth, OMap.getElem?_insert, Op.report?]
    by_cases hid : egressID = egress.id
    · rw [if_pos hid, if_pos hid]
      rfl
    · rw [if_neg hid, if_neg hid]
      rfl
  | replace egresses =>
    rw [perform, replace]
    cases newSnapshot egresses <;> rfl

theorem isHealthy_foldl (e : Engine) (ops : List Op) :
    (ops.foldl perform e).isHealthy egress = e.latest ops egress := by
  induction ops generalizing e with
  | nil => rfl
  | cons op ops ih =>
    rw [foldl_cons, ih, latest, latest, filterMap_cons, isHealthy_perform]
    cases op.report? egress.id <;> simp [getLast?_cons]

end Engine

/-- **The latest reports decide**: after any run, a selection returns a registered egress that was
last reported healthy, or fails because none was. -/
theorem latest_reports_decide (e : Engine) (ops : List Op) (req : DecisionRequest)
    (now clock : Time) : match ((ops.foldl perform e).select req now clock).2 with
    | .ok d => d.egress ∈ (ops.foldl perform e).registry.egresses ∧
        e.latest ops d.egress = true
    | .error _ => ∀ egress ∈ (ops.foldl perform e).registry.egresses,
        e.latest ops egress = false := by
  have hout := (ops.foldl perform e).select_outcome req now clock
  simp only [← e.isHealthy_foldl ops]
  generalize (ops.foldl perform e).select req now clock = out at hout
  obtain ⟨t, res⟩ := out
  cases res with
  | ok d => exact hout.usable
  | error err => exact hout.none_healthy

/-! ## Labels -/

/-- A label leads to the egress of the live flow, or else to the one it is mapped to. -/
def SelectPinned (e : Engine) (op : Op) : Prop :=
  ∀ req now clock, op = .select req now clock → e.cfg.mode = .labeled →
    ∀ mapped egress, e.mappedEgress req = some mapped → e.registry.lookup mapped = some egress →
      e.isHealthy egress = true → ∃ d, (e.select req now clock).2 = .ok d ∧
          d.egress = (e.stickyEgress req.flowKey (effective now clock)).getD egress

/-- **Label pinning**, with the sticky table in front of it. -/
theorem labelled_selections (e₀ : Engine) (ops : List Op) :
    (balancer e₀).Along SelectPinned e₀ ops := by
  refine Machine.along_of_forall ?_ e₀
  rintro op - e req now clock - hmode mapped egress hmapped hlookup hhealthy
  have hpinned : e.pinnedEgress req = some egress := by
    simp [pinnedEgress, hmode, hmapped, hlookup, hhealthy]
  have hout := e.select_outcome req now clock
  generalize e.select req now clock = out at hout
  cases hout with
  | @sticky x d hsticky hd => exact ⟨d, rfl, by rw [hsticky, hd]; rfl⟩
  | @pinned x d hsticky hpin hd =>
    rw [hpinned] at hpin
    cases hpin
    exact ⟨d, rfl, by rw [hsticky, hd]; rfl⟩
  | dumb cursor hsticky hpin => rw [hpinned] at hpin; cases hpin
  | failed cursor hsticky hpin => rw [hpinned] at hpin; cases hpin

theorem eq_ok_of_toOption {ε α : Type} {x : Except ε α} {a : α} (h : x.toOption = some a) :
    x = .ok a := by
  cases x with
  | error err => cases h
  | ok b => rw [Option.some.inj h]

def twoEgresses (mode : Mode) : Config where
  name := "master-01"
  overlayIP := "172.21.92.1"
  mode := mode
  egresses := [⟨"egress-ru", "172.21.92.10:51821", 1⟩, ⟨"egress-eu", "172.21.92.11:51821", 1⟩]
  labels := [⟨.dscp, 10, "egress-ru"⟩]

def labelledFlow : DecisionRequest where
  flowKey := { source := "client", destination := "ru", protocol := "tcp" }
  dscp := 10

/-- **A recovered target does not get its flow back**. -/
theorem labelled_selection_sticks :
    ∃ cfg e₀ ops e req now clock mapped egress d,
      newEngine cfg = .ok e₀ ∧ (balancer e₀).exec e₀ ops = some e ∧
      TimesAscend (ops ++ [.select req now clock]) ∧ e.cfg.mode = .labeled ∧
      e.mappedEgress req = some mapped ∧ e.registry.lookup mapped = some egress ∧
      e.isHealthy egress = true ∧ (e.select req now clock).2 = .ok d ∧ d.egress ≠ egress := by
  let ops : List Op := [.setHealth "egress-ru" false 1 "probe failed",
    .select labelledFlow 2 2, .setHealth "egress-ru" true 3 ""]
  let ru : EgressTarget := ⟨"egress-ru", "172.21.92.10:51821", 1⟩
  have hrun : ((newEngine (twoEgresses .labeled)).toOption.bind fun e₀ =>
      ((balancer e₀).exec e₀ ops).map fun e =>
        (e.cfg.mode, e.mappedEgress labelledFlow, e.registry.lookup "egress-ru", e.isHealthy ru,
          (e.select labelledFlow 4 4).2.toOption.map fun d => d.egress.id)) =
      some (.labeled, some "egress-ru", some ru, true, some "egress-eu") := by decide
  obtain ⟨e₀, hnew, hexec⟩ := Option.bind_eq_some_iff.mp hrun
  obtain ⟨e, he, heq⟩ := Option.map_eq_some_iff.mp hexec
  obtain ⟨hmode, hmapped, hlookup, hhealthy, hselect⟩ :
      _ ∧ _ ∧ _ ∧ _ ∧ _ := by simpa only [Prod.mk.injEq] using heq
  obtain ⟨d, hd, hid⟩ := Option.map_eq_some_iff.mp hselect
  refine ⟨_, e₀, ops, e, labelledFlow, 4, 4, "egress-ru", ru, d, eq_ok_of_toOption hnew, he, ?_,
    hmode, hmapped, hlookup, hhealthy, eq_ok_of_toOption hd, ?_⟩
  · show IsChain (· ≤ ·) [2, 4]
    simp
  · intro hru
    rw [hru] at hid
    revert hid
    decide

end AwgMesh.Balancer
