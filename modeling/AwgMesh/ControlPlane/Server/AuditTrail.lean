import AwgMesh.Format
import AwgMesh.ControlPlane.Server.Runs

/-!
# The audit file

`Daemon.flushAudit` of `pkg/control_plane/daemon.go` appends the events of the audit log to
`audit.log`: a line for each, with tabs between its time, its type, the name of its node and its
detail.
-/

namespace AwgMesh.ControlPlane

open Lib AuditEvent Handler AuditLog List Registry

def OneLine (text : String) : Prop := '\n' ∉ text.toList

def Plain (text : String) : Prop := '\t' ∉ text.toList ∧ OneLine text

instance decidableOneLine (text : String) : Decidable (OneLine text) :=
  inferInstanceAs (Decidable (_ ∉ _))

instance decidablePlain (text : String) : Decidable (Plain text) :=
  inferInstanceAs (Decidable (_ ∧ _))

/-- What the reader of the file relies on: `%q` keeps a text on one line, and the time of a line is
read back. -/
structure Forms where
  quote : String → String
  rfc3339 : Time → String
  seconds : List Char → Option Int
  oneLine_quote : ∀ text, OneLine (quote text)
  plain_rfc3339 : ∀ t, Plain (rfc3339 t)
  seconds_rfc3339 : ∀ t, seconds (rfc3339 t).toList = some t.unix

/-! ## Writing -/

def AuditDetail.text (quote : String → String) : AuditDetail → String
  | .error err => err.message quote
  | .registered roles overlayIP region =>
    "roles=[" ++ " ".intercalate roles ++ "] overlay=" ++ overlayIP ++ " region=" ++ region
  | .partialDrain drained err =>
    "drained=" ++ itoa drained ++ " registry_remove=" ++ err.message quote
  | .reassigned count => "reassigned=" ++ itoa count

section

variable (forms : Forms)

def AuditEvent.detailText (e : AuditEvent AuditDetail) : String :=
  match e.detail with
  | none => ""
  | some detail => detail.text forms.quote

def AuditEvent.line (e : AuditEvent AuditDetail) : String :=
  forms.rfc3339 e.timestamp ++ "\t" ++ e.eventType ++ "\t" ++ e.nodeName ++ "\t" ++
    e.detailText forms ++ "\n"

def flushAudit (sorter : Sorter fun e : AuditEvent AuditDetail => e.timestamp)
    (audit : AuditLog AuditDetail) : List Char :=
  let events := audit.query sorter 0 0 "" "" 0
  if events.length = 0 then [] else events.flatMap fun e => (e.line forms).toList

/-! ## Reading -/

structure AuditRecord where
  seconds : Int
  eventType : List Char
  nodeName : List Char
  detail : List Char

def readLine (line : List Char) : Option AuditRecord :=
  match cuts '\t' 3 line with
  | some [time, eventType, nodeName, detail] =>
    (forms.seconds time).map fun seconds => ⟨seconds, eventType, nodeName, detail⟩
  | _ => none

def AuditEvent.record (e : AuditEvent AuditDetail) : AuditRecord :=
  ⟨e.timestamp.unix, e.eventType.toList, e.nodeName.toList, (e.detailText forms).toList⟩

def AuditLog.stored {D : Type} (a : AuditLog D) : List (AuditEvent D) :=
  if a.full then a.buf else a.buf.take a.cursor

/-- One line for each event stored, oldest first, that says what it should. -/
def Legible (audit : AuditLog AuditDetail) (text : List Char) : Prop :=
  ∃ (events : List (AuditEvent AuditDetail)) (lines : List (List Char)),
    events.Perm audit.stored ∧ (events.Pairwise fun e e' => e.timestamp ≤ e'.timestamp) ∧
      text.splitOn '\n' = lines ++ [[]] ∧
      lines.map (readLine forms) = events.map fun e => some (e.record forms)

structure AuditEvent.Clean (e : AuditEvent AuditDetail) : Prop where
  eventType : Plain e.eventType
  nodeName : Plain e.nodeName
  detail : OneLine (e.detailText forms)

end

/-! ## What is stored -/

namespace AuditLog

variable {D : Type} {a : AuditLog D} {events : List (AuditEvent D)}

theorem Recorded.stored_perm (h : a.Recorded events) :
    a.stored.Perm (events.drop (events.length - a.buf.length)) := by
  unfold stored
  cases hfull : a.full with
  | true => exact h.perm_of_full hfull
  | false =>
    have hlt := h.length_lt hfull
    rw [Nat.sub_eq_zero_of_le (by omega), drop_zero]
    exact Perm.of_eq (h.take_eq hfull)

theorem Recorded.forall_stored_append {P : AuditEvent D → Prop} {e : AuditEvent D}
    (h : a.Recorded events) (hP : ∀ x ∈ a.stored, P x) (now : Time) (he : e.timestamp ≠ 0) :
    (∀ x ∈ (a.append now e).stored, P x) ↔ P e := by
  have hpos : 0 < a.buf.length := h.pos
  have hperm := (h.append now he).stored_perm
  rw [length_buf_append, length_append, length_singleton,
    drop_append_of_le_length (by omega)] at hperm
  constructor
  · intro hall
    exact hall e (hperm.mem_iff.mpr (mem_append_right _ (mem_singleton.mpr rfl)))
  · intro hlast x hx
    rcases mem_append.mp (hperm.mem_iff.mp hx) with hx | hx
    · apply hP x (h.stored_perm.mem_iff.mpr ?_)
      exact (drop_sublist_drop_left events (by omega)).mem hx
    · rw [mem_singleton.mp hx]
      exact hlast

end AuditLog

/-! ## The file, line by line -/

variable (sorter : Sorter fun e : AuditEvent AuditDetail => e.timestamp)

section

variable {forms : Forms} {e : AuditEvent AuditDetail} {line : List Char}

def AuditEvent.fields (forms : Forms) (e : AuditEvent AuditDetail) : List (List Char) :=
  [(forms.rfc3339 e.timestamp).toList, e.eventType.toList, e.nodeName.toList,
    (e.detailText forms).toList]

theorem toList_line : (e.line forms).toList = ['\t'].intercalate (e.fields forms) ++ ['\n'] := by
  simp [line, fields, intercalate_cons_cons]

theorem flushAudit_eq (audit : AuditLog AuditDetail) :
    flushAudit forms sorter audit =
      unlines '\n' ((audit.query sorter 0 0 "" "" 0).map fun e =>
        ['\t'].intercalate (e.fields forms)) := by
  unfold flushAudit unlines
  dsimp only
  split
  · next h => rw [eq_nil_of_length_eq_zero h, map_nil, flatMap_nil]
  · simp only [toList_line, flatMap_map]

theorem readLine_eq_some {r : AuditRecord} (h : readLine forms line = some r) :
    '\t' ∉ r.eventType ∧ '\t' ∉ r.nodeName := by
  unfold readLine at h
  split at h
  · next time eventType nodeName detail hcuts =>
      obtain ⟨seconds, -, rfl⟩ := Option.map_eq_some_iff.mp h
      have hfields := notMem_of_cuts hcuts
      exact ⟨hfields eventType (by simp), hfields nodeName (by simp)⟩
  · cases h

theorem AuditEvent.Clean.readLine (h : e.Clean forms) :
    readLine forms (['\t'].intercalate (e.fields forms)) = some (e.record forms) := by
  have hfields : ∀ l ∈ (e.fields forms).dropLast, '\t' ∉ l := by
    simp [fields, (forms.plain_rfc3339 e.timestamp).1, h.eventType.1, h.nodeName.1]
  have hlength : (e.fields forms).length = 3 + 1 := rfl
  unfold ControlPlane.readLine
  rw [cuts_record hlength hfields]
  dsimp only [fields]
  rw [forms.seconds_rfc3339]
  rfl

theorem AuditEvent.Clean.oneLine (h : e.Clean forms) :
    '\n' ∉ ['\t'].intercalate (e.fields forms) := by
  have hne : ∀ c ∈ ['\t'].intercalate (e.fields forms), c ≠ '\n' := by
    apply forall_mem_intercalate
    · simp
    intro l hl c hc heq
    subst heq
    simp only [fields, mem_cons, not_mem_nil, or_false] at hl
    rcases hl with rfl | rfl | rfl | rfl
    · exact (forms.plain_rfc3339 e.timestamp).2 hc
    · exact h.eventType.2 hc
    · exact h.nodeName.2 hc
    · exact h.detail hc
  intro hmem
  exact hne '\n' hmem rfl

theorem legible_iff {audit : AuditLog AuditDetail} {events : List (AuditEvent AuditDetail)}
    (h : audit.Recorded events) (hstamped : ∀ e ∈ events, e.timestamp ≠ 0) :
    Legible forms audit (flushAudit forms sorter audit) ↔ ∀ e ∈ audit.stored, e.Clean forms := by
  have hperm : (audit.query sorter 0 0 "" "" 0).Perm audit.stored := by
    have hall : ∀ e : AuditEvent AuditDetail, e.Admitted 0 0 "" "" :=
      fun e => ⟨(absurd rfl ·), (absurd rfl ·), (absurd rfl ·), (absurd rfl ·)⟩
    rw [query_of_nonpos sorter audit 0 0 "" "" (Int.le_refl 0), h.scan_eq hstamped,
      filter_eq_self.mpr fun e _ => decide_eq_true (hall e)]
    exact (sorter.perm _).trans h.stored_perm.symm
  rw [flushAudit_eq]
  constructor
  · rintro ⟨written, lines, hwritten, -, hsplit, hread⟩ e he
    have hlength : lines.length = (audit.query sorter 0 0 "" "" 0).length := by
      have := congrArg length hread
      rw [length_map, length_map] at this
      rw [this, hwritten.length_eq, hperm.length_eq]
    -- there are as many lines as events, so no event has the end of a line in it
    have hline : ∀ l ∈ e.fields forms, '\n' ∉ l := by
      intro l hl hmem
      refine notMem_of_splitOn_unlines hsplit (by rw [hlength, length_map]) _
        (mem_map_of_mem (hperm.mem_iff.mpr he)) (mem_intercalate_of_mem hl hmem)
    -- and the line that says what this one should has no tab too many
    have hsome : some (e.record forms) ∈ lines.map (readLine forms) := by
      rw [hread]
      exact mem_map_of_mem (hwritten.mem_iff.mpr he)
    obtain ⟨line, -, hrecord⟩ := mem_map.mp hsome
    obtain ⟨htype, hname⟩ := readLine_eq_some hrecord
    refine ⟨⟨htype, hline _ ?_⟩, ⟨hname, hline _ ?_⟩, hline _ ?_⟩ <;> simp [fields]
  · intro hclean
    have hquery : ∀ e ∈ audit.query sorter 0 0 "" "" 0, e.Clean forms :=
      fun e he => hclean e (hperm.mem_iff.mp he)
    refine ⟨_, _, hperm, ?_, splitOn_unlines_iff.mpr ?_, ?_⟩
    · rw [query_of_nonpos sorter audit 0 0 "" "" (Int.le_refl 0)]
      exact sorter.ordered _
    · exact forall_mem_map.mpr fun e he => (hquery e he).oneLine
    · rw [map_map]
      exact map_congr_left fun e he => (hquery e he).readLine

end

/-! ## Texts on one line -/

variable {δ : Type} {forms : Forms} {now : Time} {s : Plane δ}

section Texts

@[simp] theorem oneLine_append {a b : String} : OneLine (a ++ b) ↔ OneLine a ∧ OneLine b := by
  simp [OneLine]

theorem oneLine_ofList {cs : List Char} (h : cs.all (· ≠ '\n') = true) :
    OneLine (String.ofList cs) := by
  rw [OneLine, String.toList_ofList]
  intro hmem
  simpa using all_eq_true.mp h '\n' hmem

theorem plain_ofList {cs : List Char} (h : cs.all (fun c => c ≠ '\t' ∧ c ≠ '\n') = true) :
    Plain (String.ofList cs) := by
  rw [Plain, OneLine, String.toList_ofList]
  constructor
  · intro hmem
    simpa using all_eq_true.mp h '\t' hmem
  · intro hmem
    simpa using all_eq_true.mp h '\n' hmem

theorem oneLine_roleError (err : RoleError) : OneLine (err.message forms.quote) := by
  cases err with
  | unknown got =>
    unfold RoleError.message
    simp only [oneLine_append, forms.oneLine_quote, and_true]
    exact ⟨oneLine_ofList rfl, oneLine_ofList rfl⟩
  | _ => exact oneLine_ofList rfl

theorem oneLine_registryError (err : RegistryError) : OneLine (err.message forms.quote) := by
  cases err with
  | roles err =>
    unfold RegistryError.message
    rw [oneLine_append]
    exact ⟨oneLine_ofList rfl, oneLine_roleError err⟩
  | overlayRequired name =>
    unfold RegistryError.message
    rw [oneLine_append]
    exact ⟨oneLine_ofList rfl, forms.oneLine_quote name⟩
  | overlayDup overlayIP existing =>
    unfold RegistryError.message
    simp only [oneLine_append, forms.oneLine_quote, and_true]
    exact ⟨oneLine_ofList rfl, oneLine_ofList rfl⟩
  | overlayMove prev next =>
    unfold RegistryError.message
    simp only [oneLine_append, forms.oneLine_quote, and_true]
    exact ⟨oneLine_ofList rfl, oneLine_ofList rfl⟩
  | _ => exact oneLine_ofList rfl

theorem oneLine_overlayInvalid (overlayIP : String) :
    OneLine ((LedgerError.overlayInvalid overlayIP).message forms.quote) := by
  unfold LedgerError.message
  rw [oneLine_append]
  exact ⟨oneLine_ofList rfl, forms.oneLine_quote overlayIP⟩

theorem oneLine_itoa (n : Int) : OneLine (itoa n) := by
  intro hmem
  rcases itoa_chars n _ hmem with heq | hhex
  · exact absurd heq (by decide)
  · exact absurd hhex (by decide)

end Texts

/-! ## Errors of seeding -/

section Seeding

def FailsOnOneLine (forms : Forms) (_ : Plane δ) (res : Except HandlerError Unit) : Prop :=
  ∀ err, res = .error err → OneLine (err.message forms.quote)

theorem failsOnOneLine_ok : FailsOnOneLine forms s (.ok ()) := fun err h => by cases h

theorem ends_ledgerReassign (forms : Forms) {overlayIP expectedOwner newOwner reason : String}
    (s : Plane δ) :
    (ledgerReassign now overlayIP expectedOwner newOwner reason false).Ends
      (fun _ res => ∀ err, res = .error err → OneLine (err.message forms.quote)) s := by
  intro err herr
  unfold ledgerReassign at herr
  rw [run_atomic] at herr
  split at herr
  · next h =>
      cases herr
      unfold Ledger.reassign at h
      split at h
      · cases h
        exact oneLine_ofList rfl
      split at h
      · cases h
        exact oneLine_overlayInvalid _
      split at h <;> simp at h
  · cases herr

theorem ends_seedRegisteredNodeOwnership (node : RegisteredNode) (s : Plane δ) :
    (seedRegisteredNodeOwnership now node).Ends (FailsOnOneLine forms) s := by
  unfold seedRegisteredNodeOwnership
  split
  · exact Ends.pure failsOnOneLine_ok
  apply Ends.bind_any
  intro s₁ owner
  cases owner with
  | none => exact Ends.pure failsOnOneLine_ok
  | some owner =>
    apply Ends.bind_any
    intro s₂ entry
    cases entry with
    | some entry => exact Ends.pure failsOnOneLine_ok
    | none =>
      apply (ends_ledgerReassign forms s₂).bind
      intro s₃ res hres
      cases res with
      | ok v => exact Ends.pure failsOnOneLine_ok
      | error err =>
        apply Ends.pure
        intro err' h
        cases h
        unfold HandlerError.message
        simp only [oneLine_append, forms.oneLine_quote, hres err rfl, and_true]
        exact ⟨oneLine_ofList rfl, oneLine_ofList rfl⟩

theorem ends_seedAll (nodes : List RegisteredNode) (s : Plane δ) :
    (seedAll now nodes).Ends (FailsOnOneLine forms) s := by
  induction nodes generalizing s with
  | nil => exact Ends.pure failsOnOneLine_ok
  | cons node rest ih =>
    apply (ends_seedRegisteredNodeOwnership node s).bind
    intro s' res hres
    cases res with
    | error err => exact Ends.pure hres
    | ok u => exact ih s'

theorem oneLine_seeding {node : RegisteredNode} {err : HandlerError}
    (h : ((seedRegistrationOwnership now node).run s).2 = .error err) :
    OneLine (err.message forms.quote) := by
  have hends : (seedRegistrationOwnership now node).Ends (FailsOnOneLine forms) s := by
    unfold seedRegistrationOwnership
    split
    · apply Ends.bind_any
      intro s' nodes
      exact ends_seedAll nodes s'
    · exact ends_seedRegisteredNodeOwnership node s
  exact hends err h

end Seeding

/-! ## Roles of a node that is admitted -/

section Roles

theorem scanRoles_known {roles seen : List Role} {hasClient : Bool} {out : List Role × Bool}
    (h : scanRoles roles seen hasClient = .ok out) : ∀ r ∈ roles, r.isValid = true := by
  induction roles generalizing seen hasClient with
  | nil => exact fun r hr => by cases hr
  | cons a rest ih =>
    rw [forall_mem_cons]
    cases a with
    | unknown got => cases h
    | _ => exact ⟨rfl, ih h⟩

theorem oneLine_of_isValid {text : String} (h : (Role.ofString text).isValid = true) :
    OneLine text := by
  unfold Role.ofString at h
  split at h
  · exact oneLine_ofList rfl
  · exact oneLine_ofList rfl
  · exact oneLine_ofList rfl
  · exact oneLine_ofList rfl
  · exact oneLine_ofList rfl
  · cases h

theorem validate_known {node : RegisteredNode} (h : validate node = .ok ()) :
    ∀ r ∈ node.roles, r.isValid = true := by
  unfold validate at h
  split at h
  · cases h
  split at h
  · cases h
  split at h
  · cases h
  next hroles =>
    unfold validateComposability at hroles
    split at hroles
    · cases hroles
    split at hroles
    · cases hroles
    · next hscan => exact scanRoles_known hscan

theorem oneLine_roles {req : RegisterNodeRequest} (h : validate req.node = .ok ()) :
    OneLine (" ".intercalate req.roles) := by
  have hknown : ∀ text ∈ req.roles, OneLine text := by
    intro text htext
    exact oneLine_of_isValid (validate_known h _ (mem_map_of_mem htext))
  have hne : ∀ c ∈ " ".toList.intercalate (req.roles.map String.toList), c ≠ '\n' := by
    apply forall_mem_intercalate
    · simp
    intro l hl c hc heq
    obtain ⟨text, htext, rfl⟩ := mem_map.mp hl
    exact hknown text htext (heq ▸ hc)
  unfold OneLine
  rw [String.toList_intercalate]
  exact fun hmem => hne '\n' hmem rfl

end Roles

/-! ## The texts of a call -/

structure Plane.Passes (s : Plane δ) (now : Time) (req : RegisterNodeRequest) : Prop where
  admits : s.registry.Admits now req.node
  overlay : req.OverlayValid
  seeds : ¬ SeedBlocked s now req.node "register"

def RegisterNodeRequest.CleanDetail (req : RegisterNodeRequest) : Except String Unit → Prop
  | .error err => OneLine err
  | .ok () => OneLine req.overlayIp ∧ OneLine req.region

def RegisterNodeRequest.Clean (s : Plane δ) (now : Time) (onRegister : Option (Observer δ))
    (req : RegisterNodeRequest) : Prop :=
  req.nodeName ≠ "" → Plain req.nodeName ∧ (s.Passes now req →
    req.CleanDetail (observe onRegister (s.registry.recorded now req.node) s.world).2)

def HeartbeatRequest.Clean (s : Plane δ) (now : Time) (onRegister : Option (Observer δ))
    (req : HeartbeatRequest) : Prop :=
  ∀ node, s.registry.byName[req.nodeName]? = some node →
    Plain req.nodeName ∧ (req.hasPeerIdentity = true → (¬ ∃ x ∈ seedTargets s node, Blocked s x) →
      ∀ err, (observe onRegister (req.beat now node) s.world).2 = .error err → OneLine err)

/-- The texts that the call puts into the file unquoted stay in their field. -/
def Call.Clean (s : Plane δ) : Call δ → Prop
  | .registerNode now onRegister req => req.Clean s now onRegister
  | .heartbeat now onRegister req => req.Clean s now onRegister
  | .decommissionNode _ name => s.CanDecommission name → Plain name
  | _ => True

section Records

variable {onRegister : Option (Observer δ)} {e : Option (AuditEvent AuditDetail)}

theorem AuditEvent.clean_iff {e : AuditEvent AuditDetail} (h : Plain e.eventType) :
    e.Clean forms ↔ Plain e.nodeName ∧ OneLine (e.detailText forms) := by
  constructor
  · intro hclean
    exact ⟨hclean.nodeName, hclean.detail⟩
  · rintro ⟨hname, hdetail⟩
    exact ⟨h, hname, hdetail⟩

theorem plain_registerRejected (name : String) (err : HandlerError) :
    Plain (registerRejected name err).eventType := plain_ofList rfl

theorem plain_heartbeatRejected (name : String) (err : HandlerError) :
    Plain (heartbeatRejected name err).eventType := plain_ofList rfl

theorem oneLine_observer (forms : Forms) (err : String) :
    OneLine ((HandlerError.observer err).message forms.quote) ↔ OneLine err := by
  unfold HandlerError.message
  rw [oneLine_append]
  exact and_iff_right (oneLine_ofList rfl)

section Register

variable {req : RegisterNodeRequest}

theorem RegisterNodeRequest.clean_of_not_passes (hname : req.nodeName ≠ "")
    (hno : ¬ s.Passes now req) : req.Clean s now onRegister ↔ Plain req.nodeName := by
  constructor
  · intro h
    exact (h hname).1
  · intro h _
    exact ⟨h, fun hpass => absurd hpass hno⟩

theorem RegisterNodeRequest.clean_of_passes (hpass : s.Passes now req) :
    req.Clean s now onRegister ↔ Plain req.nodeName ∧
      req.CleanDetail (observe onRegister (s.registry.recorded now req.node) s.world).2 := by
  constructor
  · intro h
    obtain ⟨hname, hdetail⟩ := h hpass.admits.name_ne
    exact ⟨hname, hdetail hpass⟩
  · rintro ⟨hname, hdetail⟩ _
    exact ⟨hname, fun _ => hdetail⟩

theorem oneLine_registered (forms : Forms) (h : validate req.node = .ok ()) :
    OneLine ((AuditDetail.registered req.roles req.overlayIp req.region).text forms.quote) ↔
      OneLine req.overlayIp ∧ OneLine req.region := by
  unfold AuditDetail.text
  simp only [oneLine_append, oneLine_roles h, and_true]
  constructor
  · rintro ⟨⟨⟨-, hoverlay⟩, -⟩, hregion⟩
    exact ⟨hoverlay, hregion⟩
  · rintro ⟨hoverlay, hregion⟩
    exact ⟨⟨⟨⟨oneLine_ofList rfl, oneLine_ofList rfl⟩, hoverlay⟩, oneLine_ofList rfl⟩, hregion⟩

theorem RegisterRecord.clean_iff (h : RegisterRecord now onRegister req s e) :
    (∀ x ∈ e, x.Clean forms) ↔ req.Clean s now onRegister := by
  cases h with
  | nameless hname => exact iff_of_true (by simp) (fun hne => absurd hname hne)
  | refused err hname hno =>
    simp only [Option.mem_some_iff, forall_eq']
    rw [clean_iff (plain_registerRejected _ _),
      RegisterNodeRequest.clean_of_not_passes hname (fun hpass => hno hpass.admits)]
    exact and_iff_left (oneLine_registryError err)
  | badOverlay had hm hip =>
    have hno : ¬ s.Passes now req := by
      intro hpass
      have := hpass.overlay hm
      rw [hip] at this
      cases this
    simp only [Option.mem_some_iff, forall_eq']
    rw [clean_iff (plain_registerRejected _ _),
      RegisterNodeRequest.clean_of_not_passes had.name_ne hno]
    exact and_iff_left (oneLine_overlayInvalid req.overlayIp)
  | seedFailed err had hblocked hrun =>
    simp only [Option.mem_some_iff, forall_eq']
    rw [clean_iff (plain_registerRejected _ _),
      RegisterNodeRequest.clean_of_not_passes had.name_ne (fun hpass => hpass.seeds hblocked)]
    exact and_iff_left (oneLine_seeding hrun)
  | observerFailed err had hip hclear hobs =>
    simp only [Option.mem_some_iff, forall_eq']
    rw [clean_iff (plain_registerRejected _ _),
      RegisterNodeRequest.clean_of_passes ⟨had, hip, hclear⟩, hobs]
    exact and_congr_right fun _ => oneLine_observer forms err
  | accepted had hip hclear hobs =>
    simp only [Option.mem_some_iff, forall_eq']
    rw [clean_iff, RegisterNodeRequest.clean_of_passes ⟨had, hip, hclear⟩, hobs]
    · exact and_congr_right fun _ => oneLine_registered forms had.valid
    · exact plain_ofList rfl

end Register

theorem HeartbeatRecord.clean_iff {req : HeartbeatRequest} (hs : s.WF)
    (h : HeartbeatRecord now onRegister req s e) :
    (∀ x ∈ e, x.Clean forms) ↔ req.Clean s now onRegister := by
  cases h with
  | unknown hno =>
    refine iff_of_true (by simp) ?_
    intro node hnode
    rw [hno] at hnode
    cases hnode
  | seedFailed node err hnode hid hblocked hrun =>
    have hblocked' := (exists_blocked_beaten hs hnode).mp hblocked
    simp only [Option.mem_some_iff, forall_eq']
    rw [clean_iff (plain_heartbeatRejected _ _)]
    simp only [HeartbeatRequest.Clean, hnode, Option.some.injEq, forall_eq']
    apply and_congr_right
    intro _
    exact iff_of_true (oneLine_seeding hrun) (fun _ hclear => absurd hblocked' hclear)
  | observerFailed node err hnode hid hclear hobs =>
    have hclear' := (exists_blocked_beaten hs hnode).not.mp hclear
    simp only [Option.mem_some_iff, forall_eq']
    rw [clean_iff (plain_heartbeatRejected _ _)]
    simp only [HeartbeatRequest.Clean, hnode, Option.some.injEq, forall_eq']
    apply and_congr_right
    intro _
    apply (oneLine_observer forms err).trans
    constructor
    · intro herr _ _ err' hobs'
      rw [hobs] at hobs'
      cases hobs'
      exact herr
    · intro herr
      exact herr hid hclear' err hobs
  | taken node hnode hobs =>
    simp only [Option.mem_some_iff, forall_eq']
    rw [clean_iff]
    · simp only [HeartbeatRequest.Clean, hnode, Option.some.injEq, forall_eq']
      apply and_congr_right
      intro _
      refine iff_of_true (oneLine_ofList rfl) ?_
      intro hid _ err hobs'
      rw [hobs hid] at hobs'
      cases hobs'
    · exact plain_ofList rfl

theorem DecommissionRecord.clean_iff {name : String} (h : DecommissionRecord name s e) :
    (∀ x ∈ e, x.Clean forms) ↔ (s.CanDecommission name → Plain name) := by
  cases h with
  | refused hno => exact iff_of_true (by simp) (fun hok => absurd hok hno)
  | done hok =>
    have hdetail (n : Int) : OneLine ("reassigned=" ++ itoa n) := by
      rw [oneLine_append]
      exact ⟨oneLine_ofList rfl, oneLine_itoa n⟩
    simp only [Option.mem_some_iff, forall_eq']
    rw [clean_iff, forall_prop_of_true hok]
    · exact and_iff_left (hdetail _)
    · exact plain_ofList rfl

end Records

/-! ## One call -/

inductive Logged (forms : Forms) (texts : Prop) (a b : AuditLog AuditDetail) : Prop where
  | nothing (hclean : texts) (hb : b = a)
  | event (now : Time) (e : AuditEvent AuditDetail) (hstamp : e.timestamp ≠ 0)
      (hclean : e.Clean forms ↔ texts) (hb : b = a.append now e)

section Call

variable {a b : AuditLog AuditDetail} {texts : Prop} {e : Option (AuditEvent AuditDetail)}

theorem Logged.of_note (hnow : now ≠ 0) (hzero : ∀ x ∈ e, x.timestamp = 0)
    (hclean : (∀ x ∈ e, x.Clean forms) ↔ texts) (hb : b = a.note now e) :
    Logged forms texts a b := by
  cases e with
  | none => exact .nothing (hclean.mp (by simp)) hb
  | some e =>
    simp only [Option.mem_some_iff, forall_eq'] at hzero hclean
    refine .event now { e with timestamp := now } hnow ?_ (hb.trans ?_)
    · rw [← hclean]
      exact ⟨fun h => ⟨h.eventType, h.nodeName, h.detail⟩,
        fun h => ⟨h.eventType, h.nodeName, h.detail⟩⟩
    · simp [note, append, Time.isZero, hzero, hnow]

def Call.Stamped : Call δ → Prop
  | .registerNode now _ _ => now ≠ 0
  | .heartbeat now _ _ => now ≠ 0
  | .decommissionNode now _ => now ≠ 0
  | _ => True

instance decidableStamped : (call : Call δ) → Decidable call.Stamped
  | .registerNode now _ _ => inferInstanceAs (Decidable (now ≠ 0))
  | .heartbeat now _ _ => inferInstanceAs (Decidable (now ≠ 0))
  | .decommissionNode now _ => inferInstanceAs (Decidable (now ≠ 0))
  | .selfRegister _ _ => isTrue trivial
  | .allowCertRollover _ _ _ _ => isTrue trivial
  | .clearCertRollover _ _ => isTrue trivial

theorem registryCall_audit (f : Registry → Except RegistryError Registry) :
    ((registryCall f).run s).1.audit = s.audit := by
  cases h : f s.registry with
  | error err => rw [run_registryCall_error h]
  | ok r => rw [run_registryCall_ok h]

theorem Call.after_logged (forms : Forms) (hs : s.WF) {call : Call δ} (hstamped : call.Stamped) :
    Logged forms (call.Clean s) s.audit (call.after s).audit := by
  cases call with
  | registerNode now onRegister req =>
    obtain ⟨s', res, hrun, -, e, hrecord, haudit⟩ := registerNode_registers now onRegister req hs
    rw [Call.after, Call.program, run_map, hrun]
    refine Logged.of_note hstamped ?_ hrecord.clean_iff haudit
    cases hrecord <;> simp [registerRejected]
  | heartbeat now onRegister req =>
    obtain ⟨s', res, hrun, -, e, hrecord, haudit⟩ := heartbeat_beats now onRegister req hs
    rw [Call.after, Call.program, run_map, hrun]
    refine Logged.of_note hstamped ?_ (hrecord.clean_iff hs) haudit
    cases hrecord <;> simp [heartbeatRejected]
  | decommissionNode now name =>
    obtain ⟨s', res, hrun, -, e, hrecord, haudit⟩ := decommissionNode_records now name hs
    rw [Call.after, Call.program, run_map, hrun]
    refine Logged.of_note hstamped ?_ hrecord.clean_iff haudit
    cases hrecord <;> simp [decommissioned]
  | selfRegister now node =>
    obtain ⟨s', res, hrun, -, haudit⟩ := selfRegister_records now node hs
    rw [Call.after, Call.program, run_map, hrun]
    exact .nothing trivial haudit
  | allowCertRollover now name certPEM overlapUntil =>
    rw [Call.after, Call.program, run_map]
    dsimp only
    exact .nothing trivial (registryCall_audit _)
  | clearCertRollover name certPEM =>
    rw [Call.after, Call.program, run_map]
    dsimp only
    exact .nothing trivial (registryCall_audit _)

def AuditLog.Kept (a : AuditLog AuditDetail) : Prop :=
  ∃ events, a.Recorded events ∧ ∀ e ∈ events, e.timestamp ≠ 0

theorem Logged.kept (h : Logged forms texts a b) (ha : a.Kept) : b.Kept := by
  cases h with
  | nothing hclean hb => rwa [hb]
  | event now e hstamp hclean hb =>
    obtain ⟨events, hrecorded, hstamped⟩ := ha
    refine ⟨events ++ [e], by rw [hb]; exact hrecorded.append now hstamp, ?_⟩
    rw [forall_mem_append, forall_mem_singleton]
    exact ⟨hstamped, hstamp⟩

theorem Logged.legible_iff (h : Logged forms texts a b) (ha : a.Kept)
    (hlegible : Legible forms a (flushAudit forms sorter a)) :
    Legible forms b (flushAudit forms sorter b) ↔ texts := by
  have hkept := h.kept ha
  cases h with
  | nothing hclean hb =>
    rw [hb]
    exact iff_of_true hlegible hclean
  | event now e hstamp hclean hb =>
    obtain ⟨events, hrecorded, hstamped⟩ := ha
    obtain ⟨events', hrecorded', hstamped'⟩ := hkept
    have hold := (ControlPlane.legible_iff sorter hrecorded hstamped).mp hlegible
    rw [ControlPlane.legible_iff sorter hrecorded' hstamped', hb,
      hrecorded.forall_stored_append hold now hstamp, hclean]

end Call

/-! ## Runs -/

def auditServer (capacity : Int) (world : δ) : Machine (Plane δ) (Call δ) where
  init := { world := world, audit := new capacity }
  step s call := if call.Stamped then some (call.after s) else none

theorem step_auditServer {capacity : Int} {world : δ} {s t : Plane δ} {call : Call δ}
    (h : (auditServer capacity world).step s call = some t) : call.Stamped ∧ t = call.after s := by
  unfold auditServer at h
  dsimp only at h
  split at h
  · next hstamped => exact ⟨hstamped, (Option.some.inj h).symm⟩
  · cases h

theorem exec_auditServer_isSome {capacity : Int} {world : δ} {calls : List (Call δ)}
    (hcalls : ∀ call ∈ calls, call.Stamped) (s : Plane δ) :
    ((auditServer capacity world).exec s calls).isSome := by
  induction calls generalizing s with
  | nil => rfl
  | cons call calls ih =>
    rw [forall_mem_cons] at hcalls
    have hstep : (auditServer capacity world).step s call = some (call.after s) :=
      if_pos hcalls.1
    rw [Machine.exec_cons, hstep]
    exact ih hcalls.2 (call.after s)

def Plane.AuditLegible (forms : Forms)
    (sorter : Sorter fun e : AuditEvent AuditDetail => e.timestamp) (s : Plane δ) : Prop :=
  Legible forms s.audit (flushAudit forms sorter s.audit)

theorem auditServer_init (capacity : Int) (world : δ) :
    (auditServer capacity world).init.WF ∧ (auditServer capacity world).init.audit.Kept :=
  ⟨⟨WF.empty, Ledger.WF.empty⟩, [], recorded_new capacity, by simp⟩

theorem auditLegible_init (capacity : Int) (world : δ) :
    (auditServer capacity world).init.AuditLegible forms sorter := by
  apply (legible_iff sorter (recorded_new capacity) (by simp)).mpr
  intro e he
  have hnone := (recorded_new capacity).stored_perm.mem_iff.mp he
  rw [drop_nil] at hnone
  cases hnone

/-- **The audit file**, over every run of requests. -/
theorem audit_legible_throughout_iff (forms : Forms)
    (sorter : Sorter fun e : AuditEvent AuditDetail => e.timestamp) (capacity : Int) (world : δ)
    (calls : List (Call δ)) (hcalls : ∀ call ∈ calls, call.Stamped) :
    (auditServer capacity world).Throughout (Plane.AuditLegible forms sorter)
        (auditServer capacity world).init calls ↔
      (auditServer capacity world).Along Call.Clean (auditServer capacity world).init calls := by
  apply Machine.throughout_iff_along (J := fun s => s.WF ∧ s.audit.Kept)
  · rintro s call t ⟨hs, hkept⟩ hstep
    obtain ⟨hstamped, rfl⟩ := step_auditServer hstep
    exact ⟨hs.after call, (call.after_logged forms hs hstamped).kept hkept⟩
  · rintro s call t ⟨hs, hkept⟩ hlegible hstep
    obtain ⟨hstamped, rfl⟩ := step_auditServer hstep
    exact (call.after_logged forms hs hstamped).legible_iff sorter hkept hlegible
  · exact auditServer_init capacity world
  · exact auditLegible_init sorter capacity world
  · exact exec_auditServer_isSome hcalls _

/-! ## A file that can be forged -/

def stdForms (isPrint : Char → Bool) (h : isPrint '\n' = false) : Forms where
  quote := quote isPrint
  rfc3339 := Time.rfc3339
  seconds := Time.readUnix
  oneLine_quote := newline_notMem_quote h
  plain_rfc3339 t :=
    ⟨fun hmem => absurd (t.rfc3339_chars _ hmem) (by decide),
      fun hmem => absurd (t.rfc3339_chars _ hmem) (by decide)⟩
  seconds_rfc3339 := Time.readUnix_rfc3339

def asciiForms : Forms := stdForms (fun c => ' ' ≤ c ∧ c ≤ '~') rfl

def plainRequest : RegisterNodeRequest :=
  { nodeName := "edge-1"
    roles := ["client"]
    nodeCertPem := [1]
    overlayIp := "10.0.0.2"
    region := "eu" }

def plainCalls : List (Call Unit) :=
  [.registerNode 1 none plainRequest, .registerNode 2 none { nodeName := "edge-2" },
    .heartbeat 3 none { nodeName := "edge-1" }, .decommissionNode 4 "edge-1"]

/-- The theorem at these calls, in a log for two events. -/
theorem audit_legible_throughout_iff_plain :
    (auditServer 2 ()).Throughout (Plane.AuditLegible asciiForms (Sorter.stable _))
      (auditServer 2 ()).init plainCalls := by
  have hcalls : ∀ call ∈ plainCalls, call.Stamped := by decide
  apply (audit_legible_throughout_iff asciiForms (Sorter.stable _) 2 () plainCalls hcalls).mpr
  refine ⟨?_, fun s₁ _ => ⟨?_, fun s₂ _ => ⟨?_, fun s₃ _ => ⟨?_, fun _ _ => trivial⟩⟩⟩⟩
  · exact fun _ => ⟨plain_ofList rfl, fun _ => ⟨oneLine_ofList rfl, oneLine_ofList rfl⟩⟩
  · exact fun _ => ⟨plain_ofList rfl, fun _ => ⟨oneLine_ofList rfl, oneLine_ofList rfl⟩⟩
  · exact fun _ _ => ⟨plain_ofList rfl, fun hid => by cases hid⟩
  · exact fun _ => plain_ofList rfl

def forgedName : String := "x\t\n2026-01-31T00:00:00Z\tdecommission\tedge-1\treassigned=0"

/-- **A forged line** from a rejected request. -/
theorem audit_line_forged :
    let s := Call.after (auditServer 2 ()).init (.registerNode 1 none { nodeName := forgedName })
    let text := flushAudit asciiForms (Sorter.stable _) s.audit
    s.audit.stored.length = 1 ∧
      ((text.splitOn '\n').map fun line =>
        (readLine asciiForms line).map fun r => (r.eventType, r.nodeName)) =
          [some ("register-rejected".toList, "x".toList),
            some ("decommission".toList, "edge-1".toList), none] ∧
      ¬ s.AuditLegible asciiForms (Sorter.stable _) := by
  refine ⟨rfl, by decide +kernel, ?_⟩
  intro hlegible
  obtain ⟨hwf, hkept⟩ := auditServer_init 2 ()
  have hstamped : (Call.registerNode (δ := Unit) 1 none { nodeName := forgedName }).Stamped := by
    decide
  have hclean := ((Call.after_logged asciiForms hwf hstamped).legible_iff (Sorter.stable _) hkept
    (auditLegible_init (Sorter.stable _) 2 ())).mp hlegible
  have hplain : Plain forgedName := (hclean (by decide)).1
  exact absurd hplain (by decide +kernel)

end AwgMesh.ControlPlane
