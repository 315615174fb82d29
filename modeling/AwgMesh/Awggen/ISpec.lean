import AwgMesh.Hex
import AwgMesh.Lib.Checks
import AwgMesh.Lib.Draws
import AwgMesh.Strconv
import AwgMesh.Text

/-!
# I-spec templates

`pkg/awggen/ispec.go`: a template is tokenized, its tokens are parsed to operations, and the
operations are executed to bytes.
-/

namespace AwgMesh.Awggen

open ByteText Lib Lib.Checks Draws List Int64

/-! ## Errors -/

inductive ISpecError where
  | depthExceeded
  | recursive (template : Bytes)
  | unknown (template : Bytes)
  | unterminated (position : Nat)
  | rawCharacter (c : UInt8) (position : Nat)
  | emptyTag
  | unsupported (tag : Bytes)
  | binaryArity
  | badHex (digits : Bytes)
  | randomArity (tag : Bytes)
  | notInteger (tag : Bytes) (field : String)
  | negative (tag : Bytes) (field : String)
  | digitsArity
  | digitsOrder
  | templateArity
  | invalidTemplate (template : Bytes) (err : ISpecError)
  deriving DecidableEq

/-! ## Tokens -/

def isSpaceByte (c : UInt8) : Bool := isSpace (Char.ofNat c.toNat)

/-- Where `tokenizeISpec` stands. -/
inductive Scan where
  | between
  | tag (start : Nat) (read : Bytes)
  | raw (read : Bytes)

def scan : Scan → (position : Nat) → Bytes → Except ISpecError (List Bytes)
  | .between, _, [] => .ok []
  | .tag start _, _, [] => .error (.unterminated start)
  | .raw read, _, [] => .ok [read]
  | .between, i, c :: rest =>
    if isSpaceByte c then scan .between (i + 1) rest
    else if c = 0x3c then scan (.tag i [c]) (i + 1) rest
    else if c = 0x3e then .error (.rawCharacter c i)
    else scan (.raw [c]) (i + 1) rest
  | .tag start read, i, c :: rest =>
    if c = 0x3e then (scan .between (i + 1) rest).map ((read ++ [c]) :: ·)
    else scan (.tag start (read ++ [c])) (i + 1) rest
  | .raw read, i, c :: rest =>
    if isSpaceByte c then (scan .between (i + 1) rest).map (read :: ·)
    else if c = 0x3c ∨ c = 0x3e then .error (.rawCharacter c i)
    else scan (.raw (read ++ [c])) (i + 1) rest

def tokenizeISpec (spec : Bytes) : Except ISpecError (List Bytes) := scan .between 0 spec

def spaceWidth : Bytes → Nat
  | [] => 0
  | c :: rest =>
    if c < 0x80 then if isSpaceByte c then 1 else 0
    else ((spaceRunes.find? (·.isPrefixOf (c :: rest))).map length).getD 0

def fieldsFrom : (skip : Nat) → (read : Bytes) → Bytes → List Bytes
  | _, read, [] => if read = [] then [] else [read]
  | skip + 1, read, _ :: rest => fieldsFrom skip read rest
  | 0, read, c :: rest =>
    if spaceWidth (c :: rest) = 0 then fieldsFrom 0 (read ++ [c]) rest
    else (if read = [] then [] else [read]) ++ fieldsFrom (spaceWidth (c :: rest) - 1) [] rest

/-! ## Operations -/

inductive Operation where
  | literal (text : Bytes)
  | binary (bytes : Bytes)
  | random (length : Int64)
  | cryptoRandom (length : Int64)
  | digits (minLength maxLength : Int64)
  | template (name : Bytes)
  deriving DecidableEq

def protocolTemplateExpansions : List (String × String) := [
  ("TLS_CLIENT_HELLO", "<b 160301> <r 2> <b 0100> <r 4> <b 0303> <rc 32>"),
  ("TLS_SERVER_HELLO", "<b 160303> <r 2> <b 0200> <r 4> <b 0303> <rc 32>"),
  ("TLS_EXTENSIONS", "<b 000a0006001700180019> <b 000d000400020403> <b 002b0003020304>"),
  ("TLS_SERVER_EXTENSIONS", "<b 002b00020304> <b 00330002001d>"),
  ("QUIC_INITIAL", "<b c30000000108> <rc 8> <b 00> <r 20>"),
  ("QUIC_TRANSPORT_PARAMS", "<b 00390020> <rc 32>"),
  ("DNS_QUERY", "<rc 2> <b 01000001000000000000>"),
  ("DNS_RESPONSE", "<rc 2> <b 81800001000100000000>"),
  ("HTTP_GET", "<b 474554202f20485454502f312e31> <b 0d0a>"),
  ("DTLS_CLIENT_HELLO", "<b 16fefd> <r 2> <b 0100> <r 4> <b fefd> <rc 32>"),
  ("DTLS_EXTENSIONS", "<b 000f000101> <b 000a00080006001700180019>"),
  ("STUN_BINDING", "<b 00010000> <b 2112a442> <rc 12>"),
  ("NTP_QUERY", "<b 1b00000000000000000000000000000000000000000000000000000000000000>")]

def templateSpec (name : Bytes) : Option Bytes :=
  (protocolTemplateExpansions.find? fun entry => ascii entry.1 = name).map fun entry =>
    ascii entry.2

def parseISpecLength (tag value : Bytes) (field : String) : Except ISpecError Int64 := do
  let parsed ← require (atoi (chars value)) (.notInteger tag field)
  refuseIf (parsed < 0) (.negative tag field)
  return ofInt parsed

def parseRandomTag (tag : Bytes) (args : List Bytes) (op : Int64 → Operation) :
    Except ISpecError Operation :=
  match args with
  | [length] => (parseISpecLength tag length "length").map op
  | _ => .error (.randomArity tag)

def parseRandomDigitsTag (tag : Bytes) : List Bytes → Except ISpecError Operation
  | [min, max] => do
    let minLength ← parseISpecLength tag min "min length"
    let maxLength ← parseISpecLength tag max "max length"
    refuseIf (maxLength < minLength) .digitsOrder
    return .digits minLength maxLength
  | _ => .error .digitsArity

def parseBinaryTag : List Bytes → Except ISpecError Operation
  | [digits] => do
    let bytes ← require (hexDecode digits) (.badHex digits)
    return .binary bytes
  | _ => .error .binaryArity

section

variable (toUpper : Bytes → Bytes)

theorem lawfulBEq_bytes : LawfulBEq Bytes := inferInstance

attribute [local instance] lawfulBEq_bytes

def parseTemplateTag : List Bytes → Except ISpecError Operation
  | [name] =>
    if (templateSpec (toUpper name)).isSome then .ok (.template (toUpper name))
    else .error (.unknown (toUpper name))
  | _ => .error .templateArity

def parseISpecTag (token : Bytes) : Except ISpecError Operation :=
  match fieldsFrom 0 [] (ByteText.trimSpace (token.drop 1).dropLast) with
  | [] => .error .emptyTag
  | tag :: args =>
    if tag = ascii "b" then parseBinaryTag args
    else if tag = ascii "r" then parseRandomTag tag args .random
    else if tag = ascii "rc" then parseRandomTag tag args .cryptoRandom
    else if tag = ascii "rd" then parseRandomDigitsTag tag args
    else if tag = ascii "t" then parseTemplateTag toUpper args
    else .error (.unsupported tag)

def parseISpecToken (token : Bytes) : Except ISpecError Operation :=
  if token.head? = some 0x3c ∧ token.getLast? = some 0x3e then parseISpecTag toUpper token
  else .ok (.literal token)

def parseISpecOperations (spec : Bytes) : Except ISpecError (List Operation) := do
  let tokens ← tokenizeISpec spec
  tokens.mapM (parseISpecToken toUpper)

/-! ## Validating -/

def validateISpecRecursive : (left : Nat) → (stack : List Bytes) → Bytes → Except ISpecError Unit
  | 0, _, _ => .error .depthExceeded
  | left + 1, stack, spec => do
    let ops ← parseISpecOperations toUpper spec
    ops.forM fun op =>
      match op with
      | .template name => do
        refuseIf (name ∈ stack) (.recursive name)
        let template ← require (templateSpec name) (.unknown name)
        validateISpecRecursive left (name :: stack) template
      | _ => return ()

def levels : Nat := 8 + 1

def validateISpec (spec : Bytes) : Except ISpecError Unit :=
  validateISpecRecursive toUpper levels [] spec

/-! ## Executing -/

def drawBytes (length : Int64) (bound : Int) (byte : Int → UInt8) : Draws ISpecError Bytes :=
  if length < 0 then .crash
  else do
    let drawn ← each (fun _ => upTo bound) (range length.toInt.toNat)
    return drawn.map byte

def randomBytes (length : Int64) : Draws ISpecError Bytes :=
  drawBytes length 256 fun r => UInt8.ofNat r.toNat

def randomDigitBytes (minLength maxLength : Int64) : Draws ISpecError Bytes := do
  let length ← between minLength maxLength
  drawBytes length 10 fun r => 0x30 + UInt8.ofNat r.toNat

def executeISpecOperation (expand : Bytes → Draws ISpecError Bytes) :
    Operation → Draws ISpecError Bytes
  | .literal text => pure text
  | .binary bytes => pure bytes
  | .random length => randomBytes length
  | .cryptoRandom length => randomBytes length
  | .digits minLength maxLength => randomDigitBytes minLength maxLength
  | .template name => expand name

def expandProtocolTemplate (execute : List Bytes → List Operation → Draws ISpecError Bytes)
    (stack : List Bytes) (name : Bytes) : Draws ISpecError Bytes :=
  if name ∈ stack then .fail (.recursive name)
  else match templateSpec name with
    | none => .fail (.unknown name)
    | some spec =>
      match parseISpecOperations toUpper spec with
      | .error err => .fail (.invalidTemplate name err)
      | .ok ops => execute (name :: stack) ops

def executeISpecOperations : (left : Nat) → (stack : List Bytes) → List Operation →
    Draws ISpecError Bytes
  | 0, _, _ => .fail .depthExceeded
  | left + 1, stack, ops => do
    let expand := expandProtocolTemplate toUpper (executeISpecOperations left) stack
    let payloads ← each (executeISpecOperation expand) ops
    return payloads.flatten

def parseISpec (spec : Bytes) : Draws ISpecError Bytes :=
  match parseISpecOperations toUpper spec with
  | .error err => .fail err
  | .ok ops => executeISpecOperations toUpper levels [] ops

structure ProtocolFamily where
  i1 : Bytes
  i2 : Bytes
  i3 : Bytes
  i4 : Bytes
  i5 : Bytes

inductive FamilyError where
  | required
  | invalid (index : Nat) (err : ISpecError)

def generateISpec : Option ProtocolFamily → Except FamilyError (List Bytes)
  | none => .error .required
  | some family => do
    let values := [family.i1, family.i2, family.i3, family.i4, family.i5]
    values.zipIdx.forM fun (value, index) =>
      if ByteText.trimSpace value = [] then .ok ()
      else (validateISpec toUpper value).mapError (.invalid (index + 1))
    return values

end

/-! ## What the parser lets through -/

def Operation.Sound : Operation → Prop
  | .literal _ | .binary _ => True
  | .random length | .cryptoRandom length => 0 ≤ length
  | .digits minLength maxLength => 0 ≤ minLength ∧ minLength ≤ maxLength
  | .template name => (templateSpec name).isSome

theorem parseISpecLength_nonneg {tag value : Bytes} {field : String} {n : Int64}
    (h : parseISpecLength tag value field = .ok n) : 0 ≤ n := by
  simp only [parseISpecLength, bind_eq_ok, require_eq_ok, refuseIf_eq_ok, pure_eq_ok] at h
  obtain ⟨parsed, hparsed, _, hnonneg, rfl⟩ := h
  have hlt : parsed < 2 ^ 63 := (isInt64_of_atoi hparsed).2
  rw [le_iff_toInt_le, toInt_ofInt_of_le (by omega) hlt]
  exact not_lt.mp hnonneg

variable {tag : Bytes} {args : List Bytes} {op : Operation}

theorem parseRandomTag_sound {make : Int64 → Operation} (hmake : ∀ n, 0 ≤ n → (make n).Sound)
    (h : parseRandomTag tag args make = .ok op) : op.Sound := by
  unfold parseRandomTag at h
  split at h
  · obtain ⟨n, hn, rfl⟩ := map_eq_ok.mp h
    exact hmake n (parseISpecLength_nonneg hn)
  · cases h

theorem parseRandomDigitsTag_sound
    (h : parseRandomDigitsTag tag args = .ok op) : op.Sound := by
  unfold parseRandomDigitsTag at h
  split at h
  · simp only [bind_eq_ok, refuseIf_eq_ok, pure_eq_ok] at h
    obtain ⟨lo, hlo, hi, -, _, hle, rfl⟩ := h
    exact ⟨parseISpecLength_nonneg hlo, Int64.not_lt.mp hle⟩
  · cases h

section

variable {toUpper : Bytes → Bytes} {s : Bytes} {ops : List Operation} {op : Operation}

variable {token : Bytes}

theorem parseISpecTag_sound (h : parseISpecTag toUpper token = .ok op) : op.Sound := by
  unfold parseISpecTag at h
  split at h
  · cases h
  · split_ifs at h
    · unfold parseBinaryTag at h
      split at h
      · simp only [bind_eq_ok, pure_eq_ok] at h
        obtain ⟨bytes, -, rfl⟩ := h
        trivial
      · cases h
    · exact parseRandomTag_sound (fun _ => id) h
    · exact parseRandomTag_sound (fun _ => id) h
    · exact parseRandomDigitsTag_sound h
    · unfold parseTemplateTag at h
      split at h
      · split_ifs at h with hknown
        cases h
        exact hknown
      · cases h

theorem parseISpecToken_sound (h : parseISpecToken toUpper token = .ok op) : op.Sound := by
  unfold parseISpecToken at h
  split_ifs at h
  · exact parseISpecTag_sound h
  · cases h
    trivial

theorem parseISpecOperations_sound (h : parseISpecOperations toUpper s = .ok ops) :
    ∀ op ∈ ops, op.Sound := by
  simp only [parseISpecOperations, bind_eq_ok, mapM_eq_ok_iff_forall₂] at h
  obtain ⟨tokens, -, hops⟩ := h
  have hsound := hops.imp fun _ _ h => And.intro (parseISpecToken_sound h) h
  exact ((forall₂_and_left _ _).mp hsound.flip).1

/-! ## The protocol templates -/

def Operation.isFlat : Operation → Bool
  | .binary _ => true
  | .random length | .cryptoRandom length => 0 ≤ length
  | _ => false

variable (toUpper) in
def isFlatSpec (spec : Bytes) : Bool :=
  match parseISpecOperations toUpper spec with
  | .ok ops => ops.all Operation.isFlat
  | .error _ => false

theorem isFlatSpec_ofList {l : List Char}
    (h : isFlatSpec toUpper (l.map fun c => UInt8.ofNat c.toNat) = true) :
    isFlatSpec toUpper (ascii (String.ofList l)) = true := by
  rw [ascii, String.toList_ofList]
  exact h

variable (toUpper) in
theorem isFlatSpec_expansion :
    ∀ entry ∈ protocolTemplateExpansions, isFlatSpec toUpper (ascii entry.2) = true := by
  simp only [protocolTemplateExpansions, forall_mem_cons]
  refine ⟨?_, ?_, ?_, ?_, ?_, ?_, ?_, ?_, ?_, ?_, ?_, ?_, ?_, nofun⟩
  all_goals exact isFlatSpec_ofList rfl

variable (toUpper) in
theorem templateSpec_isFlat {name spec : Bytes} (h : templateSpec name = some spec) :
    ∃ ops, parseISpecOperations toUpper spec = .ok ops ∧ ∀ op ∈ ops, op.isFlat := by
  obtain ⟨entry, hfind, rfl⟩ := Option.map_eq_some_iff.mp h
  have hflat := isFlatSpec_expansion toUpper entry (mem_of_find?_eq_some hfind)
  unfold isFlatSpec at hflat
  split at hflat
  · next ops hops => exact ⟨ops, hops, all_eq_true.mp hflat⟩
  · cases hflat

/-! ## The validator -/

theorem validateISpec_isOk_iff :
    validateISpec toUpper s = .ok () ↔ ∃ ops, parseISpecOperations toUpper s = .ok ops := by
  simp only [validateISpec, levels, validateISpecRecursive, bind_eq_ok, forM_eq_ok]
  constructor
  · rintro ⟨ops, hops, -⟩
    exact ⟨ops, hops⟩
  · rintro ⟨ops, hops⟩
    refine ⟨ops, hops, fun op hop => ?_⟩
    have hsound := parseISpecOperations_sound hops op hop
    cases op with
    | template name =>
      obtain ⟨spec, hspec⟩ := Option.isSome_iff_exists.mp hsound
      obtain ⟨inner, hinner, hflat⟩ := templateSpec_isFlat toUpper hspec
      simp only [hspec, bind_eq_ok, forM_eq_ok, refuseIf_eq_ok, require_eq_ok]
      refine ⟨(), not_mem_nil, spec, rfl, inner, hinner, fun op hop => ?_⟩
      cases op with
      | template name => cases hflat _ hop
      | _ => rfl
    | _ => rfl

/-! ## The executor -/

variable {length : Int64}

theorem sure_drawBytes {bound : Int} {byte : Int → UInt8} (hlength : 0 ≤ length)
    (hbound : 0 < bound) : Sure (drawBytes length bound byte) := by
  rw [drawBytes, if_neg (Int64.not_lt.mpr hlength)]
  exact only_bind.mpr
    ⟨only_each fun _ _ => only_upTo.mpr hbound, fun _ _ => only_pure⟩

theorem sure_randomBytes (h : 0 ≤ length) : Sure (randomBytes length) :=
  sure_drawBytes h (by decide)

variable {lo hi : Int64}

theorem narrow_iff (hlo : 0 ≤ lo) : Narrow lo hi ↔ ¬(lo = 0 ∧ hi = maxValue) := by
  have hmax := hi.toInt_lt
  rw [le_iff_toInt_le, toInt_zero] at hlo
  rw [Narrow, ← toInt_inj, ← toInt_inj, toInt_zero,
    show maxValue.toInt = 2 ^ 63 - 1 from rfl]
  omega

theorem sure_randomDigitBytes (hlo : 0 ≤ lo) (hle : lo ≤ hi) :
    Sure (randomDigitBytes lo hi) ↔ Narrow lo hi := by
  simp only [randomDigitBytes, only_bind, only_between hle, returns_between hle]
  refine and_iff_left fun length hlength => sure_drawBytes ?_ (by decide)
  exact Int64.le_trans hlo hlength.2.1

variable {expand : Bytes → Draws ISpecError Bytes}

theorem sure_executeISpecOperation (hop : op.Sound)
    (hexpand : ∀ name, (templateSpec name).isSome → Sure (expand name)) :
    Sure (executeISpecOperation expand op) ↔ op ≠ .digits 0 maxValue := by
  cases op with
  | literal text => simp [executeISpecOperation]
  | binary bytes => simp [executeISpecOperation]
  | random length => simpa [executeISpecOperation] using sure_randomBytes hop
  | cryptoRandom length => simpa [executeISpecOperation] using sure_randomBytes hop
  | digits lo hi =>
    rw [executeISpecOperation, sure_randomDigitBytes hop.1 hop.2, narrow_iff hop.1]
    simp
  | template name => simpa [executeISpecOperation] using hexpand name hop

theorem sure_executeISpecOperation_of_isFlat
    (h : op.isFlat) : Sure (executeISpecOperation expand op) := by
  cases op with
  | binary bytes => exact only_pure
  | random length => exact sure_randomBytes (of_decide_eq_true h)
  | cryptoRandom length => exact sure_randomBytes (of_decide_eq_true h)
  | _ => cases h

variable {left : Nat}

theorem sure_executeISpecOperations {stack : List Bytes} :
    Sure (executeISpecOperations toUpper (left + 1) stack ops) ↔
      ∀ op ∈ ops, Sure (executeISpecOperation
        (expandProtocolTemplate toUpper (executeISpecOperations toUpper left) stack) op) := by
  simp [executeISpecOperations, sure_each]

theorem sure_expandProtocolTemplate {name : Bytes} (h : (templateSpec name).isSome) :
    Sure (expandProtocolTemplate toUpper (executeISpecOperations toUpper (left + 1)) [] name) := by
  obtain ⟨spec, hspec⟩ := Option.isSome_iff_exists.mp h
  obtain ⟨inner, hinner, hflat⟩ := templateSpec_isFlat toUpper hspec
  simp only [expandProtocolTemplate, not_mem_nil, if_false, hspec, hinner]
  exact sure_executeISpecOperations.mpr fun op hop =>
    sure_executeISpecOperation_of_isFlat (hflat op hop)

theorem sure_parseISpec :
    Sure (parseISpec toUpper s) ↔
      ∃ ops, parseISpecOperations toUpper s = .ok ops ∧ .digits 0 maxValue ∉ ops := by
  unfold parseISpec
  split
  · next err herr => simp [herr]
  · next ops hops =>
    rw [levels, sure_executeISpecOperations]
    simp only [hops, Except.ok.injEq, exists_eq_left']
    rw [← forall_mem_ne']
    refine forall₂_congr fun op hop => ?_
    exact sure_executeISpecOperation (parseISpecOperations_sound hops op hop)
      fun name => sure_expandProtocolTemplate

end

/-- **The validator is exact except for the widest digits tag.** It accepts `<rd 0 n>` for the
largest `int` `n`, whose number of lengths is `n + 1` and wraps around to a bound the random source
panics on. -/
theorem validation_exact_iff (toUpper : Bytes → Bytes) (s : Bytes) :
    (validateISpec toUpper s = .ok () ↔ Sure (parseISpec toUpper s)) ↔
      ∀ ops, parseISpecOperations toUpper s = .ok ops → .digits 0 maxValue ∉ ops := by
  rw [validateISpec_isOk_iff, sure_parseISpec]
  constructor
  · intro h ops hops hmem
    obtain ⟨ops', hops', hnot⟩ := h.mp ⟨ops, hops⟩
    cases hops.symm.trans hops'
    exact hnot hmem
  · intro h
    exact exists_congr fun ops => (and_iff_left_of_imp (h ops)).symm

theorem validation_exact_iff_digits :
    validateISpec id (ascii "<rd 1 9>") = .ok () ∧ Sure (parseISpec id (ascii "<rd 1 9>")) := by
  have hops : parseISpecOperations id (ascii "<rd 1 9>") = .ok [.digits 1 9] := by decide
  have hvalid : validateISpec id (ascii "<rd 1 9>") = .ok () := by decide
  refine ⟨hvalid, ((validation_exact_iff id _).mpr ?_).mp hvalid⟩
  rw [hops]
  rintro _ ⟨rfl⟩
  decide

theorem widest_digits_panic :
    validateISpec id (ascii "<rd 0 9223372036854775807>") = .ok () ∧
      ¬Sure (parseISpec id (ascii "<rd 0 9223372036854775807>")) := by
  have hops : parseISpecOperations id (ascii "<rd 0 9223372036854775807>") =
      .ok [.digits 0 maxValue] := by decide +kernel
  refine ⟨validateISpec_isOk_iff.mpr ⟨_, hops⟩, fun hsure => ?_⟩
  obtain ⟨ops, hops', hnot⟩ := sure_parseISpec.mp hsure
  cases hops.symm.trans hops'
  exact hnot mem_cons_self

/-! ## Text without tags -/

def Tagless (text : Bytes) : Prop := 0x3c ∉ text ∧ 0x3e ∉ text

theorem tagless_cons {c : UInt8} {rest : Bytes} :
    Tagless (c :: rest) ↔ (c ≠ 0x3c ∧ c ≠ 0x3e) ∧ Tagless rest := by
  simp only [Tagless, mem_cons, not_or]
  grind

def nonSpace (text : Bytes) : Bytes := text.filter fun c => !isSpaceByte c

structure Raw (tokens : List Bytes) (text : Bytes) : Prop where
  tagless : ∀ token ∈ tokens, Tagless token
  flatten : tokens.flatten = text

theorem scan_of_tagless {b : Bytes} (h : Tagless b) (i : Nat) :
    (∃ tokens, scan .between i b = .ok tokens ∧ Raw tokens (nonSpace b)) ∧ ∀ read, Tagless read →
        ∃ tokens, scan (.raw read) i b = .ok tokens ∧ Raw tokens (read ++ nonSpace b) := by
  induction b generalizing i with
  | nil =>
    refine ⟨⟨[], rfl, nofun, rfl⟩, fun read hread => ⟨[read], rfl, ?_, by simp [nonSpace]⟩⟩
    simpa using hread
  | cons c rest ih =>
    obtain ⟨⟨hlt, hgt⟩, hrest⟩ := tagless_cons.mp h
    obtain ⟨ihBetween, ihRaw⟩ := ih hrest (i + 1)
    cases hspace : isSpaceByte c with
    | true =>
      have hskip : nonSpace (c :: rest) = nonSpace rest := by simp [nonSpace, hspace]
      rw [hskip]
      obtain ⟨tokens, htokens, hraw⟩ := ihBetween
      refine ⟨⟨tokens, by simpa [scan, hspace] using htokens, hraw⟩, fun read hread => ?_⟩
      refine ⟨read :: tokens, by simp [scan, hspace, htokens], ?_, by simp [hraw.flatten]⟩
      exact forall_mem_cons.mpr ⟨hread, hraw.tagless⟩
    | false =>
      have hkeep : nonSpace (c :: rest) = c :: nonSpace rest := by simp [nonSpace, hspace]
      rw [hkeep]
      constructor
      · obtain ⟨tokens, htokens, hraw⟩ := ihRaw [c] (tagless_cons.mpr ⟨⟨hlt, hgt⟩, nofun, nofun⟩)
        exact ⟨tokens, by simpa [scan, hspace, hlt, hgt] using htokens, hraw⟩
      · intro read hread
        have hgrown : Tagless (read ++ [c]) := by
          simp [Tagless, hread.1, hread.2, Ne.symm hlt, Ne.symm hgt]
        obtain ⟨tokens, htokens, hraw⟩ := ihRaw (read ++ [c]) hgrown
        refine ⟨tokens, by simpa [scan, hspace, hlt, hgt] using htokens, ?_⟩
        simpa using hraw

section

variable {toUpper : Bytes → Bytes} {b out : Bytes}

theorem parseISpecToken_of_tagless {token : Bytes} (h : Tagless token) :
    parseISpecToken toUpper token = .ok (.literal token) := by
  unfold parseISpecToken
  rw [if_neg]
  rintro ⟨hhead, -⟩
  exact h.1 (mem_of_mem_head? hhead)

theorem parseISpecOperations_of_tagless (h : Tagless b) :
    ∃ tokens : List Bytes, parseISpecOperations toUpper b = .ok (tokens.map .literal) ∧
      tokens.flatten = nonSpace b := by
  obtain ⟨tokens, htokens, hraw⟩ := (scan_of_tagless h 0).1
  refine ⟨tokens, bind_eq_ok.mpr ⟨tokens, htokens, ?_⟩, hraw.flatten⟩
  rw [mapM_eq_ok_iff_forall₂, forall₂_map_right_iff, forall₂_same]
  exact fun token htoken => parseISpecToken_of_tagless (hraw.tagless token htoken)

theorem returns_executeISpecOperations_literal {left : Nat} {stack tokens : List Bytes} :
    Returns (executeISpecOperations toUpper (left + 1) stack (tokens.map .literal)) out ↔
      tokens.flatten = out := by
  simp [executeISpecOperations, returns_each, forall₂_map_left_iff,
    executeISpecOperation]

theorem sure_parseISpec_of_tagless (h : Tagless b) : Sure (parseISpec toUpper b) := by
  obtain ⟨tokens, hops, _⟩ := @parseISpecOperations_of_tagless toUpper _ h
  exact sure_parseISpec.mpr ⟨_, hops, by simp⟩

theorem returns_parseISpec_of_tagless (h : Tagless b) :
    Returns (parseISpec toUpper b) out ↔ nonSpace b = out := by
  obtain ⟨tokens, hops, hflatten⟩ := @parseISpecOperations_of_tagless toUpper _ h
  rw [parseISpec, hops, ← hflatten]
  exact returns_executeISpecOperations_literal

end

/-! ## Space bytes and space characters -/

theorem toNat_ofNat {n : Nat} (h : n < 0xd800) : (Char.ofNat n).toNat = n := by
  rw [Char.ofNat, dif_pos (.inl h)]
  rfl

theorem isSpaceByte_iff {c : UInt8} :
    isSpaceByte c ↔ (9 ≤ c.toNat ∧ c.toNat ≤ 13) ∨ c.toNat = 32 ∨ c.toNat = 0x85 ∨
      c.toNat = 0xa0 := by
  have hlt := c.toNat_lt
  simp only [isSpaceByte, isSpace, toNat_ofNat (show c.toNat < 0xd800 by omega), Bool.or_eq_true,
    Bool.and_eq_true, decide_eq_true_eq]
  omega

theorem isSpaceByte_iff_of_wide {b : UInt8} (h : 128 ≤ b.toNat) :
    isSpaceByte b ↔ b = 0x85 ∨ b = 0xa0 := by
  rw [isSpaceByte_iff, ← UInt8.toNat_inj, ← UInt8.toNat_inj]
  simp only [UInt8.reduceToNat]
  omega

section

variable {c : Char} {b first : UInt8} {rest : Bytes}

theorem eq_of_mem_utf8EncodeChar (hb : b.toNat < 128) (h : b ∈ String.utf8EncodeChar c) :
    Char.ofNat b.toNat = c := by
  rcases utf8EncodeChar_cases c with ⟨hascii, henc⟩ | ⟨_, first, rest, henc, hfirst, hrest⟩
  · rw [henc, mem_singleton] at h
    rw [h, UInt8.toNat_ofNat', Nat.mod_eq_of_lt (by omega), Char.ofNat_toNat]
  · rw [henc] at h
    rcases mem_cons.mp h with rfl | h
    · omega
    · have := hrest b h
      omega

theorem tagless_utf8 {s : String} (hlt : '<' ∉ s.toList) (hgt : '>' ∉ s.toList) :
    Tagless (utf8 s) := by
  constructor
  all_goals
    intro hmem
    obtain ⟨c, hc, hb⟩ := mem_flatMap.mp hmem
    have heq := eq_of_mem_utf8EncodeChar (by decide) hb
    subst heq
    contradiction

/-! ## Characters that lose what they should -/

def Kept (c : Char) : Prop :=
  c.toNat < 128 ∨
    (isSpace c = false ∧ 0x85 ∉ String.utf8EncodeChar c ∧ 0xa0 ∉ String.utf8EncodeChar c)

def shown (c : Char) : Bytes := if isSpace c then [] else String.utf8EncodeChar c

theorem nonSpace_ascii (h : c.toNat < 128) : nonSpace (String.utf8EncodeChar c) = shown c := by
  rcases utf8EncodeChar_cases c with ⟨_, henc⟩ | ⟨hwide, _⟩
  · have hspace : isSpaceByte (UInt8.ofNat c.toNat) = isSpace c := by
      rw [isSpaceByte, UInt8.toNat_ofNat', Nat.mod_eq_of_lt (by omega), Char.ofNat_toNat]
    rw [shown, henc, nonSpace, filter_singleton, hspace]
    cases isSpace c <;> rfl
  · omega

theorem nonSpace_of_kept (h : Kept c) : nonSpace (String.utf8EncodeChar c) = shown c := by
  obtain hascii | ⟨hspace, h85, ha0⟩ := h
  · exact nonSpace_ascii hascii
  · rcases utf8EncodeChar_cases c with ⟨hascii, _⟩ | ⟨_, first, rest, henc, hfirst, hrest⟩
    · exact nonSpace_ascii hascii
    · rw [shown, hspace]
      refine filter_eq_self.mpr fun b hb => ?_
      have hwide : 128 ≤ b.toNat := by
        rw [henc] at hb
        rcases mem_cons.mp hb with rfl | hb
        · omega
        · exact (hrest b hb).1
      rw [Bool.not_eq_true', ← Bool.not_eq_true, isSpaceByte_iff_of_wide hwide]
      rintro (rfl | rfl)
      · exact h85 hb
      · exact ha0 hb

def startsChar (b : UInt8) : Bool := b.toNat < 128 || 192 ≤ b.toNat

theorem countP_startsChar_wide (hfirst : 192 ≤ first.toNat)
    (hrest : ∀ b ∈ rest, 128 ≤ b.toNat ∧ b.toNat < 192) :
    (first :: rest).countP startsChar = 1 := by
  have hnone : rest.countP startsChar = 0 := by
    refine countP_eq_zero.mpr fun b hb => ?_
    have := hrest b hb
    simp only [startsChar, Bool.or_eq_true, decide_eq_true_eq]
    omega
  rw [countP_cons_of_pos (by simp [startsChar, hfirst]), hnone]

theorem countP_startsChar_nonSpace (c : Char) :
    (nonSpace (String.utf8EncodeChar c)).countP startsChar =
      (shown c).countP startsChar + if isSpace c ∧ 128 ≤ c.toNat then 1 else 0 := by
  rcases utf8EncodeChar_cases c with ⟨hascii, _⟩ | ⟨hwide, first, rest, henc, hfirst, hrest⟩
  · rw [nonSpace_ascii hascii, if_neg (by omega), Nat.add_zero]
  · have hstay : nonSpace (first :: rest) = first :: nonSpace rest := by
      refine filter_cons_of_pos ?_
      rw [Bool.not_eq_true', ← Bool.not_eq_true, isSpaceByte_iff]
      omega
    have hleft : ∀ b ∈ nonSpace rest, 128 ≤ b.toNat ∧ b.toNat < 192 :=
      fun b hb => hrest b (mem_of_mem_filter hb)
    rw [shown, henc, hstay, countP_startsChar_wide hfirst hleft]
    cases hspace : isSpace c with
    | true => simp [hwide]
    | false => simp [countP_startsChar_wide hfirst hrest]

end

/-! ## Texts -/

def withoutSpace (s : String) : String := String.ofList (s.toList.filter fun c => !isSpace c)

theorem utf8_withoutSpace (s : String) : utf8 (withoutSpace s) = s.toList.flatMap shown := by
  rw [utf8, withoutSpace, String.toList_ofList]
  induction s.toList with
  | nil => rfl
  | cons c l ih =>
    rw [flatMap_cons, filter_cons, shown, ← ih]
    cases isSpace c <;> rfl

theorem countP_startsChar_text (l : List Char) :
    (nonSpace (l.flatMap String.utf8EncodeChar)).countP startsChar =
      (l.flatMap shown).countP startsChar + l.countP fun c => isSpace c ∧ 128 ≤ c.toNat := by
  induction l with
  | nil => rfl
  | cons c l ih =>
    have hhead := countP_startsChar_nonSpace c
    rw [nonSpace] at hhead ih
    rw [nonSpace, flatMap_cons, flatMap_cons, filter_append, countP_append,
      countP_append, countP_cons, ih, hhead]
    simp only [decide_eq_true_eq]
    omega

theorem nonSpace_utf8_iff (s : String) :
    nonSpace (utf8 s) = utf8 (withoutSpace s) ↔ ∀ c ∈ s.toList, Kept c := by
  rw [utf8_withoutSpace, utf8]
  constructor
  · intro h c hc
    by_cases hascii : c.toNat < 128
    · exact .inl hascii
    · -- a longer space would leave a first byte too many
      have hcount := countP_startsChar_text s.toList
      rw [h, Nat.left_eq_add, countP_eq_zero] at hcount
      have hspace : isSpace c = false := by
        have := hcount c hc
        simp only [decide_eq_true_eq] at this
        grind
      -- and the bytes that are white space alone are all gone
      have hgone : ∀ b ∈ String.utf8EncodeChar c, isSpaceByte b = false := by
        intro b hb
        have hmem : b ∈ s.toList.flatMap shown := by
          refine mem_flatMap.mpr ⟨c, hc, ?_⟩
          rw [shown, hspace]
          exact hb
        rw [← h] at hmem
        simpa using of_mem_filter hmem
      refine .inr ⟨hspace, fun hb => ?_, fun hb => ?_⟩
      · exact absurd (hgone _ hb) (by decide)
      · exact absurd (hgone _ hb) (by decide)
  · intro h
    rw [nonSpace, filter_flatMap]
    exact flatMap_congr fun c hc => nonSpace_of_kept (h c hc)

/-- **Which literals are kept.** -/
theorem literals_kept_iff (toUpper : Bytes → Bytes) (s : String) (hlt : '<' ∉ s.toList)
    (hgt : '>' ∉ s.toList) :
    (Sure (parseISpec toUpper (utf8 s)) ∧
      ∀ out, Returns (parseISpec toUpper (utf8 s)) out → out = utf8 (withoutSpace s)) ↔
      ∀ c ∈ s.toList, Kept c := by
  have htext := tagless_utf8 hlt hgt
  rw [← nonSpace_utf8_iff]
  constructor
  · rintro ⟨-, hall⟩
    exact hall _ ((returns_parseISpec_of_tagless htext).mpr rfl)
  · intro h
    refine ⟨sure_parseISpec_of_tagless htext, fun out hout => ?_⟩
    rw [← (returns_parseISpec_of_tagless htext).mp hout, h]

theorem literals_kept_in_ascii :
    Sure (parseISpec id (utf8 "a b")) ∧ Returns (parseISpec id (utf8 "a b")) (ascii "ab") ∧
      (∀ out, Returns (parseISpec id (utf8 "a b")) out → out = ascii "ab") := by
  have hkept : ∀ c ∈ "a b".toList, Kept c := by
    rw [show "a b".toList = ['a', ' ', 'b'] by decide]
    simp [Kept]
  have hout : utf8 (withoutSpace "a b") = ascii "ab" := by decide
  obtain ⟨hsure, hall⟩ := (literals_kept_iff id "a b" (by decide) (by decide)).mpr hkept
  rw [hout] at hall
  obtain ⟨out, hreturns⟩ := hsure.exists_returns
  have heq := hall out hreturns
  subst heq
  exact ⟨hsure, hreturns, hall⟩

/-- The letter `à` is `C3 A0`; only its first byte is left of it. -/
theorem literal_cut :
    '<' ∉ "\u00e0".toList ∧ '>' ∉ "\u00e0".toList ∧ utf8 (withoutSpace "\u00e0") = [0xc3, 0xa0] ∧
      Returns (parseISpec id (utf8 "\u00e0")) [0xc3] := by
  have htext : Tagless (utf8 "\u00e0") := by
    rw [Tagless]
    decide
  exact ⟨by decide, by decide, by decide, (returns_parseISpec_of_tagless htext).mpr (by decide)⟩

end AwgMesh.Awggen
