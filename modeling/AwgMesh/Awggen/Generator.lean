import AwgMesh.Wg.Config
import AwgMesh.Lib.Tiling
import AwgMesh.Awggen.ISpec

/-!
# Parameters from a capture

`GenerateParamsFromCapture` of `pkg/awggen/generator.go` takes the bytes of a captured packet as the
template `I1`, as they are, and `Params.ToConfig` passes them on to the device's configuration.
-/

namespace AwgMesh.Awggen

open ByteText Wg.Text List Int64

structure Preset where
  jcRange : Int64 × Int64
  jminRange : Int64 × Int64
  jmaxExtraRange : Int64 × Int64
  s1Range : Int64 × Int64
  s2Range : Int64 × Int64
  s3Range : Int64 × Int64
  s4Range : Int64 × Int64
  hMin : Int64
  hMax : Int64

structure Params where
  jc : Int64 := 0
  jmin : Int64 := 0
  jmax : Int64 := 0
  s1 : Int64 := 0
  s2 : Int64 := 0
  s3 : Int64 := 0
  s4 : Int64 := 0
  h1 : Int64 := 0
  h2 : Int64 := 0
  h3 : Int64 := 0
  h4 : Int64 := 0
  i1 : Bytes := []
  i2 : Bytes := []
  i3 : Bytes := []
  i4 : Bytes := []
  i5 : Bytes := []

inductive GenerateError where
  | presetRequired
  | emptyCapture
  | range (field : String) (min max : Int64)
  | headerOrder (min max : Int64)
  | headerWidth (min max : Int64)
  | numeric (err : String)

def validateRange (value : Int64 × Int64) (field : String) : Except GenerateError Unit :=
  if value.1 > value.2 then .error (.range field value.1 value.2) else .ok ()

def validatePresetRanges (preset : Preset) : Except GenerateError Unit := do
  validateRange preset.jcRange "JcRange"
  validateRange preset.jminRange "JminRange"
  validateRange preset.jmaxExtraRange "JmaxExtraRange"
  validateRange preset.s1Range "S1Range"
  validateRange preset.s2Range "S2Range"
  validateRange preset.s3Range "S3Range"
  validateRange preset.s4Range "S4Range"
  if preset.hMin > preset.hMax then .error (.headerOrder preset.hMin preset.hMax)
  else if preset.hMax - preset.hMin + 1 < 4 then .error (.headerWidth preset.hMin preset.hMax)
  else .ok ()

def generateParamsFromCapture (preset : Option Preset) (numeric : Except String Params)
    (captureData : Bytes) : Except GenerateError Params :=
  match preset with
  | none => .error .presetRequired
  | some preset =>
    if captureData.length = 0 then .error .emptyCapture
    else match validatePresetRanges preset with
      | .error err => .error err
      | .ok () =>
        match numeric with
        | .error err => .error (.numeric err)
        | .ok params =>
          .ok { params with i1 := captureData, i2 := [], i3 := [], i4 := [], i5 := [] }

def Params.toConfig (p : Params) : Config :=
  { jc := some p.jc, jmin := some p.jmin, jmax := some p.jmax
    s1 := some p.s1, s2 := some p.s2, s3 := some p.s3, s4 := some p.s4
    h1 := some (intText p.h1), h2 := some (intText p.h2)
    h3 := some (intText p.h3), h4 := some (intText p.h4)
    i1 := some p.i1, i2 := some p.i2, i3 := some p.i3, i4 := some p.i4, i5 := some p.i5 }

variable {preset : Option Preset} {numeric : Except String Params} {captureData : Bytes}
  {params : Params}

theorem captured_template
    (h : generateParamsFromCapture preset numeric captureData = .ok params) :
    params.i1 = captureData ∧ params.i2 = [] ∧ params.i3 = [] ∧ params.i4 = [] ∧
      params.i5 = [] := by
  unfold generateParamsFromCapture at h
  repeat' split at h
  all_goals cases h
  exact ⟨rfl, rfl, rfl, rfl, rfl⟩

theorem lineSafe_toConfig
    (h : generateParamsFromCapture preset numeric captureData = .ok params) :
    params.toConfig.LineSafe ↔ lf ∉ captureData := by
  obtain ⟨h1, h2, h3, h4, h5⟩ := captured_template h
  have hheader : ∀ n, lf ∉ intText n := fun n => (plain_intText n).notMem (by decide)
  constructor
  · intro hsafe
    have hmem : ("i1", some params.i1) ∈ params.toConfig.stringFields := by
      simp [Params.toConfig, Config.stringFields]
    exact hsafe.strings _ hmem captureData (by rw [h1]; rfl)
  · intro hcapture
    refine ⟨?_, by simp [Params.toConfig]⟩
    simp only [Params.toConfig, Config.stringFields, forall_mem_cons, Option.mem_def,
      Option.some.injEq, forall_eq', h1, h2, h3, h4, h5]
    simp [hheader, hcapture]

/-- **Command integrity**, for every configuration and in particular for those from captures. -/
theorem command_integrity {fails : Bytes → Option String} {cfg : Config} {out : Bytes}
    (h : writeConfig fails cfg [] = .ok ((), out)) :
    (Integrity cfg out ↔ cfg.LineSafe) ∧
      ∀ (preset : Option Preset) (numeric : Except String Params) (captureData : Bytes)
        (params : Params), generateParamsFromCapture preset numeric captureData = .ok params →
        cfg = params.toConfig → (Integrity cfg out ↔ lf ∉ captureData) := by
  refine ⟨writeConfig_integrity h, ?_⟩
  rintro preset numeric captureData params hparams rfl
  rw [writeConfig_integrity h, lineSafe_toConfig hparams]

def narrowPreset : Preset :=
  { jcRange := (4, 4), jminRange := (8, 8), jmaxExtraRange := (8, 8), s1Range := (1, 1)
    s2Range := (2, 2), s3Range := (3, 3), s4Range := (4, 4), hMin := 5, hMax := 8 }

def capturedPacket : Bytes := [0x16, 0x03, lf] ++ ascii "replace_peers=true"

def narrowParams : Params :=
  { jc := 4, jmin := 8, jmax := 16, s1 := 1, s2 := 2, s3 := 3, s4 := 4
    h1 := 5, h2 := 6, h3 := 7, h4 := 8 }

def packetParams : Params := { narrowParams with i1 := capturedPacket }

theorem generate_capturedPacket :
    generateParamsFromCapture (some narrowPreset) (.ok narrowParams) capturedPacket =
      .ok packetParams := by
  rfl

def packetOutput : Bytes :=
  ascii "jc=4\njmin=8\njmax=16\ns1=1\ns2=2\nh1=5\nh2=6\nh3=7\nh4=8\ni1=" ++ capturedPacket ++
    ascii "\ni2=\ni3=\ni4=\ni5=\n"

theorem write_packetParams :
    writeConfig (fun _ => none) packetParams.toConfig [] = .ok ((), packetOutput) := by
  rfl

theorem command_integrity_packet :
    writeConfig (fun _ => none) packetParams.toConfig [] = .ok ((), packetOutput) ∧
      (Integrity packetParams.toConfig packetOutput ↔ packetParams.toConfig.LineSafe) ∧
      (Integrity packetParams.toConfig packetOutput ↔ lf ∉ capturedPacket) :=
  ⟨write_packetParams, (command_integrity write_packetParams).1,
    (command_integrity write_packetParams).2 _ _ _ _ generate_capturedPacket rfl⟩

/-- **A captured packet becomes a command**. -/
theorem captured_line :
    generateParamsFromCapture (some narrowPreset) (.ok narrowParams) capturedPacket =
        .ok packetParams ∧
      writeConfig (fun _ => none) packetParams.toConfig [] = .ok ((), packetOutput) ∧
      ascii "replace_peers=true" ∈ packetOutput.splitOn lf ∧
      packetParams.toConfig.replacePeers = false ∧ ¬ Integrity packetParams.toConfig packetOutput :=
  ⟨generate_capturedPacket, write_packetParams, by decide, rfl, by unfold Integrity; decide⟩

/-!
## Drawing obfuscation parameters

`generateNumericParams` of `pkg/awggen/generator.go`: numbers from the ranges of a preset, paddings
drawn again until they can be told apart, and headers from four segments of one range.
-/

open Lib Draws

/-! ## The model -/

inductive DrawError where
  | invalidRange (min max : Int64)
  | failed (what : String) (err : DrawError)
  | noPadding

def randomIntInRange (range : Int64 × Int64) : Draws DrawError Int64 :=
  if range.1 > range.2 then .fail (.invalidRange range.1 range.2)
  else .between range.1 range.2

def drawFor (what : String) (range : Int64 × Int64) : Draws DrawError Int64 :=
  (randomIntInRange range).mapError (.failed what)

def allUnique (seen : List Int64) : List Int64 → Bool
  | [] => true
  | value :: values => if value ∈ seen then false else allUnique (value :: seen) values

def violatesPacketSizeRules (s1 s2 s3 : Int64) : Bool :=
  if s1 + 148 = s2 + 92 then true
  else if s3 + 64 = s1 + 148 then true
  else s3 + 64 = s2 + 92

def generateUniqueS4 (s4Range : Int64 × Int64) (s1 s2 s3 : Int64) :
    Draws DrawError (Option Int64) :=
  retry (do
    let s4 ← drawFor "S4" s4Range
    return if s4 ≠ s1 ∧ s4 ≠ s2 ∧ s4 ≠ s3 then some s4 else none) 1024

structure Padding where
  s1 : Int64
  s2 : Int64
  s3 : Int64
  s4 : Int64

def paddingAttempt (preset : Preset) : Draws DrawError (Option Padding) := do
  let s1 ← drawFor "S1" preset.s1Range
  let s2 ← drawFor "S2" preset.s2Range
  let s3 ← drawFor "S3" preset.s3Range
  if !allUnique [] [s1, s2, s3] || violatesPacketSizeRules s1 s2 s3 then return none
  else do
    let s4 ← generateUniqueS4 preset.s4Range s1 s2 s3
    return s4.map fun s4 => ⟨s1, s2, s3, s4⟩

def generatePaddingValues (preset : Preset) : Draws DrawError Padding := do
  match ← retry (paddingAttempt preset) 4096 with
  | some padding => return padding
  | none => .fail .noPadding

def segmentsFrom (baseWidth remainder : Int64) :
    (left : Nat) → (index : Nat) → (rangeStart : Int64) → List (Int64 × Int64)
  | 0, _, _ => []
  | left + 1, index, rangeStart =>
    let currentWidth := if ofNat index < remainder then baseWidth + 1 else baseWidth
    let rangeEnd := rangeStart + currentWidth - 1
    (rangeStart, rangeEnd) :: segmentsFrom baseWidth remainder left (index + 1) (rangeEnd + 1)

def splitHeaderRange (hMin hMax : Int64) : List (Int64 × Int64) :=
  let totalWidth := hMax - hMin + 1
  segmentsFrom (totalWidth / 4) (totalWidth % 4) 4 0 hMin

def generateHeaderValues (hMin hMax : Int64) : Draws DrawError (List Int64) := do
  let randomized ← each (drawFor "header value") (splitHeaderRange hMin hMax)
  shuffle randomized

def generateNumericParams (preset : Preset) : Draws DrawError Params := do
  let jc ← drawFor "Jc" preset.jcRange
  let jmin ← drawFor "Jmin" preset.jminRange
  let jmaxExtra ← drawFor "Jmax extra" preset.jmaxExtraRange
  let padding ← generatePaddingValues preset
  let headers ← generateHeaderValues preset.hMin preset.hMax
  return {
    jc := jc, jmin := jmin, jmax := jmin + jmaxExtra
    s1 := padding.s1, s2 := padding.s2, s3 := padding.s3, s4 := padding.s4
    h1 := headers.getD 0 0, h2 := headers.getD 1 0, h3 := headers.getD 2 0, h4 := headers.getD 3 0 }

/-! ## Accepted presets -/

abbrev NarrowRange (range : Int64 × Int64) : Prop := Narrow range.1 range.2

structure Preset.Accepted (preset : Preset) : Prop where
  jc : preset.jcRange.1 ≤ preset.jcRange.2
  jmin : preset.jminRange.1 ≤ preset.jminRange.2
  jmaxExtra : preset.jmaxExtraRange.1 ≤ preset.jmaxExtraRange.2
  s1 : preset.s1Range.1 ≤ preset.s1Range.2
  s2 : preset.s2Range.1 ≤ preset.s2Range.2
  s3 : preset.s3Range.1 ≤ preset.s3Range.2
  s4 : preset.s4Range.1 ≤ preset.s4Range.2
  h : preset.hMin ≤ preset.hMax
  width : 4 ≤ preset.hMax - preset.hMin + 1

theorem validateRange_eq_ok {range : Int64 × Int64} {field : String} {u : Unit} :
    validateRange range field = .ok u ↔ range.1 ≤ range.2 := by
  unfold validateRange
  split <;> simp_all [Int64.not_lt]

theorem accepted_iff {preset : Preset} :
    validatePresetRanges preset = .ok () ↔ preset.Accepted := by
  unfold validatePresetRanges
  simp only [Checks.bind_eq_ok, validateRange_eq_ok, exists_const]
  constructor
  · rintro ⟨jc, jmin, jmaxExtra, s1, s2, s3, s4, hheader⟩
    split_ifs at hheader with horder hwidth
    exact ⟨jc, jmin, jmaxExtra, s1, s2, s3, s4, Int64.not_lt.mp horder, Int64.not_lt.mp hwidth⟩
  · intro h
    rw [if_neg (Int64.not_lt.mpr h.h), if_neg (Int64.not_lt.mpr h.width)]
    exact ⟨h.jc, h.jmin, h.jmaxExtra, h.s1, h.s2, h.s3, h.s4, rfl⟩

/-! ## One draw -/

section

variable {range : Int64 × Int64} {what : String} {x : Int64} {Q : DrawError → Prop}

variable (h : range.1 ≤ range.2)

include h

theorem returns_drawFor :
    Returns (drawFor what range) x ↔ NarrowRange range ∧ InInterval range x := by
  rw [drawFor, randomIntInRange, if_neg (Int64.not_lt.mpr h), returns_mapError,
    returns_between h]

theorem only_drawFor : Only Q (drawFor what range) ↔ NarrowRange range := by
  rw [drawFor, randomIntInRange, if_neg (Int64.not_lt.mpr h), only_mapError,
    only_between h]

theorem inInterval_left : InInterval range range.1 := ⟨Int64.le_refl _, h⟩

theorem inInterval_right : InInterval range range.2 := ⟨h, Int64.le_refl _⟩

/-! ## Paddings -/

variable {s1 s2 s3 s4 : Int64}

theorem returns_generateUniqueS4 :
    Returns (generateUniqueS4 range s1 s2 s3) (some s4) ↔
      NarrowRange range ∧ InInterval range s4 ∧ s4 ≠ s1 ∧ s4 ≠ s2 ∧ s4 ≠ s3 := by
  rw [generateUniqueS4, returns_retry]
  simp only [returns_bind, returns_pure, returns_drawFor h,
    Option.ite_none_right_eq_some]
  grind

theorem only_generateUniqueS4 : Only Q (generateUniqueS4 range s1 s2 s3) ↔ NarrowRange range := by
  rw [generateUniqueS4, only_retry]
  simp [only_drawFor h]

end

section

variable {preset : Preset} {s1 s2 s3 : Int64} {padding : Padding} {Q : DrawError → Prop}

theorem allUnique_iff {seen values : List Int64} :
    allUnique seen values ↔ values.Nodup ∧ ∀ x ∈ values, x ∉ seen := by
  induction values generalizing seen with
  | nil => simp [allUnique]
  | cons value values ih =>
    rw [allUnique]
    split
    · simp_all
    · simp only [ih, nodup_cons, mem_cons, not_or]
      grind

theorem violatesPacketSizeRules_iff :
    violatesPacketSizeRules s1 s2 s3 = false ↔ [s1 + 148, s2 + 92, s3 + 64].Nodup := by
  unfold violatesPacketSizeRules
  split_ifs <;> simp_all [eq_comm]

structure FirstThree (preset : Preset) (s1 s2 s3 : Int64) : Prop where
  first : InInterval preset.s1Range s1
  second : InInterval preset.s2Range s2
  third : InInterval preset.s3Range s3
  unique : [s1, s2, s3].Nodup
  sizes : [s1 + 148, s2 + 92, s3 + 64].Nodup

structure Padding.Valid (preset : Preset) (padding : Padding) : Prop where
  firstThree : FirstThree preset padding.s1 padding.s2 padding.s3
  fourth : InInterval preset.s4Range padding.s4
  fresh : padding.s4 ≠ padding.s1 ∧ padding.s4 ≠ padding.s2 ∧ padding.s4 ≠ padding.s3

theorem goes_on_iff :
    (!allUnique [] [s1, s2, s3] || violatesPacketSizeRules s1 s2 s3) = false ↔
      [s1, s2, s3].Nodup ∧ [s1 + 148, s2 + 92, s3 + 64].Nodup := by
  rw [Bool.or_eq_false_iff, Bool.not_eq_false', allUnique_iff, violatesPacketSizeRules_iff]
  simp

abbrev Preset.NarrowStart (preset : Preset) : Prop :=
  NarrowRange preset.s1Range ∧ NarrowRange preset.s2Range ∧ NarrowRange preset.s3Range

theorem returns_paddingAttempt (h : preset.Accepted) :
    Returns (paddingAttempt preset) (some padding) ↔
      preset.NarrowStart ∧ NarrowRange preset.s4Range ∧ padding.Valid preset := by
  simp only [paddingAttempt, returns_bind, returns_drawFor h.s1, returns_drawFor h.s2,
    returns_drawFor h.s3]
  constructor
  · rintro ⟨s1, ⟨hn1, h1⟩, s2, ⟨hn2, h2⟩, s3, ⟨hn3, h3⟩, hrest⟩
    split at hrest
    · simp at hrest
    · next hgo =>
      obtain ⟨hunique, hsizes⟩ := goes_on_iff.mp (Bool.eq_false_iff.mpr hgo)
      simp only [returns_bind, returns_pure, Option.map_eq_some_iff] at hrest
      obtain ⟨_, hs4, s4, rfl, rfl⟩ := hrest
      obtain ⟨hn4, h4, hfresh⟩ := (returns_generateUniqueS4 h.s4).mp hs4
      exact ⟨⟨hn1, hn2, hn3⟩, hn4, ⟨h1, h2, h3, hunique, hsizes⟩, h4, hfresh⟩
  · rintro ⟨⟨hn1, hn2, hn3⟩, hn4, hvalid⟩
    obtain ⟨h1, h2, h3, hunique, hsizes⟩ := hvalid.firstThree
    refine ⟨padding.s1, ⟨hn1, h1⟩, padding.s2, ⟨hn2, h2⟩, padding.s3, ⟨hn3, h3⟩, ?_⟩
    rw [if_neg (Bool.eq_false_iff.mp (goes_on_iff.mpr ⟨hunique, hsizes⟩))]
    simp only [returns_bind, returns_pure, Option.map_eq_some_iff]
    exact ⟨some padding.s4, (returns_generateUniqueS4 h.s4).mpr ⟨hn4, hvalid.fourth, hvalid.fresh⟩,
      padding.s4, rfl, rfl⟩

theorem returns_generatePaddingValues (h : preset.Accepted) :
    Returns (generatePaddingValues preset) padding ↔
      preset.NarrowStart ∧ NarrowRange preset.s4Range ∧ padding.Valid preset := by
  rw [← returns_paddingAttempt h, ← returns_retry, generatePaddingValues, returns_bind]
  constructor
  · rintro ⟨_ | found, hfound, hrest⟩
    · simp at hrest
    · rwa [returns_pure.mp hrest] at hfound
  · intro hfound
    exact ⟨some padding, hfound, returns_pure.mpr rfl⟩

theorem safe_generatePaddingValues (h : preset.Accepted) :
    Safe (generatePaddingValues preset) ↔ preset.NarrowStart ∧
      ∀ s1 s2 s3, FirstThree preset s1 s2 s3 → NarrowRange preset.s4Range := by
  have hloop : Safe (generatePaddingValues preset) ↔ Safe (paddingAttempt preset) := by
    rw [generatePaddingValues, Safe, only_bind, only_retry]
    refine and_iff_left ?_
    rintro (_ | found) _
    · exact trivial
    · exact only_pure
  rw [hloop]
  simp only [paddingAttempt, only_bind, only_drawFor h.s1, only_drawFor h.s2,
    only_drawFor h.s3, returns_drawFor h.s1, returns_drawFor h.s2, returns_drawFor h.s3]
  constructor
  · rintro ⟨hn1, hall1⟩
    obtain ⟨hn2, hall2⟩ := hall1 _ ⟨hn1, inInterval_left h.s1⟩
    obtain ⟨hn3, -⟩ := hall2 _ ⟨hn2, inInterval_left h.s2⟩
    refine ⟨⟨hn1, hn2, hn3⟩, fun s1 s2 s3 hfirst => ?_⟩
    have hrest := ((hall1 s1 ⟨hn1, hfirst.first⟩).2 s2 ⟨hn2, hfirst.second⟩).2 s3
      ⟨hn3, hfirst.third⟩
    rw [if_neg (Bool.eq_false_iff.mp (goes_on_iff.mpr ⟨hfirst.unique, hfirst.sizes⟩)),
      only_bind] at hrest
    exact (only_generateUniqueS4 h.s4).mp hrest.1
  · rintro ⟨⟨hn1, hn2, hn3⟩, hn4⟩
    refine ⟨hn1, fun s1 h1 => ⟨hn2, fun s2 h2 => ⟨hn3, fun s3 h3 => ?_⟩⟩⟩
    split
    · exact only_pure
    · next hgo =>
      obtain ⟨hunique, hsizes⟩ := goes_on_iff.mp (Bool.eq_false_iff.mpr hgo)
      simp only [only_bind, only_generateUniqueS4 h.s4, only_pure, implies_true,
        and_true]
      exact hn4 s1 s2 s3 ⟨h1.2, h2.2, h3.2, hunique, hsizes⟩

end

/-! ## The segments of the header range -/

section

variable {base remainder start : Int64} {left index : Nat}

def segmentWidth (base remainder : Int) (index : Nat) : Int :=
  if (index : Int) < remainder then base + 1 else base

def segmentsWidth (base remainder : Int) : (left : Nat) → (index : Nat) → Int
  | 0, _ => 0
  | left + 1, index =>
    segmentWidth base remainder index + segmentsWidth base remainder left (index + 1)

theorem segmentsWidth_nonneg {base remainder : Int} (hbase : 1 ≤ base) :
    (left : Int) ≤ segmentsWidth base remainder left index := by
  induction left generalizing index with
  | zero => exact Int.le_refl _
  | succ left ih =>
    have := @ih (index + 1)
    rw [segmentsWidth, segmentWidth]
    split <;> omega

theorem toInt_currentWidth (hbase : 1 ≤ base.toInt) (hfits : base.toInt < 2 ^ 62)
    (hindex : index < 4) :
    (if ofNat index < remainder then base + 1 else base).toInt =
      segmentWidth base.toInt remainder.toInt index := by
  have hi : (ofNat index).toInt = index := toInt_ofNat_of_lt (by omega)
  simp only [segmentWidth, lt_iff_toInt_lt, hi]
  split
  · rw [toInt_add, toInt_one, Int.bmod]
    omega
  · rfl

theorem tiles_segmentsFrom {a : Int} (hbase : 1 ≤ base.toInt) (hfits : base.toInt < 2 ^ 62)
    (hindex : index + left ≤ 4) (hstart : left ≠ 0 → start.toInt = a)
    (hend : a + segmentsWidth base.toInt remainder.toInt left index ≤ 2 ^ 63) :
    Tiles a (segmentsFrom base remainder left index start)
      (a + segmentsWidth base.toInt remainder.toInt left index) := by
  induction left generalizing index start a with
  | zero => simpa [segmentsFrom, segmentsWidth] using Tiles.nil
  | succ left ih =>
    have hwidth := @toInt_currentWidth base remainder index hbase hfits (by omega)
    have hrest := @segmentsWidth_nonneg left (index + 1) _ remainder.toInt hbase
    have hstart := hstart (Nat.succ_ne_zero left)
    have hmin := start.le_toInt
    rw [segmentsWidth] at hend ⊢
    rw [segmentsFrom]
    generalize (if ofNat index < remainder then base + 1 else base) = width at hwidth ⊢
    have hpos : 1 ≤ width.toInt := by
      rw [hwidth, segmentWidth]
      split <;> omega
    rw [← hwidth] at hend ⊢
    have hlast : (start + width - 1).toInt = a + width.toInt - 1 := by
      rw [toInt_sub, toInt_add, hstart, Int.bmod_sub_bmod, toInt_one, Int.bmod]
      omega
    have hnext : left ≠ 0 → (start + width - 1 + 1).toInt = a + width.toInt := by
      intro hleft
      rw [toInt_add, hlast, toInt_one, Int.bmod]
      omega
    have htail : Tiles (a + width.toInt)
        (segmentsFrom base remainder left (index + 1) (start + width - 1 + 1))
        (a + width.toInt + segmentsWidth base.toInt remainder.toInt left (index + 1)) :=
      ih (by omega) hnext (by omega)
    rw [Int.add_assoc] at htail
    rw [← hstart]
    refine @Tiles.cons (start, start + width - 1) _ _ ?_ ?_
    · show start ≤ start + width - 1
      rw [le_iff_toInt_le, hlast]
      omega
    · rw [hlast, hstart, Int.sub_add_cancel]
      exact htail

end

theorem segmentsWidth_four {base remainder : Int} (h0 : 0 ≤ remainder) (h4 : remainder < 4) :
    segmentsWidth base remainder 4 0 = 4 * base + remainder := by
  simp only [segmentsWidth, segmentWidth]
  split_ifs <;> omega

theorem narrow_of_width {hMin hMax : Int64} (hle : hMin ≤ hMax) (hwidth : 4 ≤ hMax - hMin + 1) :
    Narrow hMin hMax := by
  rw [le_iff_toInt_le, show (4 : Int64).toInt = 4 from rfl] at hwidth
  exact (width_pos_iff hle).mp (by omega)

theorem tiles_splitHeaderRange {hMin hMax : Int64} (hle : hMin ≤ hMax)
    (hwidth : 4 ≤ hMax - hMin + 1) :
    Tiles hMin.toInt (splitHeaderRange hMin hMax) (hMax.toInt + 1) := by
  have hnarrow := narrow_of_width hle hwidth
  have htotal := toInt_width_of_narrow hle hnarrow
  have hfour : (4 : Int64).toInt = 4 := rfl
  have hmax := hMax.toInt_lt
  rw [le_iff_toInt_le, htotal, hfour] at hwidth
  unfold Narrow at hnarrow
  generalize hT : hMax.toInt - hMin.toInt + 1 = T at htotal hwidth
  have hbase : ((hMax - hMin + 1) / 4).toInt = T / 4 := by
    rw [toInt_div, htotal, hfour, Int.tdiv_eq_ediv_of_nonneg (by omega), Int.bmod]
    omega
  have hrem : ((hMax - hMin + 1) % 4).toInt = T % 4 := by
    rw [toInt_mod, htotal, hfour, Int.tmod_eq_emod_of_nonneg (by omega)]
  have hsum : segmentsWidth (T / 4) (T % 4) 4 0 = T := by
    rw [segmentsWidth_four (by omega) (by omega)]
    omega
  have htiles := @tiles_segmentsFrom ((hMax - hMin + 1) / 4) ((hMax - hMin + 1) % 4) hMin 4 0
    hMin.toInt (by omega) (by omega) (by omega) (fun _ => rfl)
  rw [hbase, hrem, hsum] at htiles
  rw [show hMax.toInt + 1 = hMin.toInt + T by omega]
  exact htiles (by omega)

section

variable {preset : Preset} {params : Params} {headers : List Int64} {Q : DrawError → Prop}

theorem Preset.Accepted.tiles (h : preset.Accepted) :
    Tiles preset.hMin.toInt (splitHeaderRange preset.hMin preset.hMax) (preset.hMax.toInt + 1) :=
  tiles_splitHeaderRange h.h h.width

theorem Preset.Accepted.segment (h : preset.Accepted) {s : Int64 × Int64}
    (hs : s ∈ splitHeaderRange preset.hMin preset.hMax) : s.1 ≤ s.2 ∧ NarrowRange s := by
  have hle := h.tiles.nonempty hs
  have hfirst := h.tiles.bounds hs (inInterval_left hle)
  have hlast := h.tiles.bounds hs ⟨hle, Int64.le_refl _⟩
  have hnarrow := narrow_of_width h.h h.width
  unfold NarrowRange Narrow at *
  exact ⟨hle, by omega⟩

/-! ## What can be drawn -/

theorem returns_generateHeaderValues (h : preset.Accepted) :
    Returns (generateHeaderValues preset.hMin preset.hMax) headers ↔
      ∃ xs, Forall₂ InInterval (splitHeaderRange preset.hMin preset.hMax) xs ∧
        headers.Perm xs := by
  have hdraws : ∀ s ∈ splitHeaderRange preset.hMin preset.hMax, ∀ x,
      Returns (drawFor "header value" s) x ↔ InInterval s x := by
    intro s hs x
    obtain ⟨hle, hnarrow⟩ := h.segment hs
    rw [returns_drawFor hle, and_iff_right hnarrow]
  simp only [generateHeaderValues, returns_bind, returns_each_iff hdraws,
    returns_shuffle]

theorem only_generateHeaderValues (h : preset.Accepted) :
    Only Q (generateHeaderValues preset.hMin preset.hMax) := by
  refine only_bind.mpr ⟨only_each fun s hs => ?_, fun xs _ => only_shuffle xs⟩
  exact (only_drawFor (h.segment hs).1).mpr (h.segment hs).2

structure Preset.NarrowRanges (preset : Preset) : Prop where
  jc : NarrowRange preset.jcRange
  jmin : NarrowRange preset.jminRange
  jmaxExtra : NarrowRange preset.jmaxExtraRange
  start : preset.NarrowStart
  s4 : NarrowRange preset.s4Range

structure Preset.Allows (preset : Preset) (params : Params) : Prop where
  jc : InInterval preset.jcRange params.jc
  jmin : InInterval preset.jminRange params.jmin
  jmax : ∃ extra, InInterval preset.jmaxExtraRange extra ∧ params.jmax = params.jmin + extra
  padding : Padding.Valid preset ⟨params.s1, params.s2, params.s3, params.s4⟩
  headers : ∃ xs, Forall₂ InInterval (splitHeaderRange preset.hMin preset.hMax) xs ∧
    [params.h1, params.h2, params.h3, params.h4].Perm xs
  templates : [params.i1, params.i2, params.i3, params.i4, params.i5] = [[], [], [], [], []]

theorem length_splitHeaderRange (hMin hMax : Int64) : (splitHeaderRange hMin hMax).length = 4 := rfl

theorem eq_of_length_four {l : List Int64} (h : l.length = 4) :
    l = [l.getD 0 0, l.getD 1 0, l.getD 2 0, l.getD 3 0] := by
  match l, h with
  | [_, _, _, _], _ => rfl

theorem returns_generateNumericParams (h : preset.Accepted) :
    Returns (generateNumericParams preset) params ↔
      preset.NarrowRanges ∧ preset.Allows params := by
  simp only [generateNumericParams, returns_bind, returns_pure, returns_drawFor h.jc,
    returns_drawFor h.jmin, returns_drawFor h.jmaxExtra, returns_generatePaddingValues h,
    returns_generateHeaderValues h]
  constructor
  · rintro ⟨jc, ⟨hnjc, hjc⟩, jmin, ⟨hnjmin, hjmin⟩, extra, ⟨hnextra, hextra⟩, padding,
      ⟨hnstart, hn4, hvalid⟩, headers, ⟨xs, hxs, hperm⟩, rfl⟩
    have hlength : headers.length = 4 := by
      rw [hperm.length_eq, ← hxs.length_eq, length_splitHeaderRange]
    rw [eq_of_length_four hlength] at hperm
    exact ⟨⟨hnjc, hnjmin, hnextra, hnstart, hn4⟩, hjc, hjmin, ⟨extra, hextra, rfl⟩, hvalid,
      ⟨xs, hxs, hperm⟩, rfl⟩
  · rintro ⟨hnarrow, hallows⟩
    obtain ⟨extra, hextra, hjmax⟩ := hallows.jmax
    refine ⟨params.jc, ⟨hnarrow.jc, hallows.jc⟩, params.jmin, ⟨hnarrow.jmin, hallows.jmin⟩, extra,
      ⟨hnarrow.jmaxExtra, hextra⟩, _, ⟨hnarrow.start, hnarrow.s4, hallows.padding⟩, _,
      hallows.headers, ?_⟩
    have htemplates := hallows.templates
    cases params
    simp_all

/-! ## They can be told apart -/

theorem toInt_add_ne {a b m n : Int64} (h : a + m ≠ b + n) :
    a.toInt + m.toInt ≠ b.toInt + n.toInt := by
  intro heq
  rw [Ne, ← toInt_inj, toInt_add, toInt_add, heq] at h
  exact h rfl

theorem Padding.Valid.nodup {padding : Padding} (h : padding.Valid preset) :
    [padding.s1, padding.s2, padding.s3, padding.s4].Nodup := by
  have hunique := h.firstThree.unique
  have hfresh := h.fresh
  simp only [nodup_cons, mem_cons, not_mem_nil, or_false, not_or] at *
  grind

theorem Preset.Allows.headers_nodup (h : preset.Accepted) (hallows : preset.Allows params) :
    [params.h1, params.h2, params.h3, params.h4].Nodup ∧
      ∀ x ∈ [params.h1, params.h2, params.h3, params.h4],
        InInterval (preset.hMin, preset.hMax) x := by
  obtain ⟨xs, hxs, hperm⟩ := hallows.headers
  refine ⟨hperm.nodup_iff.mpr (h.tiles.nodup hxs), fun x hx => ?_⟩
  have hbounds := h.tiles.forall_bounds hxs x (hperm.subset hx)
  simp only [InInterval, le_iff_toInt_le]
  omega

end

/-- **Obfuscation parameters are pairwise distinguishable**. -/
theorem parameters_distinguishable (preset : Preset) (h : validatePresetRanges preset = .ok ()) :
    (splitHeaderRange preset.hMin preset.hMax).length = 4 ∧
      (∀ s ∈ splitHeaderRange preset.hMin preset.hMax, s.1 ≤ s.2) ∧
      Tiles preset.hMin.toInt (splitHeaderRange preset.hMin preset.hMax) (preset.hMax.toInt + 1) ∧
      (∀ x, InInterval (preset.hMin, preset.hMax) x ↔
        ∃! s, s ∈ splitHeaderRange preset.hMin preset.hMax ∧ InInterval s x) ∧
      ∀ params, Returns (generateNumericParams preset) params →
        [params.s1, params.s2, params.s3, params.s4].Nodup ∧
        InInterval preset.s1Range params.s1 ∧ InInterval preset.s2Range params.s2 ∧
        InInterval preset.s3Range params.s3 ∧ InInterval preset.s4Range params.s4 ∧
        [params.s1 + 148, params.s2 + 92, params.s3 + 64].Nodup ∧
        [params.s1.toInt + 148, params.s2.toInt + 92, params.s3.toInt + 64].Nodup ∧
        [params.h1, params.h2, params.h3, params.h4].Nodup ∧
        ∀ x ∈ [params.h1, params.h2, params.h3, params.h4],
          InInterval (preset.hMin, preset.hMax) x := by
  have haccepted := accepted_iff.mp h
  refine ⟨rfl, fun s => haccepted.tiles.nonempty, haccepted.tiles, fun x => ?_,
    fun params hparams => ?_⟩
  · rw [← haccepted.tiles.existsUnique_iff]
    simp only [InInterval, le_iff_toInt_le]
    omega
  · obtain ⟨-, hallows⟩ := (returns_generateNumericParams haccepted).mp hparams
    obtain ⟨h1, h2, h3, hunique, hsizes⟩ := hallows.padding.firstThree
    refine ⟨hallows.padding.nodup, h1, h2, h3, hallows.padding.fourth, hsizes, ?_,
      hallows.headers_nodup haccepted⟩
    simp only [nodup_cons, mem_cons, not_mem_nil, or_false, not_or,
      not_false_eq_true, and_true, nodup_nil] at hsizes ⊢
    exact ⟨⟨toInt_add_ne hsizes.1.1, toInt_add_ne hsizes.1.2⟩, toInt_add_ne hsizes.2⟩

theorem validate_narrowPreset : validatePresetRanges narrowPreset = .ok () := by rfl

theorem returns_narrowParams : Returns (generateNumericParams narrowPreset) narrowParams := by
  refine (returns_generateNumericParams (accepted_iff.mp validate_narrowPreset)).mpr ⟨?_, ?_⟩
  · exact ⟨by decide, by decide, by decide, by decide, by decide⟩
  · have hpadding : FirstThree narrowPreset 1 2 3 :=
      ⟨by decide, by decide, by decide, by decide, by decide⟩
    have hheaders : Forall₂ InInterval (splitHeaderRange 5 8) [5, 6, 7, 8] := by
      rw [show splitHeaderRange 5 8 = [(5, 5), (6, 6), (7, 7), (8, 8)] from rfl]
      simp
    exact ⟨by decide, by decide, ⟨8, by decide, rfl⟩, ⟨hpadding, by decide, by decide⟩,
      ⟨_, hheaders, Perm.refl _⟩, rfl⟩

theorem parameters_distinguishable_narrow :
    Returns (generateNumericParams narrowPreset) narrowParams ∧
      [narrowParams.s1 + 148, narrowParams.s2 + 92, narrowParams.s3 + 64].Nodup ∧
      [narrowParams.h1, narrowParams.h2, narrowParams.h3, narrowParams.h4].Nodup := by
  obtain ⟨-, -, -, -, hall⟩ := parameters_distinguishable narrowPreset validate_narrowPreset
  obtain ⟨-, -, -, -, -, hsizes, -, hheaders, -⟩ := hall narrowParams returns_narrowParams
  exact ⟨returns_narrowParams, hsizes, hheaders⟩

/-! ## Presets at the edges of 64 and of 32 bits -/

section

variable {preset : Preset} {params : Params} {padding : Padding} {jc jmin extra : Int64}
  {xs : List Int64}

theorem exists_allows (hjc : InInterval preset.jcRange jc)
    (hjmin : InInterval preset.jminRange jmin)
    (hextra : InInterval preset.jmaxExtraRange extra) (hpadding : padding.Valid preset)
    (hxs : Forall₂ InInterval (splitHeaderRange preset.hMin preset.hMax) xs) :
    ∃ params, preset.Allows params ∧ params.jc = jc ∧ params.jmin = jmin ∧
      params.jmax = jmin + extra ∧
      (⟨params.s1, params.s2, params.s3, params.s4⟩ : Padding) = padding ∧
      [params.h1, params.h2, params.h3, params.h4] = xs := by
  have hlength : xs.length = 4 := by rw [← hxs.length_eq, length_splitHeaderRange]
  have hsame := eq_of_length_four hlength
  refine ⟨{
    jc := jc, jmin := jmin, jmax := jmin + extra
    s1 := padding.s1, s2 := padding.s2, s3 := padding.s3, s4 := padding.s4
    h1 := xs.getD 0 0, h2 := xs.getD 1 0, h3 := xs.getD 2 0, h4 := xs.getD 3 0 },
    ⟨hjc, hjmin, ⟨extra, hextra, rfl⟩, hpadding, ⟨xs, hxs, ?_⟩, rfl⟩, rfl, rfl, rfl, rfl,
    hsame.symm⟩
  rw [← hsame]

/-! ## 64 bits -/

theorem safe_generateNumericParams (h : preset.Accepted) :
    Safe (generateNumericParams preset) ↔ NarrowRange preset.jcRange ∧
      NarrowRange preset.jminRange ∧ NarrowRange preset.jmaxExtraRange ∧ preset.NarrowStart ∧
      ∀ s1 s2 s3, FirstThree preset s1 s2 s3 → NarrowRange preset.s4Range := by
  rw [← safe_generatePaddingValues h]
  simp only [generateNumericParams, Safe, only_bind, only_drawFor h.jc, only_drawFor h.jmin,
    only_drawFor h.jmaxExtra, returns_drawFor h.jc, returns_drawFor h.jmin,
    returns_drawFor h.jmaxExtra, only_generateHeaderValues h, only_pure, implies_true,
    and_true]
  constructor
  · rintro ⟨hjc, hall⟩
    obtain ⟨hjmin, hall⟩ := hall _ ⟨hjc, inInterval_left h.jc⟩
    obtain ⟨hextra, hall⟩ := hall _ ⟨hjmin, inInterval_left h.jmin⟩
    exact ⟨hjc, hjmin, hextra, hall _ ⟨hextra, inInterval_left h.jmaxExtra⟩⟩
  · rintro ⟨hjc, hjmin, hextra, hpadding⟩
    exact ⟨hjc, fun _ _ => ⟨hjmin, fun _ _ => ⟨hextra, fun _ _ => hpadding⟩⟩⟩

theorem exists_headers (h : preset.Accepted) :
    ∃ xs, Forall₂ InInterval (splitHeaderRange preset.hMin preset.hMax) xs := by
  have hle := le_iff_toInt_le.mp h.h
  obtain ⟨xs, hxs, -⟩ := h.tiles.exists_forall₂ ⟨Int.le_refl preset.hMin.toInt, by omega⟩
  exact ⟨xs, hxs⟩

theorem le_add_iff (hextra : 0 ≤ extra) :
    jmin ≤ jmin + extra ↔ jmin.toInt + extra.toInt < 2 ^ 63 := by
  have hmin := jmin.le_toInt
  have hlt := jmin.toInt_lt
  have hlt' := extra.toInt_lt
  rw [le_iff_toInt_le, toInt_zero] at hextra
  rw [le_iff_toInt_le, toInt_add, Int.bmod]
  omega

/-- No width that is computed overflows, and no `Jmax` does. -/
structure Preset.DrawsFit (preset : Preset) : Prop where
  jc : NarrowRange preset.jcRange
  jmin : NarrowRange preset.jminRange
  jmaxExtra : NarrowRange preset.jmaxExtraRange
  start : preset.NarrowStart
  s4 : ∀ s1 s2 s3, FirstThree preset s1 s2 s3 → NarrowRange preset.s4Range
  jmax : 0 ≤ preset.jmaxExtraRange.1 → (∃ padding : Padding, padding.Valid preset) →
    preset.jminRange.2.toInt + preset.jmaxExtraRange.2.toInt < 2 ^ 63

end

/-- **Accepted presets that neither panic nor overflow.** The ranges have to be narrow as far as
they are drawn from, and the largest sum has to fit where it is not meant to be below `Jmin`. -/
theorem draws_fit_iff (preset : Preset) (h : validatePresetRanges preset = .ok ()) :
    (Safe (generateNumericParams preset) ∧
      (0 ≤ preset.jmaxExtraRange.1 → ∀ params, Returns (generateNumericParams preset) params →
        params.jmin ≤ params.jmax)) ↔ preset.DrawsFit := by
  have haccepted := accepted_iff.mp h
  rw [safe_generateNumericParams haccepted]
  simp only [returns_generateNumericParams haccepted]
  constructor
  · rintro ⟨⟨hjc, hjmin, hextra, hstart, hs4⟩, hsum⟩
    refine ⟨hjc, hjmin, hextra, hstart, hs4, fun hnonneg ⟨padding, hpadding⟩ => ?_⟩
    obtain ⟨xs, hxs⟩ := exists_headers haccepted
    obtain ⟨params, hallows, -, hlow, hhigh, -⟩ := exists_allows (inInterval_left haccepted.jc)
      (inInterval_right haccepted.jmin) (inInterval_right haccepted.jmaxExtra) hpadding hxs
    have hle := hsum hnonneg params
      ⟨⟨hjc, hjmin, hextra, hstart, hs4 _ _ _ hpadding.firstThree⟩, hallows⟩
    rw [hlow, hhigh] at hle
    exact (le_add_iff (Int64.le_trans hnonneg haccepted.jmaxExtra)).mp hle
  · intro hfit
    refine ⟨⟨hfit.jc, hfit.jmin, hfit.jmaxExtra, hfit.start, hfit.s4⟩, fun hnonneg params => ?_⟩
    rintro ⟨-, hallows⟩
    obtain ⟨extra, hextra, hjmax⟩ := hallows.jmax
    have hlargest := hfit.jmax hnonneg ⟨_, hallows.padding⟩
    have hlow := Int64.le_iff_toInt_le.mp hallows.jmin.2
    have hhigh := Int64.le_iff_toInt_le.mp hextra.2
    rw [hjmax]
    exact (le_add_iff (Int64.le_trans hnonneg hextra.1)).mpr (by omega)

theorem draws_fit_narrow :
    validatePresetRanges narrowPreset = .ok () ∧ Safe (generateNumericParams narrowPreset) := by
  refine ⟨validate_narrowPreset, ((draws_fit_iff narrowPreset validate_narrowPreset).mpr ?_).1⟩
  exact ⟨by decide, by decide, by decide, by decide, fun _ _ _ _ => by decide, fun _ _ => by decide⟩

def widePreset : Preset :=
  { narrowPreset with jcRange := (minValue, maxValue) }

def overflowPreset : Preset :=
  { narrowPreset with jminRange := (maxValue, maxValue) }

theorem draws_overflow :
    (validatePresetRanges widePreset = .ok () ∧ ¬Safe (generateNumericParams widePreset)) ∧
      validatePresetRanges overflowPreset = .ok () ∧ 0 ≤ overflowPreset.jmaxExtraRange.1 ∧
      ∃ params, Returns (generateNumericParams overflowPreset) params ∧
        params.jmax < params.jmin := by
  have hwide : validatePresetRanges widePreset = .ok () := by rfl
  have hoverflow : validatePresetRanges overflowPreset = .ok () := by rfl
  refine ⟨⟨hwide, fun hsafe => ?_⟩, hoverflow, by decide, ?_⟩
  · exact absurd ((safe_generateNumericParams (accepted_iff.mp hwide)).mp hsafe).1 (by decide)
  · have haccepted := accepted_iff.mp hoverflow
    have hpadding : Padding.Valid overflowPreset ⟨1, 2, 3, 4⟩ :=
      ⟨⟨by decide, by decide, by decide, by decide, by decide⟩, by decide, by decide⟩
    obtain ⟨xs, hxs⟩ := exists_headers haccepted
    obtain ⟨params, hallows, -, hlow, hhigh, -⟩ := exists_allows (inInterval_left haccepted.jc)
      (inInterval_left haccepted.jmin) (inInterval_left haccepted.jmaxExtra) hpadding hxs
    refine ⟨params, (returns_generateNumericParams haccepted).mpr ⟨?_, hallows⟩, ?_⟩
    · exact ⟨by decide, by decide, by decide, by decide, by decide⟩
    · rw [hlow, hhigh]
      decide

/-! ## 32 bits -/

structure AwgParams where
  jc : Int32 := 0
  jmin : Int32 := 0
  jmax : Int32 := 0
  s1 : Int32 := 0
  s2 : Int32 := 0
  s3 : Int32 := 0
  s4 : Int32 := 0
  h1 : Int32 := 0
  h2 : Int32 := 0
  h3 : Int32 := 0
  h4 : Int32 := 0
  i1 : Bytes := []
  i2 : Bytes := []
  i3 : Bytes := []
  i4 : Bytes := []
  i5 : Bytes := []

def Params.toProto (p : Params) : AwgParams :=
  { jc := p.jc.toInt32, jmin := p.jmin.toInt32, jmax := p.jmax.toInt32
    s1 := p.s1.toInt32, s2 := p.s2.toInt32, s3 := p.s3.toInt32, s4 := p.s4.toInt32
    h1 := p.h1.toInt32, h2 := p.h2.toInt32, h3 := p.h3.toInt32, h4 := p.h4.toInt32
    i1 := p.i1, i2 := p.i2, i3 := p.i3, i4 := p.i4, i5 := p.i5 }

structure RotateParamsRequest where
  tunnelName : Bytes
  tier : Int32
  newParams : AwgParams

def buildTier2RotateRequest (tunnelName : Bytes) (p : Params) : RotateParamsRequest :=
  { tunnelName := tunnelName, tier := 2
    newParams := {
      s1 := p.s1.toInt32, s2 := p.s2.toInt32, s3 := p.s3.toInt32, s4 := p.s4.toInt32
      h1 := p.h1.toInt32, h2 := p.h2.toInt32, h3 := p.h3.toInt32, h4 := p.h4.toInt32 } }

inductive ParamsError where
  | preset (err : GenerateError)
  | draw (err : DrawError)
  | family (err : FamilyError)

def generateParams (toUpper : Bytes → Bytes) (preset : Option Preset) (iSpecEnabled : Bool)
    (family : Option ProtocolFamily) : Draws ParamsError Params :=
  match preset with
  | none => .fail (.preset .presetRequired)
  | some preset =>
    match validatePresetRanges preset with
    | .error err => .fail (.preset err)
    | .ok () => do
      let params ← (generateNumericParams preset).mapError .draw
      if iSpecEnabled ∧ family.isSome then
        match generateISpec toUpper family with
        | .error err => .fail (.family err)
        | .ok iSpec =>
          return { params with
            i1 := iSpec.getD 0 [], i2 := iSpec.getD 1 [], i3 := iSpec.getD 2 []
            i4 := iSpec.getD 3 [], i5 := iSpec.getD 4 [] }
      else return params

def Params.rotated (p : Params) : List Int64 := [p.s1, p.s2, p.s3, p.s4, p.h1, p.h2, p.h3, p.h4]

def Params.numbers (p : Params) : List Int64 := [p.jc, p.jmin, p.jmax] ++ p.rotated

def AwgParams.rotated (p : AwgParams) : List Int32 :=
  [p.s1, p.s2, p.s3, p.s4, p.h1, p.h2, p.h3, p.h4]

def AwgParams.numbers (p : AwgParams) : List Int32 := [p.jc, p.jmin, p.jmax] ++ p.rotated

/-- The numbers arrive as they were, also in a rotation of tier 2. -/
def Params.Survive (p : Params) : Prop :=
  p.toProto.numbers.map Int32.toInt = p.numbers.map toInt ∧
    ∀ tunnelName, (buildTier2RotateRequest tunnelName p).newParams.rotated.map Int32.toInt =
      p.rotated.map toInt

abbrev Fits32 (x : Int64) : Prop := -2 ^ 31 ≤ x.toInt ∧ x.toInt < 2 ^ 31

theorem toInt_toInt32_iff {x : Int64} : x.toInt32.toInt = x.toInt ↔ Fits32 x := by
  rw [toInt_toInt32, Int.bmod]
  omega

theorem survive_iff {p : Params} : p.Survive ↔ ∀ x ∈ p.numbers, Fits32 x := by
  have hproto : p.toProto.numbers = p.numbers.map toInt32 := rfl
  have hrequest : ∀ tunnelName, (buildTier2RotateRequest tunnelName p).newParams.rotated =
      p.rotated.map toInt32 := fun _ => rfl
  simp only [Params.Survive, hproto, hrequest, map_map, map_inj_left, Function.comp_apply,
    toInt_toInt32_iff, Params.numbers, forall_mem_append]
  grind

section

variable {toUpper : Bytes → Bytes} {preset : Preset} {enabled : Bool}
  {family : Option ProtocolFamily} {params : Params}

theorem returns_generateParams (h : validatePresetRanges preset = .ok ())
    (hparams : Returns (generateParams toUpper (some preset) enabled family) params) :
    ∃ numeric, Returns (generateNumericParams preset) numeric ∧
      params.numbers = numeric.numbers := by
  simp only [generateParams, h, returns_bind, returns_mapError] at hparams
  obtain ⟨numeric, hnumeric, hrest⟩ := hparams
  refine ⟨numeric, hnumeric, ?_⟩
  repeat' split at hrest
  all_goals simp only [returns_pure, not_returns_fail] at hrest
  all_goals rw [← hrest]
  all_goals rfl

theorem returns_generateParams_none (h : validatePresetRanges preset = .ok ())
    (hparams : Returns (generateNumericParams preset) params) :
    Returns (generateParams toUpper (some preset) false none) params := by
  simp only [generateParams, h, returns_bind, returns_mapError]
  exact ⟨params, hparams, by simp⟩

/-- All numbers that can be drawn have 32 bits. -/
structure Preset.FitsWire (preset : Preset) : Prop where
  jc : -2 ^ 31 ≤ preset.jcRange.1.toInt ∧ preset.jcRange.2.toInt < 2 ^ 31
  jmin : -2 ^ 31 ≤ preset.jminRange.1.toInt ∧ preset.jminRange.2.toInt < 2 ^ 31
  jmax : -2 ^ 31 ≤ preset.jminRange.1.toInt + preset.jmaxExtraRange.1.toInt ∧
    preset.jminRange.2.toInt + preset.jmaxExtraRange.2.toInt < 2 ^ 31
  padding : ∀ padding : Padding, padding.Valid preset →
    ∀ x ∈ [padding.s1, padding.s2, padding.s3, padding.s4], Fits32 x
  header : -2 ^ 31 ≤ preset.hMin.toInt ∧ preset.hMax.toInt < 2 ^ 31

theorem fits32_of_inInterval {range : Int64 × Int64} {x : Int64}
    (h : -2 ^ 31 ≤ range.1.toInt ∧ range.2.toInt < 2 ^ 31) (hx : InInterval range x) :
    Fits32 x := by
  simp only [InInterval, le_iff_toInt_le] at hx
  constructor <;> omega

theorem mem_numbers {x : Int64} :
    x ∈ params.numbers ↔ x = params.jc ∨ x = params.jmin ∨ x = params.jmax ∨
      x ∈ [params.s1, params.s2, params.s3, params.s4] ∨
      x ∈ [params.h1, params.h2, params.h3, params.h4] := by
  simp [Params.numbers, Params.rotated, or_assoc]

theorem fits32_of_fitsWire (h : preset.Accepted) (hfits : preset.FitsWire)
    (hallows : preset.Allows params) : ∀ x ∈ params.numbers, Fits32 x := by
  intro x hx
  rcases mem_numbers.mp hx with rfl | rfl | rfl | hx | hx
  · exact fits32_of_inInterval hfits.jc hallows.jc
  · exact fits32_of_inInterval hfits.jmin hallows.jmin
  · obtain ⟨extra, hextra, hjmax⟩ := hallows.jmax
    have hsum := hfits.jmax
    have hjmin := hallows.jmin
    simp only [InInterval, le_iff_toInt_le] at hextra hjmin
    rw [hjmax, Fits32, toInt_add, Int.bmod]
    omega
  · exact hfits.padding _ hallows.padding x hx
  · exact @fits32_of_inInterval (preset.hMin, preset.hMax) x hfits.header
      ((hallows.headers_nodup h).2 x hx)

theorem fits32_of_allows (hall : ∀ params, preset.Allows params → ∀ x ∈ params.numbers, Fits32 x)
    {jc jmin extra : Int64} {padding : Padding} {xs : List Int64}
    (hjc : InInterval preset.jcRange jc) (hjmin : InInterval preset.jminRange jmin)
    (hextra : InInterval preset.jmaxExtraRange extra) (hpadding : padding.Valid preset)
    (hxs : Forall₂ InInterval (splitHeaderRange preset.hMin preset.hMax) xs) :
    Fits32 jc ∧ Fits32 jmin ∧ Fits32 (jmin + extra) ∧
      (∀ x ∈ [padding.s1, padding.s2, padding.s3, padding.s4], Fits32 x) ∧ ∀ x ∈ xs, Fits32 x := by
  obtain ⟨params, hallows, rfl, rfl, hjmax, rfl, rfl⟩ :=
    exists_allows hjc hjmin hextra hpadding hxs
  rw [← hjmax]
  have hnumbers := hall params hallows
  simp only [mem_numbers] at hnumbers
  exact ⟨hnumbers _ (by simp), hnumbers _ (by simp), hnumbers _ (by simp),
    fun x hx => hnumbers x (.inr (.inr (.inr (.inl hx)))),
    fun x hx => hnumbers x (.inr (.inr (.inr (.inr hx))))⟩

theorem toInt_add_of_fits32 {a b : Int64} (ha : Fits32 a) (hsum : Fits32 (a + b)) :
    (a + b).toInt = a.toInt + b.toInt := by
  have hmin := b.le_toInt
  have hmax := b.toInt_lt
  rw [Fits32, toInt_add, Int.bmod] at hsum
  rw [toInt_add, Int.bmod]
  unfold Fits32 at ha
  omega

theorem fitsWire_of_fits32 (h : preset.Accepted)
    (hall : ∀ params, preset.Allows params → ∀ x ∈ params.numbers, Fits32 x) {padding : Padding}
    (hpadding : padding.Valid preset) : preset.FitsWire := by
  have hrange := le_iff_toInt_le.mp h.h
  obtain ⟨xs, hxs, hmin⟩ := h.tiles.exists_forall₂ ⟨Int.le_refl preset.hMin.toInt, by omega⟩
  obtain ⟨ys, hys, hmax⟩ := @Tiles.exists_forall₂ _ _ _ preset.hMax h.tiles ⟨hrange, by omega⟩
  obtain ⟨hjc, hjmin, hjmax, -, hheader⟩ := fits32_of_allows hall (inInterval_left h.jc)
    (inInterval_left h.jmin) (inInterval_left h.jmaxExtra) hpadding hxs
  obtain ⟨hjc', hjmin', hjmax', -, hheader'⟩ := fits32_of_allows hall (inInterval_right h.jc)
    (inInterval_right h.jmin) (inInterval_right h.jmaxExtra) hpadding hys
  refine ⟨⟨hjc.1, hjc'.2⟩, ⟨hjmin.1, hjmin'.2⟩, ⟨?_, ?_⟩, fun padding hpadding => ?_,
    ⟨(hheader _ hmin).1, (hheader' _ hmax).2⟩⟩
  · rw [← toInt_add_of_fits32 hjmin hjmax]
    exact hjmax.1
  · rw [← toInt_add_of_fits32 hjmin' hjmax']
    exact hjmax'.2
  · exact (fits32_of_allows hall (inInterval_left h.jc) (inInterval_left h.jmin)
      (inInterval_left h.jmaxExtra) hpadding hxs).2.2.2.1

end

/-- **Parameters survive the wire** iff a preset that can produce parameters at all has its ranges
within 32 bits. -/
theorem survive_iff_fitsWire (toUpper : Bytes → Bytes) (preset : Preset)
    (h : validatePresetRanges preset = .ok ()) :
    (∀ enabled family params,
      Returns (generateParams toUpper (some preset) enabled family) params → params.Survive) ↔
      (preset.NarrowRanges → (∃ padding : Padding, padding.Valid preset) → preset.FitsWire) := by
  have haccepted := accepted_iff.mp h
  constructor
  · rintro hall hnarrow ⟨padding, hpadding⟩
    refine fitsWire_of_fits32 haccepted (fun params hallows => ?_) hpadding
    have hreturns := (returns_generateNumericParams haccepted).mpr ⟨hnarrow, hallows⟩
    exact survive_iff.mp (hall false none params (returns_generateParams_none h hreturns))
  · intro hfits enabled family params hparams
    obtain ⟨numeric, hnumeric, hsame⟩ := returns_generateParams h hparams
    obtain ⟨hnarrow, hallows⟩ := (returns_generateNumericParams haccepted).mp hnumeric
    rw [survive_iff, hsame]
    exact fits32_of_fitsWire haccepted (hfits hnarrow ⟨_, hallows.padding⟩) hallows

theorem survive_narrow :
    Returns (generateParams id (some narrowPreset) false none) narrowParams ∧
      narrowParams.Survive := by
  have hreturns := @returns_generateParams_none id _ _ validate_narrowPreset returns_narrowParams
  have hpadding : ∀ padding : Padding, padding.Valid narrowPreset →
      ∀ x ∈ [padding.s1, padding.s2, padding.s3, padding.s4], Fits32 x := by
    intro padding hvalid
    simp only [forall_mem_cons]
    exact ⟨fits32_of_inInterval (by decide) hvalid.firstThree.first,
      fits32_of_inInterval (by decide) hvalid.firstThree.second,
      fits32_of_inInterval (by decide) hvalid.firstThree.third,
      fits32_of_inInterval (by decide) hvalid.fourth, nofun⟩
  refine ⟨hreturns, (survive_iff_fitsWire id narrowPreset validate_narrowPreset).mpr ?_ _ _ _
    hreturns⟩
  exact fun _ _ => ⟨by decide, by decide, by decide, hpadding, by decide⟩

def unsignedPreset : Preset := { narrowPreset with hMax := 2 ^ 32 - 1 }

theorem header_truncated :
    validatePresetRanges unsignedPreset = .ok () ∧
      ∃ params, Returns (generateParams id (some unsignedPreset) false none) params ∧
        ¬params.Survive := by
  have hvalid : validatePresetRanges unsignedPreset = .ok () := by rfl
  have haccepted := accepted_iff.mp hvalid
  have hpadding : Padding.Valid unsignedPreset ⟨1, 2, 3, 4⟩ :=
    ⟨⟨by decide, by decide, by decide, by decide, by decide⟩, by decide, by decide⟩
  obtain ⟨xs, hxs, hmem⟩ :=
    @Tiles.exists_forall₂ _ _ _ (2 ^ 32 - 1) haccepted.tiles (by decide)
  obtain ⟨params, hallows, -, -, -, -, rfl⟩ := exists_allows (inInterval_left haccepted.jc)
    (inInterval_left haccepted.jmin) (inInterval_left haccepted.jmaxExtra) hpadding hxs
  have hnarrow : unsignedPreset.NarrowRanges :=
    ⟨by decide, by decide, by decide, by decide, by decide⟩
  refine ⟨hvalid, params, returns_generateParams_none hvalid
    ((returns_generateNumericParams haccepted).mpr ⟨hnarrow, hallows⟩), fun hsurvive => ?_⟩
  have hfits := survive_iff.mp hsurvive _ (mem_numbers.mpr (.inr (.inr (.inr (.inr hmem)))))
  exact absurd hfits (by decide)

end AwgMesh.Awggen
