import Rv64Codegen.Proofs.Json.Forms

namespace Rv64Codegen

/-!
# Layers of forms

No form has more than four layers, and all its integers are ones of 64 bits if the
numbers of the value fit the widths in which they are kept.
-/

variable
  {codec : Codec}
  {depth : Nat}

namespace Codec.Written

theorem ofNat
    {bits n : Nat}
    (few : bits ≤ 64)
    (fits : FitsUnsigned bits n) :
    codec.Written depth (codec.ofNat n) := by
  have power : (1 <<< bits : Nat) ≤ 1 <<< 64 := by
    rw [Nat.one_shiftLeft, Nat.one_shiftLeft]
    exact Nat.pow_le_pow_right (by decide) few
  have wide : (1 <<< 64 : Nat) = 0x10000000000000000 := by decide
  have below := Int.ofNat_lt.mp fits.2
  exact .integer (by omega) (by omega)

theorem ofSigned
    {bits : Nat}
    {value : Int}
    (few : bits ≤ 64)
    (fits : FitsSigned bits value) :
    codec.Written depth (codec.integer value) := by
  have power : (1 <<< (bits - 1) : Nat) ≤ 1 <<< 63 := by
    rw [Nat.one_shiftLeft, Nat.one_shiftLeft]
    exact Nat.pow_le_pow_right (by decide) (by omega)
  have wide : (1 <<< 63 : Nat) = 0x8000000000000000 := by decide
  obtain ⟨lower, upper⟩ := fits
  exact .integer (by omega) (by omega)

theorem ofList
    {form : α → codec.Document}
    {values : List α}
    (each : ∀ value ∈ values, codec.Written depth (form value)) :
    codec.Written (depth + 1) (codec.ofList form values) := by
  refine .array ?_
  intro item member
  obtain ⟨value, isValue, rfl⟩ := List.mem_map.mp member
  exact each value isValue

theorem ofOption
    {bits : Nat}
    {value : Option Nat}
    (few : bits ≤ 64)
    (fits : ∀ n ∈ value, FitsUnsigned bits n) :
    codec.Written depth (codec.ofOption codec.ofNat value) := by
  cases value with
  | none =>
      exact .null
  | some n =>
      exact .ofNat few (fits n rfl)

theorem ofMembers
    {members : List (String × codec.Document)}
    (each : members.Forall fun member => codec.Written depth member.2) :
    codec.Written (depth + 1) (codec.record members) :=
  .record (List.forall_iff_forall_mem.mp each)

end Codec.Written

theorem Register.written (register : Register) :
    codec.Written (depth + 1) (toJson codec register) :=
  .ofMembers ⟨.plain _, .ofNat (by decide) (Codec.fitsUnsigned_byte register.number)⟩

theorem Step.written
    {step : Step}
    (fits : step.InWidth) :
    codec.Written (depth + 1) (toJson codec step) :=
  .ofMembers ⟨.plain _, .ofSigned (by decide) fits⟩

theorem Sequence.written
    {sequence : Sequence}
    (fits : sequence.InWidth) :
    codec.Written (depth + 2) (toJson codec sequence) :=
  .ofList fun step member => Step.written (fits step member)

theorem JumpState.written (state : JumpState) :
    codec.Written (depth + 1) (toJson codec state) := by
  cases state with
  | shortUnbound =>
      exact .plain _
  | shortBound =>
      exact .plain _
  | long form =>
      exact .tagged _ (.plain _)

theorem RelocationTarget.written (target : RelocationTarget) :
    codec.Written (depth + 1) (toJson codec target) := by
  cases target with
  | symbol name =>
      exact .tagged _ (.string _)
  | address value =>
      exact .tagged _ (.ofNat (by decide) (Codec.fitsUnsigned_address value))

theorem Relocation.written
    {relocation : Relocation}
    (fits : relocation.InWidth) :
    codec.Written (depth + 2) (toJson codec relocation) :=
  .ofMembers ⟨.ofNat (by decide) fits, RelocationTarget.written _, .plain _,
    .ofSigned (by decide) (Codec.fitsSigned_toInt _)⟩

theorem RelaxStats.written
    {stats : RelaxStats}
    (fits : stats.InWidth) :
    codec.Written (depth + 1) (toJson codec stats) :=
  .ofMembers ⟨.ofNat (by decide) fits.passes, .ofNat (by decide) fits.upgrades,
    .ofNat (by decide) fits.near, .ofNat (by decide) fits.far, .ofNat (by decide) fits.codeSize⟩

theorem ConstantLimits.written
    {limits : ConstantLimits}
    (fits : limits.InWidth) :
    codec.Written (depth + 1) (toJson codec limits) :=
  .ofMembers ⟨.ofNat (by decide) fits.preferredMax, .ofNat (by decide) fits.absoluteMax,
    .ofNat (by decide) fits.srliMinSpan⟩

theorem Config.written
    {config : Config}
    (fits : config.InWidth) :
    codec.Written (depth + 2) (toJson codec config) :=
  .ofMembers ⟨ConstantLimits.written fits.constants,
    .ofNat (by decide) fits.branchGrowthReserve, .ofNat (by decide) fits.smallFunctionBytes,
    .ofNat (by decide) fits.maxCodeBytes, .ofOption (by decide) fits.maxRelaxPasses,
    .ofNat (by decide) fits.poolAlign, Register.written _, Register.written _,
    Register.written _⟩

/-- A cause has two layers: its name, and the record of what it reports. -/
theorem EmissionError.written
    {cause : EmissionError}
    (fits : cause.InWidth) :
    codec.Written (depth + 2) (toJson codec cause) := by
  refine .tagged _ (.ofMembers ?_)
  cases cause with
  | fieldOverflow field value bits =>
      exact ⟨.plain _, .ofSigned (by decide) fits.1, .ofNat (by decide) fits.2⟩
  | misaligned field value align =>
      exact ⟨.plain _, .ofSigned (by decide) fits.1, .ofNat (by decide) fits.2⟩
  | formatMismatch op expected actual =>
      exact ⟨.plain _, .plain _, .plain _⟩
  | invalidOperand op detail =>
      exact ⟨.plain _, .string _⟩
  | unresolvedTarget label =>
      exact .ofNat (by decide) fits
  | duplicateLabel label group =>
      exact ⟨.ofNat (by decide) fits.1, .ofNat (by decide) fits.2⟩
  | relativeTargetOutOfGroup group index count =>
      exact ⟨.ofNat (by decide) fits.1, .ofNat (by decide) fits.2.1,
        .ofSigned (by decide) fits.2.2⟩
  | materializeOverflow value count limit =>
      exact ⟨.ofSigned (by decide) (Codec.fitsSigned_toInt value), .ofNat (by decide) fits.1,
        .ofNat (by decide) fits.2⟩
  | functionTooLarge offset =>
      exact .ofSigned (by decide) fits
  | relaxationLimit max =>
      exact .ofNat (by decide) fits
  | resourceLimitExceeded resource limit =>
      exact ⟨.string _, .ofNat (by decide) fits⟩
  | badAlignment align =>
      exact .ofNat (by decide) fits
  | dataOutOfBounds offset len =>
      exact ⟨.ofNat (by decide) fits.1, .ofNat (by decide) fits.2⟩
  | sizeMismatch expected actual =>
      exact ⟨.ofNat (by decide) fits.1, .ofNat (by decide) fits.2⟩

namespace Codec.Written

theorem ofBytes (bytes : Array UInt8) :
    codec.Written (depth + 1) (codec.ofBytes bytes) :=
  .ofList fun byte _ => .ofNat (by decide) (fitsUnsigned_byte byte)

theorem ofOffsets
    {offsets : Array Nat}
    (fits : ∀ offset ∈ offsets, FitsUnsigned 32 offset) :
    codec.Written (depth + 1) (codec.ofOffsets offsets) :=
  .ofList fun offset member =>
    .ofNat (by decide) (fits offset (Array.mem_toList_iff.mp member))

end Codec.Written

/-- The relocations of finished code lie deepest: each of them is a record in an array. -/
theorem EmittedCode.written
    {emitted : EmittedCode}
    (fits : emitted.InWidth) :
    codec.Written (depth + 4) (toJson codec emitted) :=
  have relocations :
      codec.Written (depth + 3)
        (codec.ofList (toJson codec) emitted.relocations.toList) :=
    .ofList fun relocation member =>
      Relocation.written (fits.relocations relocation (Array.mem_toList_iff.mp member))
  have labels :
      codec.Written (depth + 3)
        (codec.ofList (codec.ofOption codec.ofNat) emitted.labelOffsets.toList) :=
    .ofList fun bound member =>
      .ofOption (by decide) (fits.labelOffsets bound (Array.mem_toList_iff.mp member))
  .ofMembers ⟨.ofBytes _, .ofBytes _, .ofNat (by decide) fits.dataOffset, relocations,
    .ofOffsets fits.groupOffsets, labels, .ofOffsets fits.targetOffsets,
    RelaxStats.written fits.stats⟩

end Rv64Codegen
