import Rv64Codegen.Proofs.Json.Layers
import Rv64Codegen.Proofs.Json.Standard

namespace Rv64Codegen

/-!
# From a value to JSON text and back

A text that was written for a value is read as this value, with every codec that keeps
to its laws.  The text stands for the document it was printed for; what is left is to
read each form back, which asks of a value that its numbers have the widths in which
they are kept.
-/

/-- A value whose form is read back is read back from its text, unless it lies too deep. -/
theorem Codec.read?_write
    [JsonForm α]
    {codec : Codec}
    (lawful : codec.Lawful)
    {value : α}
    (written : codec.Written 127 (toJson codec value))
    (reads : ofJson? codec (toJson codec value) = some value) :
    codec.read? α (codec.write value) = some value := by
  rw [Codec.read?, Codec.write, lawful.parse?_print _ written, Option.bind_some, reads]

/--
Every register, opcode, identifier, relocation, configuration, cause of refusal, sequence
and finished function is read back from its JSON text, and a text that holds an array
is read as a sequence exactly if the items are steps and there are eight of them at most.
-/
theorem json_round_trip
    (codec : Codec)
    (lawful : codec.Lawful) :
    (∀ register : Register, codec.read? Register (codec.write register) = some register) ∧
    (∀ file : RegisterFile, codec.read? RegisterFile (codec.write file) = some file) ∧
    (∀ op : Opcode, codec.read? Opcode (codec.write op) = some op) ∧
    (∀ format : Format, codec.read? Format (codec.write format) = some format) ∧
    (∀ field : Field, codec.read? Field (codec.write field) = some field) ∧
    (∀ group : GroupId, group.InWidth →
      codec.read? GroupId (codec.write group) = some group) ∧
    (∀ label : LabelId, label.InWidth →
      codec.read? LabelId (codec.write label) = some label) ∧
    (∀ kind : RelocationKind, codec.read? RelocationKind (codec.write kind) = some kind) ∧
    (∀ target : RelocationTarget,
      codec.read? RelocationTarget (codec.write target) = some target) ∧
    (∀ relocation : Relocation, relocation.InWidth →
      codec.read? Relocation (codec.write relocation) = some relocation) ∧
    (∀ state : JumpState, codec.read? JumpState (codec.write state) = some state) ∧
    (∀ stats : RelaxStats, stats.InWidth →
      codec.read? RelaxStats (codec.write stats) = some stats) ∧
    (∀ region : Region, codec.read? Region (codec.write region) = some region) ∧
    (∀ width : MoveWidth, codec.read? MoveWidth (codec.write width) = some width) ∧
    (∀ limits : ConstantLimits, limits.InWidth →
      codec.read? ConstantLimits (codec.write limits) = some limits) ∧
    (∀ config : Config, config.InWidth →
      codec.read? Config (codec.write config) = some config) ∧
    (∀ cause : EmissionError, cause.InWidth →
      codec.read? EmissionError (codec.write cause) = some cause) ∧
    (∀ emitted : EmittedCode, emitted.InWidth →
      codec.read? EmittedCode (codec.write emitted) = some emitted) ∧
    (∀ sequence : Sequence, sequence.InWidth →
      codec.read? Sequence (codec.write sequence) = some sequence) ∧
    (∀ (text : String) (document : codec.Document) (items : List codec.Document),
      codec.parse? text = some document →
        codec.items? document = some items →
          ((∃ sequence, codec.read? Sequence text = some sequence) ↔
            (∀ item ∈ items, ∃ step : Step, ofJson? codec item = some step) ∧
              items.length ≤ 8)) := by
  refine ⟨?_, ?_, ?_, ?_, ?_, ?_, ?_, ?_, ?_, ?_, ?_, ?_, ?_, ?_, ?_, ?_, ?_, ?_, ?_, ?_⟩
  · intro register
    exact Codec.read?_write lawful (Register.written _) (Register.ofJson?_toJson lawful _)
  · intro file
    exact Codec.read?_write lawful (.plain _) (RegisterFile.ofJson?_toJson lawful _)
  · intro op
    exact Codec.read?_write lawful (.plain _) (Opcode.ofJson?_toJson lawful _)
  · intro format
    exact Codec.read?_write lawful (.plain _) (Format.ofJson?_toJson lawful _)
  · intro field
    exact Codec.read?_write lawful (.plain _) (Field.ofJson?_toJson lawful _)
  · intro group fits
    exact Codec.read?_write lawful (.ofNat (by decide) fits) (GroupId.ofJson?_toJson lawful fits)
  · intro label fits
    exact Codec.read?_write lawful (.ofNat (by decide) fits) (LabelId.ofJson?_toJson lawful fits)
  · intro kind
    exact Codec.read?_write lawful (.plain _) (RelocationKind.ofJson?_toJson lawful _)
  · intro target
    exact Codec.read?_write lawful (RelocationTarget.written _)
      (RelocationTarget.ofJson?_toJson lawful _)
  · intro relocation fits
    exact Codec.read?_write lawful (Relocation.written fits) (Relocation.ofJson?_toJson lawful fits)
  · intro state
    exact Codec.read?_write lawful (JumpState.written _) (JumpState.ofJson?_toJson lawful _)
  · intro stats fits
    exact Codec.read?_write lawful (RelaxStats.written fits) (RelaxStats.ofJson?_toJson lawful fits)
  · intro region
    exact Codec.read?_write lawful (.plain _) (Region.ofJson?_toJson lawful _)
  · intro width
    exact Codec.read?_write lawful (.plain _) (MoveWidth.ofJson?_toJson lawful _)
  · intro limits fits
    exact Codec.read?_write lawful (ConstantLimits.written fits)
      (ConstantLimits.ofJson?_toJson lawful fits)
  · intro config fits
    exact Codec.read?_write lawful (Config.written fits) (Config.ofJson?_toJson lawful fits)
  · intro cause fits
    exact Codec.read?_write lawful (EmissionError.written fits)
      (EmissionError.ofJson?_toJson lawful fits)
  · intro emitted fits
    exact Codec.read?_write lawful (EmittedCode.written fits)
      (EmittedCode.ofJson?_toJson lawful fits)
  · intro sequence fits
    exact Codec.read?_write lawful (Sequence.written fits) (Sequence.ofJson?_toJson lawful fits)
  · intro text document items isDocument isArray
    rw [Codec.read?, isDocument, Option.bind_some]
    exact Sequence.exists_ofJson?_iff isArray

/-- The largest numbers everywhere, and a register that no instruction can name. -/
def widestConfig : Config where
  constants := ⟨0xffffffffffffffff, 0xffffffffffffffff, 0xffffffff⟩
  branchGrowthReserve := 0xffffffff
  smallFunctionBytes := 0xffffffff
  maxCodeBytes := 0xffffffffffffffff
  maxRelaxPasses := some 0xffffffffffffffff
  poolAlign := 0xffffffff
  longJumpScratch := .f 255

/-- A symbol with characters that have to be escaped, and labels with and without offset. -/
def widestCode : EmittedCode where
  code := #[0, 255]
  data := #[]
  dataOffset := 0xffffffff
  relocations := #[⟨0xffffffff, .symbol "\"\\/\n\x01\u00e9", .call, Int64.minValue⟩]
  groupOffsets := #[0, 0xffffffff]
  labelOffsets := #[none, some 0xffffffff]
  targetOffsets := #[0xffffffff]
  stats := ⟨0xffffffffffffffff, 0, 0, 0, 0xffffffff⟩

/--
Numbers at the ends of their ranges, strings with escapes, and an array of nine steps,
all with the standard codec.
-/
theorem json_round_trip_widest :
    Codec.standard.Lawful ∧
    widestConfig.InWidth ∧
      Codec.standard.read? Config (Codec.standard.write widestConfig) = some widestConfig ∧
    widestCode.InWidth ∧
      Codec.standard.read? EmittedCode (Codec.standard.write widestCode) = some widestCode ∧
    (EmissionError.fieldOverflow .imm12 (-0x8000000000000000) 0xffffffff).InWidth ∧
      Codec.standard.read? EmissionError
          (Codec.standard.write
            (EmissionError.fieldOverflow .imm12 (-0x8000000000000000) 0xffffffff)) =
        some (.fieldOverflow .imm12 (-0x8000000000000000) 0xffffffff) ∧
    ¬ ∃ sequence,
      Codec.standard.read? Sequence
          (Codec.standard.print
            (Codec.standard.array (List.replicate 9 (toJson .standard (Step.mk .addi 1))))) =
        some sequence := by
  have lawful := Codec.lawful_standard
  obtain ⟨-, -, -, -, -, -, -, -, -, -, -, -, -, -, -, configs, causes, functions, -, arrays⟩ :=
    json_round_trip .standard lawful
  have configFits : widestConfig.InWidth := by
    refine ⟨⟨by decide, by decide, by decide⟩, by decide, by decide, by decide, ?_, by decide⟩
    intro passes isPasses
    cases isPasses
    decide
  have codeFits : widestCode.InWidth := by
    refine ⟨by decide, ?_, by decide, ?_, by decide, ⟨by decide, by decide, by decide, by decide,
      by decide⟩⟩
    · intro relocation member
      obtain rfl := Array.mem_singleton.mp member
      show FitsUnsigned 32 0xffffffff
      decide
    · intro bound member offset isOffset
      have isBound : bound = none ∨ bound = some 0xffffffff := by
        simpa [widestCode] using member
      rcases isBound with rfl | rfl
      · cases isOffset
      · cases isOffset
        decide
  have causeFits :
      (EmissionError.fieldOverflow .imm12 (-0x8000000000000000) 0xffffffff).InWidth :=
    ⟨by decide, by decide⟩
  refine ⟨lawful, configFits, configs _ configFits, codeFits, functions _ codeFits, causeFits,
    causes _ causeFits, ?_⟩
  have shallow :
      Codec.standard.Written 127
        (Codec.standard.array (List.replicate 9 (toJson .standard (Step.mk .addi 1)))) := by
    refine .array fun item member => ?_
    rw [List.eq_of_mem_replicate member]
    exact Step.written (show FitsSigned 64 1 by decide)
  rw [arrays _ _ _ (lawful.parse?_print _ shallow) (lawful.items?_array _)]
  rintro ⟨-, few⟩
  rw [List.length_replicate] at few
  omega

end Rv64Codegen
