import Rv64Codegen.DataPool
import Rv64Codegen.Output.Emitted
import Rv64Codegen.Output.Expansion

namespace Rv64Codegen

/-!
# From a layout to finished code

Every descriptor is encoded at its offset, and the number of bytes is checked
against what the layout says.
-/

namespace Layout

/-- Where the data pool goes: right behind the code, at a suitable alignment. -/
def placeData
    (layout : Layout)
    (pool : DataPool)
    (poolAlign : Nat) :
    Except EmissionError Nat :=
  let codeSize := layout.codeSize
  let offset := nextMultiple codeSize (max poolAlign pool.alignment)
  if pool.bytes.isEmpty then
    .ok codeSize
  else if ¬ isPowerOfTwo poolAlign then
    .error (.badAlignment poolAlign)
  else if 0x100000000 ≤ offset then
    .error (.functionTooLarge codeSize)
  else
    .ok offset

/-- Append the bytes of descriptors that follow each other from `pc` on. -/
def writeDescriptors
    (placement : Placement) :
    Nat → List Descriptor → Array UInt8 → Except Failure (Array UInt8)
  | _, [], code =>
      .ok code
  | pc, descriptor :: rest, code =>
      match placement.encode pc descriptor.operation with
      | .error failure =>
          .error failure
      | .ok buffer =>
          if buffer.byteLength = descriptor.size then
            writeDescriptors placement (pc + descriptor.size) rest
              (code ++ buffer.bytes)
          else
            .error (.refused (.sizeMismatch descriptor.size buffer.byteLength))

/-- Append the bytes of groups, each of which has to start where the code ends. -/
def writeGroups
    (placement : Placement) :
    List Group → Array UInt8 → Except Failure (Array UInt8)
  | [], code =>
      .ok code
  | group :: rest, code =>
      if group.offset = code.size then
        match writeDescriptors placement group.offset
            (placement.layout.groupDescriptors group).toList code with
        | .error failure =>
            .error failure
        | .ok longer =>
            writeGroups placement rest longer
      else
        .error (.refused (.sizeMismatch group.offset code.size))

/-- The offset of every label that is bound. -/
def labelOffsets (layout : Layout) : Array (Option Nat) :=
  layout.labels.map fun bound =>
    bound.bind fun group =>
      layout.groups[group.index]?.map Group.offset

/-- The offsets of groups with a label, each of them once. -/
def targetOffsets (layout : Layout) : Array Nat :=
  layout.groups.foldl
    (fun offsets group =>
      if group.isTarget ∧ offsets.back? ≠ some group.offset then
        offsets.push group.offset
      else
        offsets)
    #[]

/-- The records of all descriptors, in order. -/
def relocations
    (layout : Layout)
    (offsets : Array Nat) :
    Array Relocation :=
  (layout.descriptors.zip offsets).filterMap fun (descriptor, offset) =>
    descriptor.operation.relocation? offset

/-- Encode a relaxed layout. -/
def write
    (layout : Layout)
    (pool : DataPool)
    (config : Config)
    (stats : RelaxStats) :
    Except Failure EmittedCode := do
  let dataOffset ← Failure.ofRefusal (layout.placeData pool config.poolAlign)
  let placement := Placement.of layout dataOffset config.longJumpScratch
  let code ← writeGroups placement layout.groups.toList #[]
  pure {
    code := code
    data := pool.bytes
    dataOffset := dataOffset
    relocations := layout.relocations placement.offsets
    groupOffsets := layout.groups.map Group.offset
    labelOffsets := layout.labelOffsets
    targetOffsets := layout.targetOffsets
    stats := stats }

end Layout

/-- What is reported about finished code. -/
def EmittedCode.notice (emitted : EmittedCode) : Notice :=
  .outputWritten emitted.code.size emitted.data.size emitted.dataOffset
    emitted.relocations.size emitted.targetOffsets.size

end Rv64Codegen
