import Rv64Codegen.Json.IsaForms
import Rv64Codegen.Session.Basic

namespace Rv64Codegen

/-!
# JSON forms of configurations, relocations and finished code
-/

/-- The name of a part of a function in JSON. -/
def Region.name : Region → String
  | .body => "Body"
  | .prolog => "Prolog"
  | .epilog => "Epilog"

/-- The name of a move width in JSON. -/
def MoveWidth.name : MoveWidth → String
  | .w32 => "W32"
  | .w64 => "W64"

/-- The name of a relocation kind in JSON. -/
def RelocationKind.name : RelocationKind → String
  | .addi => "PcRelAddi"
  | .load => "PcRelLoad"
  | .call => "PcRelCall"

instance : JsonForm Region :=
  .ofNames [.body, .prolog, .epilog] Region.name

instance : JsonForm MoveWidth :=
  .ofNames [.w32, .w64] MoveWidth.name

instance : JsonForm RelocationKind :=
  .ofNames [.addi, .load, .call] RelocationKind.name

instance : JsonForm LongForm :=
  .ofNames [.near, .far] LongForm.text

instance : JsonForm JumpState where
  toJson codec
    | .shortUnbound => codec.plain "ShortUnbound"
    | .shortBound => codec.plain "ShortBound"
    | .long form => codec.tagged "Long" (toJson codec form)
  ofJson? codec document := do
    match ← codec.choice? document with
    | ("Long", some form) =>
        let form ← ofJson? codec form
        pure (.long form)
    | _ =>
        match ← codec.plain? document with
        | "ShortUnbound" =>
            pure .shortUnbound
        | "ShortBound" =>
            pure .shortBound
        | _ =>
            none

instance : JsonForm RelocationTarget where
  toJson codec
    | .symbol name => codec.tagged "Symbol" (codec.string name)
    | .address value => codec.tagged "Address" (codec.ofNat value.toNat)
  ofJson? codec document := do
    match ← codec.choice? document with
    | ("Symbol", some content) =>
        let name ← codec.string? content
        pure (.symbol name)
    | ("Address", some content) =>
        let address ← codec.natOfBits? 64 content
        pure (.address (UInt64.ofNat address))
    | _ =>
        none

instance : JsonForm Relocation where
  toJson codec relocation :=
    codec.record [
      ("offset", codec.ofNat relocation.offset),
      ("target", toJson codec relocation.target),
      ("kind", toJson codec relocation.kind),
      ("addend", codec.integer relocation.addend.toInt)]
  ofJson? codec document := do
    match ← codec.fields? ["offset", "target", "kind", "addend"] document with
    | [some offset, some target, some kind, some addend] =>
        let offset ← codec.natOfBits? 32 offset
        let target ← ofJson? codec target
        let kind ← ofJson? codec kind
        let addend ← codec.intOfBits? 64 addend
        pure ⟨offset, target, kind, Int64.ofInt addend⟩
    | _ =>
        none

instance : JsonForm RelaxStats where
  toJson codec stats :=
    codec.record [
      ("passes", codec.ofNat stats.passes),
      ("upgrades", codec.ofNat stats.upgrades),
      ("near", codec.ofNat stats.near),
      ("far", codec.ofNat stats.far),
      ("code_size", codec.ofNat stats.codeSize)]
  ofJson? codec document := do
    match ← codec.fields? ["passes", "upgrades", "near", "far", "code_size"] document with
    | [some passes, some upgrades, some near, some far, some codeSize] =>
        let passes ← codec.natOfBits? 64 passes
        let upgrades ← codec.natOfBits? 64 upgrades
        let near ← codec.natOfBits? 64 near
        let far ← codec.natOfBits? 64 far
        let codeSize ← codec.natOfBits? 32 codeSize
        pure ⟨passes, upgrades, near, far, codeSize⟩
    | _ =>
        none

instance : JsonForm ConstantLimits where
  toJson codec limits :=
    codec.record [
      ("preferred_max", codec.ofNat limits.preferredMax),
      ("absolute_max", codec.ofNat limits.absoluteMax),
      ("srli_min_span", codec.ofNat limits.srliMinSpan)]
  ofJson? codec document := do
    match ← codec.fields? ["preferred_max", "absolute_max", "srli_min_span"] document with
    | [some preferredMax, some absoluteMax, some srliMinSpan] =>
        let preferredMax ← codec.natOfBits? 64 preferredMax
        let absoluteMax ← codec.natOfBits? 64 absoluteMax
        let srliMinSpan ← codec.natOfBits? 32 srliMinSpan
        pure ⟨preferredMax, absoluteMax, srliMinSpan⟩
    | _ =>
        none

instance : JsonForm Config where
  toJson codec config :=
    codec.record [
      ("load_imm", toJson codec config.constants),
      ("branch_growth_reserve", codec.ofNat config.branchGrowthReserve),
      ("small_function_bytes", codec.ofNat config.smallFunctionBytes),
      ("max_code_bytes", codec.ofNat config.maxCodeBytes),
      ("max_relax_passes", codec.ofOption codec.ofNat config.maxRelaxPasses),
      ("pool_align", codec.ofNat config.poolAlign),
      ("long_jump_scratch", toJson codec config.longJumpScratch),
      ("call_scratch", toJson codec config.callScratch),
      ("reserved_scratch", toJson codec config.reservedScratch)]
  ofJson? codec document := do
    match ← codec.fields? [
        "load_imm", "branch_growth_reserve", "small_function_bytes",
        "max_code_bytes", "max_relax_passes", "pool_align",
        "long_jump_scratch", "call_scratch", "reserved_scratch"] document with
    | [some constants, some branchGrowthReserve, some smallFunctionBytes,
        some maxCodeBytes, maxRelaxPasses, some poolAlign,
        some longJumpScratch, some callScratch, some reservedScratch] =>
        let constants ← ofJson? codec constants
        let branchGrowthReserve ← codec.natOfBits? 32 branchGrowthReserve
        let smallFunctionBytes ← codec.natOfBits? 32 smallFunctionBytes
        let maxCodeBytes ← codec.natOfBits? 64 maxCodeBytes
        let maxRelaxPasses ←
          codec.optional? (codec.natOfBits? 64) (maxRelaxPasses.getD codec.null)
        let poolAlign ← codec.natOfBits? 32 poolAlign
        let longJumpScratch ← ofJson? codec longJumpScratch
        let callScratch ← ofJson? codec callScratch
        let reservedScratch ← ofJson? codec reservedScratch
        pure {
          constants := constants
          branchGrowthReserve := branchGrowthReserve
          smallFunctionBytes := smallFunctionBytes
          maxCodeBytes := maxCodeBytes
          maxRelaxPasses := maxRelaxPasses
          poolAlign := poolAlign
          longJumpScratch := longJumpScratch
          callScratch := callScratch
          reservedScratch := reservedScratch }
    | _ =>
        none

namespace Codec

variable
  (codec : Codec)

/-- Bytes as a list of numbers. -/
def ofBytes (bytes : Array UInt8) : codec.Document :=
  codec.ofList (fun byte => codec.ofNat byte.toNat) bytes.toList

/-- A list of numbers below 256. -/
def bytes? (document : codec.Document) : Option (Array UInt8) :=
  (codec.listOf? (codec.natOfBits? 8) document).map fun numbers =>
    (numbers.map UInt8.ofNat).toArray

/-- Offsets as a list of numbers. -/
def ofOffsets (offsets : Array Nat) : codec.Document :=
  codec.ofList codec.ofNat offsets.toList

/-- A list of offsets. -/
def offsets? (document : codec.Document) : Option (Array Nat) :=
  (codec.listOf? (codec.natOfBits? 32) document).map List.toArray

end Codec

instance : JsonForm EmittedCode where
  toJson codec emitted :=
    codec.record [
      ("code", codec.ofBytes emitted.code),
      ("data", codec.ofBytes emitted.data),
      ("data_offset", codec.ofNat emitted.dataOffset),
      ("relocations", codec.ofList (toJson codec) emitted.relocations.toList),
      ("group_offsets", codec.ofOffsets emitted.groupOffsets),
      ("label_offsets", codec.ofList (codec.ofOption codec.ofNat) emitted.labelOffsets.toList),
      ("target_offsets", codec.ofOffsets emitted.targetOffsets),
      ("stats", toJson codec emitted.stats)]
  ofJson? codec document := do
    match ← codec.fields? [
        "code", "data", "data_offset", "relocations", "group_offsets",
        "label_offsets", "target_offsets", "stats"] document with
    | [some code, some data, some dataOffset, some relocations, some groupOffsets,
        some labelOffsets, some targetOffsets, some stats] =>
        let code ← codec.bytes? code
        let data ← codec.bytes? data
        let dataOffset ← codec.natOfBits? 32 dataOffset
        let relocations ← codec.listOf? (ofJson? codec) relocations
        let groupOffsets ← codec.offsets? groupOffsets
        let labelOffsets ← codec.listOf? (codec.optional? (codec.natOfBits? 32)) labelOffsets
        let targetOffsets ← codec.offsets? targetOffsets
        let stats ← ofJson? codec stats
        pure {
          code := code
          data := data
          dataOffset := dataOffset
          relocations := relocations.toArray
          groupOffsets := groupOffsets
          labelOffsets := labelOffsets.toArray
          targetOffsets := targetOffsets
          stats := stats }
    | _ =>
        none

end Rv64Codegen
