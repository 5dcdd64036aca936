import Rv64Codegen.Isa.PcRelative
import Rv64Codegen.Isa.WordBuffer
import Rv64Codegen.Program.Layout

namespace Rv64Codegen

/-!
# Expansion of descriptors

Once all offsets are known, every descriptor stands for a definite list of
instructions.
-/

/-- Where everything stands. -/
structure Placement where
  layout : Layout
  /-- The offset of every descriptor. -/
  offsets : Array Nat
  /-- The offset of the data pool. -/
  dataOffset : Nat
  /-- The register of far jumps that do not link. -/
  scratch : Register

namespace Placement

/-- A layout with its data pool at an offset. -/
def of
    (layout : Layout)
    (dataOffset : Nat)
    (scratch : Register) :
    Placement where
  layout := layout
  offsets := layout.descriptorOffsets
  dataOffset := dataOffset
  scratch := scratch

/-- Why a jump that was never bound has no target. -/
def unboundTarget
    (own : Group)
    (jump : Jump) :
    EmissionError :=
  match jump.target with
  | .label label =>
      .unresolvedTarget label
  | .relative count =>
      .relativeTargetOutOfGroup jump.group (jump.descriptor - own.first) count

/-- The offset that a jump goes to. -/
def targetOffset
    (placement : Placement)
    (jump : Jump) :
    Except Failure Nat := do
  let own ← Failure.ofMissing placement.layout.groups[jump.group.index]?
  match jump.resolved with
  | none =>
      .error (.refused (unboundTarget own jump))
  | some (.group target) =>
      let group ← Failure.ofMissing placement.layout.groups[target.index]?
      .ok group.offset
  | some (.inGroup position) =>
      if position = own.count then
        .ok own.stop
      else
        Failure.ofMissing placement.offsets[own.first + position]?

/-- The instructions of a jump at `pc` to `target`. -/
def expandJump
    (scratch : Register)
    (jump : Jump)
    (pc target : Nat) :
    Except EmissionError (List Instruction) :=
  let fromStart : Int := (target : Int) - pc
  let fromSecond : Int := (target : Int) - (pc + 4)
  match jump.kind, jump.state with
  | .conditional op rs1 rs2, .long form =>
      match op.inverted? with
      | none =>
          .error (.invalidOperand op "not a conditional branch")
      | some opposite =>
          match form with
          | .near =>
              .ok [.b opposite rs1 rs2 8, .j .jal .zero fromSecond]
          | .far =>
              (PcRelative.jumpThrough .zero scratch fromSecond).map
                fun pair => .b opposite rs1 rs2 12 :: pair
  | .conditional op rs1 rs2, _ =>
      .ok [.b op rs1 rs2 fromStart]
  | .jal rd, .long _ =>
      PcRelative.jumpThrough rd (if rd.isZero then scratch else rd) fromStart
  | .jal rd, _ =>
      .ok [.j .jal rd fromStart]

/-- A pair that adds a distance to the program counter, ending in the given instruction. -/
def throughPair
    (base : Register)
    (distance : Int)
    (second : Int → Instruction) :
    Except EmissionError (List Instruction) := do
  let (high, low) ← PcRelative.split distance
  pure [.u .auipc base high, second low]

/-- The distance from `pc` to a slot of the data pool. -/
def slotDistance
    (placement : Placement)
    (pc slot : Nat) :
    Int :=
  ((placement.dataOffset + slot : Nat) : Int) - pc

/-- The instructions of a call at `pc`. -/
def expandCall
    (placement : Placement)
    (pc : Nat) :
    CallShape → Except EmissionError (List Instruction)
  | .indirect link base offset =>
      .ok [.i .jalr link base offset]
  | .relocated link scratch _ _ =>
      .ok [.u .auipc scratch 0, .i .jalr link scratch 0]
  | .absolute link scratch sequence =>
      .ok (sequence.instructions scratch ++ [.i .jalr link scratch 0])
  | .pooled link scratch slot => do
      let load ← throughPair scratch (placement.slotDistance pc slot)
        fun low => .i .ld scratch scratch low
      pure (load ++ [.i .jalr link scratch 0])

/-- The opcode of the second instruction of an address pair. -/
def addressOpcode : RelocationKind → Opcode
  | .load => .ld
  | .addi => .addi
  | .call => .addi

/-- The instructions of an operation at `pc`. -/
def expand
    (placement : Placement)
    (pc : Nat) :
    Operation → Except Failure (List Instruction)
  | .instruction instruction =>
      .ok [instruction]
  | .jump id => do
      let jump ← Failure.ofMissing placement.layout.jumps[id.index]?
      let target ← placement.targetOffset jump
      Failure.ofRefusal (expandJump placement.scratch jump pc target)
  | .loadConstant rd sequence =>
      .ok (sequence.instructions rd)
  | .call shape =>
      Failure.ofRefusal (placement.expandCall pc shape)
  | .dataLoad op rd base slot =>
      Failure.ofRefusal
        (throughPair base (placement.slotDistance pc slot) fun low => .i op rd base low)
  | .labelAddress rd label =>
      match placement.layout.labelGroup? label with
      | none =>
          .error (.refused (.unresolvedTarget label))
      | some target => do
          let group ← Failure.ofMissing placement.layout.groups[target.index]?
          Failure.ofRefusal
            (throughPair rd ((group.offset : Int) - pc) fun low => .i .addi rd rd low)
  | .relocatedAddress rd _ kind _ =>
      .ok [.u .auipc rd 0, .i (addressOpcode kind) rd rd 0]

/-- The words of an operation at `pc`. -/
def encode
    (placement : Placement)
    (pc : Nat)
    (operation : Operation) :
    Except Failure WordBuffer := do
  let instructions ← placement.expand pc operation
  let words ← Failure.ofRefusal (Instruction.encodeAll instructions)
  Failure.ofMissing (WordBuffer.ofWords? words)

end Placement

/-- The record that an operation at an offset leaves for whoever links the code. -/
def Operation.relocation? (offset : Nat) : Operation → Option Relocation
  | .call (.relocated _ _ target addend) =>
      some ⟨offset, target, .call, addend⟩
  | .relocatedAddress _ target kind addend =>
      some ⟨offset, target, kind, addend⟩
  | _ =>
      none

end Rv64Codegen
