import Rv64Codegen.Isa.Register

namespace Rv64Codegen

/-!
# Opcodes

The RV64 opcodes this library knows, and everything about an opcode that does
not depend on its operands: the layout of its word, its fixed fields, the
opposite of a condition, the shape of a shift amount and the register file of
every operand.
-/

/-- The six layouts of an instruction word. -/
inductive Format where
  | r
  | i
  | s
  | b
  | u
  | j
  deriving Repr, DecidableEq

/-- The letter of a layout. -/
def Format.text : Format → String
  | .r => "R"
  | .i => "I"
  | .s => "S"
  | .b => "B"
  | .u => "U"
  | .j => "J"

/-- The opcodes, in the order of the table that describes them. -/
inductive Opcode where
  | lui
  | auipc
  | jal
  | jalr
  | beq
  | bne
  | blt
  | bge
  | bltu
  | bgeu
  | lb
  | lh
  | lw
  | ld
  | lbu
  | lhu
  | lwu
  | sb
  | sh
  | sw
  | sd
  | addi
  | slti
  | sltiu
  | xori
  | ori
  | andi
  | slli
  | srli
  | srai
  | addiw
  | slliw
  | srliw
  | sraiw
  | add
  | sub
  | sll
  | slt
  | sltu
  | xor
  | srl
  | sra
  | or
  | and
  | addw
  | subw
  | sllw
  | srlw
  | sraw
  | mul
  | mulh
  | mulhsu
  | mulhu
  | div
  | divu
  | rem
  | remu
  | mulw
  | divw
  | divuw
  | remw
  | remuw
  | flw
  | fld
  | fsw
  | fsd
  | faddS
  | fsubS
  | fmulS
  | fdivS
  | faddD
  | fsubD
  | fmulD
  | fdivD
  | fsgnjS
  | fsgnjD
  | fmvXW
  | fmvWX
  | fmvXD
  | fmvDX
  deriving Repr, DecidableEq

namespace Opcode

/-- The value of the major opcode field, bits 0 to 6, for each instruction class. -/
inductive Major where
  | lui
  | auipc
  | jal
  | jalr
  | branch
  | load
  | store
  | opImm
  | opImm32
  | op
  | op32
  | loadFp
  | storeFp
  | opFp
  deriving Repr, DecidableEq

/-- The seven bits of a major opcode. -/
def Major.code : Major → Nat
  | .lui => 0x37
  | .auipc => 0x17
  | .jal => 0x6f
  | .jalr => 0x67
  | .branch => 0x63
  | .load => 0x03
  | .store => 0x23
  | .opImm => 0x13
  | .opImm32 => 0x1b
  | .op => 0x33
  | .op32 => 0x3b
  | .loadFp => 0x07
  | .storeFp => 0x27
  | .opFp => 0x53

/-- Every major opcode once. -/
def Major.all : List Major :=
  [.lui, .auipc, .jal, .jalr, .branch, .load, .store,
    .opImm, .opImm32, .op, .op32, .loadFp, .storeFp, .opFp]

/-- The major opcode with the given seven bits. -/
def Major.ofCode? (code : Nat) : Option Major :=
  Major.all.find? fun major => major.code == code

/-- The fields of a word that its opcode alone decides. -/
structure FixedFields where
  format : Format
  major : Major
  funct3 : Nat
  funct7 : Nat
  fixedRs2 : Option Nat
  deriving Repr, DecidableEq

/-- Fixed fields of an opcode whose word has no `funct7`. -/
def FixedFields.plain
    (format : Format)
    (major : Major)
    (funct3 : Nat) :
    FixedFields :=
  ⟨format, major, funct3, 0, none⟩

/-- Fixed fields of a register operation with two sources. -/
def FixedFields.binary
    (major : Major)
    (funct3 funct7 : Nat) :
    FixedFields :=
  ⟨.r, major, funct3, funct7, none⟩

/-- Fixed fields of a register operation whose second source is always zero. -/
def FixedFields.unary
    (major : Major)
    (funct3 funct7 : Nat) :
    FixedFields :=
  ⟨.r, major, funct3, funct7, some 0⟩

/--
The fixed fields of an opcode.  Floating-point arithmetic carries the dynamic
rounding mode, 7, in `funct3`.
-/
def fixedFields : Opcode → FixedFields
  | .lui => .plain .u .lui 0
  | .auipc => .plain .u .auipc 0
  | .jal => .plain .j .jal 0
  | .jalr => .plain .i .jalr 0
  | .beq => .plain .b .branch 0
  | .bne => .plain .b .branch 1
  | .blt => .plain .b .branch 4
  | .bge => .plain .b .branch 5
  | .bltu => .plain .b .branch 6
  | .bgeu => .plain .b .branch 7
  | .lb => .plain .i .load 0
  | .lh => .plain .i .load 1
  | .lw => .plain .i .load 2
  | .ld => .plain .i .load 3
  | .lbu => .plain .i .load 4
  | .lhu => .plain .i .load 5
  | .lwu => .plain .i .load 6
  | .sb => .plain .s .store 0
  | .sh => .plain .s .store 1
  | .sw => .plain .s .store 2
  | .sd => .plain .s .store 3
  | .addi => .plain .i .opImm 0
  | .slti => .plain .i .opImm 2
  | .sltiu => .plain .i .opImm 3
  | .xori => .plain .i .opImm 4
  | .ori => .plain .i .opImm 6
  | .andi => .plain .i .opImm 7
  | .slli => .plain .i .opImm 1
  | .srli => .plain .i .opImm 5
  | .srai => .plain .i .opImm 5
  | .addiw => .plain .i .opImm32 0
  | .slliw => .plain .i .opImm32 1
  | .srliw => .plain .i .opImm32 5
  | .sraiw => .plain .i .opImm32 5
  | .add => .binary .op 0 0x00
  | .sub => .binary .op 0 0x20
  | .sll => .binary .op 1 0x00
  | .slt => .binary .op 2 0x00
  | .sltu => .binary .op 3 0x00
  | .xor => .binary .op 4 0x00
  | .srl => .binary .op 5 0x00
  | .sra => .binary .op 5 0x20
  | .or => .binary .op 6 0x00
  | .and => .binary .op 7 0x00
  | .addw => .binary .op32 0 0x00
  | .subw => .binary .op32 0 0x20
  | .sllw => .binary .op32 1 0x00
  | .srlw => .binary .op32 5 0x00
  | .sraw => .binary .op32 5 0x20
  | .mul => .binary .op 0 0x01
  | .mulh => .binary .op 1 0x01
  | .mulhsu => .binary .op 2 0x01
  | .mulhu => .binary .op 3 0x01
  | .div => .binary .op 4 0x01
  | .divu => .binary .op 5 0x01
  | .rem => .binary .op 6 0x01
  | .remu => .binary .op 7 0x01
  | .mulw => .binary .op32 0 0x01
  | .divw => .binary .op32 4 0x01
  | .divuw => .binary .op32 5 0x01
  | .remw => .binary .op32 6 0x01
  | .remuw => .binary .op32 7 0x01
  | .flw => .plain .i .loadFp 2
  | .fld => .plain .i .loadFp 3
  | .fsw => .plain .s .storeFp 2
  | .fsd => .plain .s .storeFp 3
  | .faddS => .binary .opFp 7 0x00
  | .fsubS => .binary .opFp 7 0x04
  | .fmulS => .binary .opFp 7 0x08
  | .fdivS => .binary .opFp 7 0x0c
  | .faddD => .binary .opFp 7 0x01
  | .fsubD => .binary .opFp 7 0x05
  | .fmulD => .binary .opFp 7 0x09
  | .fdivD => .binary .opFp 7 0x0d
  | .fsgnjS => .binary .opFp 0 0x10
  | .fsgnjD => .binary .opFp 0 0x11
  | .fmvXW => .unary .opFp 0 0x70
  | .fmvWX => .unary .opFp 0 0x78
  | .fmvXD => .unary .opFp 0 0x71
  | .fmvDX => .unary .opFp 0 0x79

/-- The layout of the opcode's word. -/
def format (opcode : Opcode) : Format :=
  opcode.fixedFields.format

/-- Whether the opcode is one of the six conditional branches. -/
def isBranch (opcode : Opcode) : Bool :=
  opcode.format == .b

/-- The branch that is taken exactly when the given branch is not. -/
def inverted? : Opcode → Option Opcode
  | .beq => some .bne
  | .bne => some .beq
  | .blt => some .bge
  | .bge => some .blt
  | .bltu => some .bgeu
  | .bgeu => some .bltu
  | _ => none

/-- How a shift by a constant lays out its immediate. -/
structure ShiftField where
  amountBits : Nat
  high : Nat
  deriving Repr, DecidableEq

/--
The immediate layout of a shift by a constant: six bits of shift amount, five
for the word-sized shifts, and bit 10 set for arithmetic right shifts.
-/
def shift? : Opcode → Option ShiftField
  | .slli => some ⟨6, 0⟩
  | .srli => some ⟨6, 0⟩
  | .srai => some ⟨6, 0x400⟩
  | .slliw => some ⟨5, 0⟩
  | .srliw => some ⟨5, 0⟩
  | .sraiw => some ⟨5, 0x400⟩
  | _ => none

/-- The register file that each operand of an opcode belongs to. -/
structure OperandFiles where
  rd : RegisterFile
  rs1 : RegisterFile
  rs2 : RegisterFile
  deriving Repr, DecidableEq

/-- The register files of an opcode's operands. -/
def operandFiles : Opcode → OperandFiles
  | .flw | .fld => ⟨.float, .int, .int⟩
  | .fsw | .fsd => ⟨.int, .int, .float⟩
  | .faddS | .fsubS | .fmulS | .fdivS
  | .faddD | .fsubD | .fmulD | .fdivD
  | .fsgnjS | .fsgnjD => ⟨.float, .float, .float⟩
  | .fmvXW | .fmvXD => ⟨.int, .float, .int⟩
  | .fmvWX | .fmvDX => ⟨.float, .int, .int⟩
  | _ => ⟨.int, .int, .int⟩

/-- The number of bytes a load reads; `none` for an opcode that is no load. -/
def loadWidth? : Opcode → Option Nat
  | .lb | .lbu => some 1
  | .lh | .lhu => some 2
  | .lw | .lwu | .flw => some 4
  | .ld | .fld => some 8
  | _ => none

/-- The assembly mnemonic. -/
def mnemonic : Opcode → String
  | .lui => "lui"
  | .auipc => "auipc"
  | .jal => "jal"
  | .jalr => "jalr"
  | .beq => "beq"
  | .bne => "bne"
  | .blt => "blt"
  | .bge => "bge"
  | .bltu => "bltu"
  | .bgeu => "bgeu"
  | .lb => "lb"
  | .lh => "lh"
  | .lw => "lw"
  | .ld => "ld"
  | .lbu => "lbu"
  | .lhu => "lhu"
  | .lwu => "lwu"
  | .sb => "sb"
  | .sh => "sh"
  | .sw => "sw"
  | .sd => "sd"
  | .addi => "addi"
  | .slti => "slti"
  | .sltiu => "sltiu"
  | .xori => "xori"
  | .ori => "ori"
  | .andi => "andi"
  | .slli => "slli"
  | .srli => "srli"
  | .srai => "srai"
  | .addiw => "addiw"
  | .slliw => "slliw"
  | .srliw => "srliw"
  | .sraiw => "sraiw"
  | .add => "add"
  | .sub => "sub"
  | .sll => "sll"
  | .slt => "slt"
  | .sltu => "sltu"
  | .xor => "xor"
  | .srl => "srl"
  | .sra => "sra"
  | .or => "or"
  | .and => "and"
  | .addw => "addw"
  | .subw => "subw"
  | .sllw => "sllw"
  | .srlw => "srlw"
  | .sraw => "sraw"
  | .mul => "mul"
  | .mulh => "mulh"
  | .mulhsu => "mulhsu"
  | .mulhu => "mulhu"
  | .div => "div"
  | .divu => "divu"
  | .rem => "rem"
  | .remu => "remu"
  | .mulw => "mulw"
  | .divw => "divw"
  | .divuw => "divuw"
  | .remw => "remw"
  | .remuw => "remuw"
  | .flw => "flw"
  | .fld => "fld"
  | .fsw => "fsw"
  | .fsd => "fsd"
  | .faddS => "fadd.s"
  | .fsubS => "fsub.s"
  | .fmulS => "fmul.s"
  | .fdivS => "fdiv.s"
  | .faddD => "fadd.d"
  | .fsubD => "fsub.d"
  | .fmulD => "fmul.d"
  | .fdivD => "fdiv.d"
  | .fsgnjS => "fsgnj.s"
  | .fsgnjD => "fsgnj.d"
  | .fmvXW => "fmv.x.w"
  | .fmvWX => "fmv.w.x"
  | .fmvXD => "fmv.x.d"
  | .fmvDX => "fmv.d.x"

/-- The name of the opcode in structured data. -/
def name : Opcode → String
  | .lui => "Lui"
  | .auipc => "Auipc"
  | .jal => "Jal"
  | .jalr => "Jalr"
  | .beq => "Beq"
  | .bne => "Bne"
  | .blt => "Blt"
  | .bge => "Bge"
  | .bltu => "Bltu"
  | .bgeu => "Bgeu"
  | .lb => "Lb"
  | .lh => "Lh"
  | .lw => "Lw"
  | .ld => "Ld"
  | .lbu => "Lbu"
  | .lhu => "Lhu"
  | .lwu => "Lwu"
  | .sb => "Sb"
  | .sh => "Sh"
  | .sw => "Sw"
  | .sd => "Sd"
  | .addi => "Addi"
  | .slti => "Slti"
  | .sltiu => "Sltiu"
  | .xori => "Xori"
  | .ori => "Ori"
  | .andi => "Andi"
  | .slli => "Slli"
  | .srli => "Srli"
  | .srai => "Srai"
  | .addiw => "Addiw"
  | .slliw => "Slliw"
  | .srliw => "Srliw"
  | .sraiw => "Sraiw"
  | .add => "Add"
  | .sub => "Sub"
  | .sll => "Sll"
  | .slt => "Slt"
  | .sltu => "Sltu"
  | .xor => "Xor"
  | .srl => "Srl"
  | .sra => "Sra"
  | .or => "Or"
  | .and => "And"
  | .addw => "Addw"
  | .subw => "Subw"
  | .sllw => "Sllw"
  | .srlw => "Srlw"
  | .sraw => "Sraw"
  | .mul => "Mul"
  | .mulh => "Mulh"
  | .mulhsu => "Mulhsu"
  | .mulhu => "Mulhu"
  | .div => "Div"
  | .divu => "Divu"
  | .rem => "Rem"
  | .remu => "Remu"
  | .mulw => "Mulw"
  | .divw => "Divw"
  | .divuw => "Divuw"
  | .remw => "Remw"
  | .remuw => "Remuw"
  | .flw => "Flw"
  | .fld => "Fld"
  | .fsw => "Fsw"
  | .fsd => "Fsd"
  | .faddS => "FaddS"
  | .fsubS => "FsubS"
  | .fmulS => "FmulS"
  | .fdivS => "FdivS"
  | .faddD => "FaddD"
  | .fsubD => "FsubD"
  | .fmulD => "FmulD"
  | .fdivD => "FdivD"
  | .fsgnjS => "FsgnjS"
  | .fsgnjD => "FsgnjD"
  | .fmvXW => "FmvXW"
  | .fmvWX => "FmvWX"
  | .fmvXD => "FmvXD"
  | .fmvDX => "FmvDX"

/-- Every opcode once. -/
def all : List Opcode :=
  [.lui, .auipc, .jal, .jalr, .beq, .bne, .blt, .bge,
    .bltu, .bgeu, .lb, .lh, .lw, .ld, .lbu, .lhu,
    .lwu, .sb, .sh, .sw, .sd, .addi, .slti, .sltiu,
    .xori, .ori, .andi, .slli, .srli, .srai, .addiw, .slliw,
    .srliw, .sraiw, .add, .sub, .sll, .slt, .sltu, .xor,
    .srl, .sra, .or, .and, .addw, .subw, .sllw, .srlw,
    .sraw, .mul, .mulh, .mulhsu, .mulhu, .div, .divu, .rem,
    .remu, .mulw, .divw, .divuw, .remw, .remuw, .flw, .fld,
    .fsw, .fsd, .faddS, .fsubS, .fmulS, .fdivS, .faddD, .fsubD,
    .fmulD, .fdivD, .fsgnjS, .fsgnjD, .fmvXW, .fmvWX, .fmvXD, .fmvDX]

end Opcode

end Rv64Codegen
