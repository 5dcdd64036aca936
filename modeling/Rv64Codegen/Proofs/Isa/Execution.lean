import Rv64Codegen.Proofs.Isa.Meaning
import Rv64Codegen.Proofs.Isa.Unambiguous

namespace Rv64Codegen

/-!
# The machine and the instruction set

What the RV64 instruction set says about each instruction, in terms of the
registers, the program counter and the image only.  The machine, which sees
nothing but the word of an instruction, does exactly that.  It refuses the words
of the opcodes that it does not know.
-/

/-- The opcodes that the machine executes. -/
def Opcode.isExecutable : Opcode → Bool
  | .lui | .auipc | .jal | .jalr
  | .beq | .bne | .blt | .bge | .bltu | .bgeu
  | .lw | .lwu | .ld
  | .addi | .slti | .sltiu | .xori | .ori | .andi | .slli | .srli | .srai
  | .addiw | .slliw | .srliw | .sraiw
  | .add | .sub | .sll | .slt | .sltu | .xor | .srl | .sra | .or | .and
  | .addw | .subw | .sllw | .srlw | .sraw
  | .mul => true
  | _ => false

/-- What an instruction does. -/
inductive Behaviour where
  /-- Write a register and go on. -/
  | writes (rd : Nat) (value next : UInt64)
  /-- Go on, with all registers as they are. -/
  | goesOn (next : UInt64)
  /-- Stop, because a load reads outside the image. -/
  | faults (address : UInt64)
  deriving Repr, DecidableEq

namespace Behaviour

/-- The bytes of an address range, widened, or a fault if not all of them exist. -/
def loads
    (image : Array UInt8)
    (rd : Nat)
    (address next : UInt64)
    (count : Nat)
    (widened : Nat → BitVec 64) :
    Behaviour :=
  if address.toNat + count ≤ image.size then
    .writes rd
      ⟨widened (littleEndian (image.extract address.toNat (address.toNat + count)).toList)⟩
      next
  else
    .faults address

/-- What has become of a machine that was to behave like this. -/
def Shows
    (machine : Machine)
    (result : Except Trap Machine) :
    Behaviour → Prop
  | .writes rd value next =>
      ∃ after,
        result = .ok after ∧ after.pc = next ∧ after.image = machine.image ∧
          ∀ number, number < 32 →
            after.read number =
              if number = rd ∧ rd ≠ 0 then value else machine.read number
  | .goesOn next =>
      result = .ok { machine with pc := next }
  | .faults address =>
      result = .error (.fault address)

/-- A result that is committed shows. -/
theorem shows_commit
    (machine : Machine)
    {rd : Nat}
    (small : rd < 32)
    (value next : UInt64) :
    (writes rd value next).Shows machine
      (.ok (machine.commit rd ⟨some value, next⟩)) :=
  ⟨_, rfl, machine.commit_pc .., machine.commit_image ..,
    fun _ numberSmall => machine.read_commit_some value next small numberSmall⟩

end Behaviour

/-- What an instruction of the instruction set does; `none` for those not considered. -/
def Instruction.behaviour?
    (registers : Nat → UInt64)
    (pc : UInt64)
    (image : Array UInt8) :
    Instruction → Option Behaviour
  | .u .lui rd imm =>
      some (.writes rd.index (UInt64.ofInt (imm * 0x1000)) (pc + 4))
  | .u .auipc rd imm =>
      some (.writes rd.index (pc + UInt64.ofInt (imm * 0x1000)) (pc + 4))
  | .j .jal rd offset =>
      some (.writes rd.index (pc + 4) (pc + UInt64.ofInt offset))
  | .i .jalr rd rs1 imm =>
      some (.writes rd.index (pc + 4) ((registers rs1.index + UInt64.ofInt imm) &&& ~~~1))
  | .b op rs1 rs2 offset =>
      if op.isBranch then
        some (.goesOn
          (if op.holds (registers rs1.index) (registers rs2.index) then
            pc + UInt64.ofInt offset
          else
            pc + 4))
      else
        none
  | .i .lw rd rs1 imm =>
      some (.loads image rd.index (registers rs1.index + UInt64.ofInt imm) (pc + 4) 4
        fun number => (BitVec.ofNat 32 number).signExtend 64)
  | .i .lwu rd rs1 imm =>
      some (.loads image rd.index (registers rs1.index + UInt64.ofInt imm) (pc + 4) 4
        (BitVec.ofNat 64))
  | .i .ld rd rs1 imm =>
      some (.loads image rd.index (registers rs1.index + UInt64.ofInt imm) (pc + 4) 8
        (BitVec.ofNat 64))
  | .i op rd rs1 imm =>
      (op.immediateMeaning? (registers rs1.index).toBitVec imm).map
        fun result => .writes rd.index ⟨result⟩ (pc + 4)
  | .r op rd rs1 rs2 =>
      (op.registerMeaning? (registers rs1.index).toBitVec
        (registers rs2.index).toBitVec).map
          fun result => .writes rd.index ⟨result⟩ (pc + 4)
  | _ =>
      none

namespace Machine

/-- The integer registers of the instruction set, of which the first is always zero. -/
def registers (machine : Machine) (number : Nat) : UInt64 :=
  if number = 0 then
    0
  else
    machine.read number

/-- A machine whose register zero is zero holds the registers of the instruction set. -/
theorem registers_eq
    {machine : Machine}
    (zero : machine.read 0 = 0) :
    machine.registers = machine.read := by
  funext number
  unfold registers
  split
  · rename_i isZero
    rw [isZero, zero]
  · rfl

/-- What an instruction of the instruction set does on a machine. -/
def behaviour?
    (machine : Machine)
    (instruction : Instruction) :
    Option Behaviour :=
  instruction.behaviour? machine.registers machine.pc machine.image

/-!
## Instructions with a behaviour
-/

/-- An address is made even by clearing its lowest bit. -/
theorem sub_mod_two_eq (address : UInt64) :
    address - address % 2 = address &&& ~~~1 := by
  have parts :
      (address.toBitVec &&& ~~~1#64) + (address.toBitVec &&& 1#64) = address.toBitVec := by
    rw [BitVec.add_eq_or_of_and_eq_zero]
    · ext place inside
      simp only [BitVec.getElem_or, BitVec.getElem_and, BitVec.getElem_not]
      cases address.toBitVec[place] <;> cases (1#64)[place] <;> rfl
    · ext place inside
      simp only [BitVec.getElem_and, BitVec.getElem_not, BitVec.getElem_zero]
      cases address.toBitVec[place] <;> cases (1#64)[place] <;> rfl
  have low : address % 2 = address &&& 1 := by
    apply UInt64.toNat_inj.mp
    simp
  rw [low]
  apply UInt64.toBitVec_inj.mp
  exact BitVec.sub_eq_iff_eq_add.mpr parts.symm

/-- A load that reads outside the image faults. -/
theorem execute_load_outside
    {machine : Machine}
    {op : Opcode}
    {rd rs1 : Register}
    {imm : Int}
    {word : Word}
    {width : Nat}
    (encoded : (Instruction.i op rd rs1 imm).encode = .ok word)
    (isLoad : op = .lw ∨ op = .lwu ∨ op = .ld)
    (isWidth : op.loadWidth? = some width)
    (outside :
      ¬(machine.read rs1.index + UInt64.ofInt imm).toNat + width ≤ machine.image.size) :
    machine.execute word =
      .error (.fault (machine.read rs1.index + UInt64.ofInt imm)) := by
  have plain : op.fixedFields.major = .load ∧ op.shift? = none := by
    rcases isLoad with rfl | rfl | rfl <;> exact ⟨rfl, rfl⟩
  obtain ⟨opcode, -, funct3, rs1Read, -⟩ := Word.reads_i encoded
  have immRead := Word.immI_eq encoded plain.2
  have missing :
      machine.load (machine.read rs1.index + UInt64.ofInt imm) width =
        .error (.fault (machine.read rs1.index + UInt64.ofInt imm)) := by
    rw [load, readBytes?, if_neg outside]
  have failed :
      machine.loadResult word (machine.read word.rs1 + UInt64.ofInt word.immI) =
        .error (.fault (machine.read rs1.index + UInt64.ofInt imm)) := by
    rw [loadResult, funct3, rs1Read, immRead]
    rcases isLoad with rfl | rfl | rfl
    · cases isWidth
      exact congrArg (Except.map _) missing
    · cases isWidth
      exact missing
    · cases isWidth
      exact missing
  rw [execute, effect, opcode, Opcode.Major.ofCode?_code, plain.1]
  simp only [failed]
  rfl

/-- A load brings what it reads, or faults. -/
theorem shows_loads
    {machine : Machine}
    {op : Opcode}
    {rd rs1 : Register}
    {imm : Int}
    {word : Word}
    {width : Nat}
    {widened : Nat → BitVec 64}
    (encoded : (Instruction.i op rd rs1 imm).encode = .ok word)
    (isLoad : op = .lw ∨ op = .lwu ∨ op = .ld)
    (isWidth : op.loadWidth? = some width)
    (meaning : ∀ number, op.loadMeaning? number = some (widened number)) :
    (Behaviour.loads machine.image rd.index (machine.read rs1.index + UInt64.ofInt imm)
        (machine.pc + 4) width widened).Shows machine (machine.execute word) := by
  obtain ⟨-, -, small, -⟩ := (Instruction.encode_eq_ok_iff.mp encoded).1
  unfold Behaviour.loads
  split
  · rename_i inside
    rw [execute_load encoded isWidth (meaning _) (if_pos inside)]
    exact Behaviour.shows_commit machine small _ _
  · rename_i outside
    exact execute_load_outside encoded isLoad isWidth outside

/-- The word of an instruction with an immediate shows its behaviour. -/
theorem shows_immediate
    {machine : Machine}
    (zero : machine.read 0 = 0)
    {op : Opcode}
    {rd rs1 : Register}
    {imm : Int}
    {word : Word}
    (encoded : (Instruction.i op rd rs1 imm).encode = .ok word)
    (executable : op.isExecutable = true) :
    ∃ behaviour,
      machine.behaviour? (.i op rd rs1 imm) = some behaviour ∧
        behaviour.Shows machine (machine.execute word) := by
  obtain ⟨layout, -, small, -⟩ := (Instruction.encode_eq_ok_iff.mp encoded).1
  have plain
      (isPlain :
        machine.behaviour? (.i op rd rs1 imm) =
          (op.immediateMeaning? (machine.read rs1.index).toBitVec imm).map
            fun result => .writes rd.index ⟨result⟩ (machine.pc + 4))
      {result : BitVec 64}
      (meaning :
        op.immediateMeaning? (machine.read rs1.index).toBitVec imm = some result) :
      ∃ behaviour,
        machine.behaviour? (.i op rd rs1 imm) = some behaviour ∧
          behaviour.Shows machine (machine.execute word) := by
    rw [meaning] at isPlain
    refine ⟨_, isPlain, ?_⟩
    rw [execute_immediate encoded meaning]
    exact Behaviour.shows_commit machine small _ _
  simp only [behaviour?, registers_eq zero] at plain ⊢
  cases op <;> cases layout <;> cases executable
  case jalr =>
    refine ⟨_, rfl, ?_⟩
    rw [execute_jalr encoded, sub_mod_two_eq]
    exact Behaviour.shows_commit machine small _ _
  case lw =>
    exact ⟨_, rfl, shows_loads encoded (by simp) rfl fun _ => rfl⟩
  case lwu =>
    exact ⟨_, rfl, shows_loads encoded (by simp) rfl fun _ => rfl⟩
  case ld =>
    exact ⟨_, rfl, shows_loads encoded (by simp) rfl fun _ => rfl⟩
  all_goals
    exact plain rfl rfl

/-- The word of an instruction on two registers shows its behaviour. -/
theorem shows_register
    {machine : Machine}
    (zero : machine.read 0 = 0)
    {op : Opcode}
    {rd rs1 rs2 : Register}
    {word : Word}
    (encoded : (Instruction.r op rd rs1 rs2).encode = .ok word)
    (executable : op.isExecutable = true) :
    ∃ behaviour,
      machine.behaviour? (.r op rd rs1 rs2) = some behaviour ∧
        behaviour.Shows machine (machine.execute word) := by
  obtain ⟨layout, small, -⟩ := (Instruction.encode_eq_ok_iff.mp encoded).1
  obtain ⟨result, meaning⟩ :
      ∃ result,
        op.registerMeaning? (machine.read rs1.index).toBitVec
          (machine.read rs2.index).toBitVec = some result := by
    cases op <;> cases layout <;> cases executable <;> exact ⟨_, rfl⟩
  refine ⟨.writes rd.index ⟨result⟩ (machine.pc + 4), ?_, ?_⟩
  · simp only [behaviour?, registers_eq zero, Instruction.behaviour?, meaning, Option.map_some]
  · rw [execute_register encoded meaning]
    exact Behaviour.shows_commit machine small _ _

/-- The word of an executable instruction shows its behaviour. -/
theorem shows_executable
    {machine : Machine}
    (zero : machine.read 0 = 0)
    {instruction : Instruction}
    {word : Word}
    (encoded : instruction.encode = .ok word)
    (executable : instruction.opcode.isExecutable = true) :
    ∃ behaviour,
      machine.behaviour? instruction = some behaviour ∧
        behaviour.Shows machine (machine.execute word) := by
  cases instruction with
  | r op rd rs1 rs2 =>
      exact shows_register zero encoded executable
  | i op rd rs1 imm =>
      exact shows_immediate zero encoded executable
  | s op rs2 rs1 imm =>
      obtain ⟨layout, -⟩ := (Instruction.encode_eq_ok_iff.mp encoded).1
      cases op <;> cases layout <;> cases executable
  | u op rd imm =>
      obtain ⟨layout, -, small⟩ := (Instruction.encode_eq_ok_iff.mp encoded).1
      cases op <;> cases layout
      · refine ⟨_, rfl, ?_⟩
        rw [execute_lui encoded]
        exact Behaviour.shows_commit machine small _ _
      · refine ⟨_, rfl, ?_⟩
        rw [execute_auipc encoded]
        exact Behaviour.shows_commit machine small _ _
  | b op rs1 rs2 offset =>
      have isBranch : op.isBranch = true :=
        beq_iff_eq.mpr (Instruction.encode_eq_ok_iff.mp encoded).1.1
      refine ⟨_, if_pos isBranch, ?_⟩
      rw [registers_eq zero]
      exact execute_branch encoded
  | j op rd offset =>
      obtain ⟨layout, -, -, small⟩ := (Instruction.encode_eq_ok_iff.mp encoded).1
      cases op <;> cases layout
      refine ⟨_, rfl, ?_⟩
      rw [execute_jal encoded]
      exact Behaviour.shows_commit machine small _ _

/-!
## Instructions that the machine does not know
-/

/-- Where the fields of an opcode leave the machine without a result. -/
theorem unknown_cases
    {op : Opcode}
    (unknown : op.isExecutable = false) :
    (op.fixedFields.major = .store ∨ op.fixedFields.major = .loadFp ∨
        op.fixedFields.major = .storeFp ∨ op.fixedFields.major = .opFp) ∨
      (op.fixedFields.major = .load ∧ op.fixedFields.funct3 ∈ [0, 1, 4, 5]) ∨
        (op.fixedFields.major = .op ∧ op.fixedFields.funct3 ≠ 0 ∧
          op.fixedFields.funct7 = 1) ∨
          (op.fixedFields.major = .op32 ∧ op.fixedFields.funct7 = 1) := by
  revert unknown
  cases op <;> decide

/-- A word without a result is refused, and the machine with it. -/
theorem execute_of_effect_error
    {machine : Machine}
    {word : Word}
    {trap : Trap}
    (stops : machine.effect word = .error trap) :
    machine.execute word = .error trap := by
  rw [execute, stops]
  rfl

/-- The words of loads of bytes and half words are refused. -/
theorem loadResult_eq_unsupported
    {machine : Machine}
    {word : Word}
    (narrow : word.funct3 ∈ [0, 1, 4, 5])
    (address : UInt64) :
    machine.loadResult word address = .error (.unsupported word) := by
  unfold loadResult
  split <;> simp_all

/-- Multiplications to the high half, divisions and remainders have no result. -/
theorem registerResult?_eq_none
    {word : Word}
    (high : word.funct3 ≠ 0)
    (multiplies : word.funct7 = 1)
    (left right : UInt64) :
    registerResult? word left right = none := by
  unfold registerResult?
  split <;> simp_all

/-- Word-sized multiplications, divisions and remainders have no result. -/
theorem registerWordResult?_eq_none
    {word : Word}
    (multiplies : word.funct7 = 1)
    (left right : UInt32) :
    registerWordResult? word left right = none := by
  unfold registerWordResult?
  split <;> simp_all

/-- The word of an opcode that the machine does not know is refused. -/
theorem execute_unknown
    {instruction : Instruction}
    {word : Word}
    (encoded : instruction.encode = .ok word)
    (unknown : instruction.opcode.isExecutable = false)
    (machine : Machine) :
    machine.execute word = .error (.unsupported word) := by
  apply execute_of_effect_error
  obtain ⟨layout, -⟩ := Instruction.encodable_iff_inRange.mp
    (Instruction.encode_eq_ok_iff.mp encoded).1
  have opcode := Instruction.opcode_of_encode encoded
  rw [Opcode.format_eq] at layout
  rcases unknown_cases unknown with noInteger | ⟨major, narrow⟩ | ⟨major, high, multiplies⟩ |
    ⟨major, multiplies⟩
  · rw [effect, opcode, Opcode.Major.ofCode?_code]
    rcases noInteger with major | major | major | major <;> rw [major]
  · rw [major] at layout
    cases instruction with
    | i op rd rs1 imm =>
        obtain ⟨-, -, funct3, -, -⟩ := Word.reads_i encoded
        rw [effect, opcode, Opcode.Major.ofCode?_code, major]
        simp only [loadResult_eq_unsupported (funct3.symm ▸ narrow)]
        rfl
    | _ =>
        cases layout
  · rw [major] at layout
    cases instruction with
    | r op rd rs1 rs2 =>
        obtain ⟨-, funct3, -, -, funct7⟩ := Word.reads_register encoded
        rw [effect, opcode, Opcode.Major.ofCode?_code, major]
        simp only [registerResult?_eq_none (funct3.symm ▸ high) (funct7.trans multiplies)]
        rfl
    | _ =>
        cases layout
  · rw [major] at layout
    cases instruction with
    | r op rd rs1 rs2 =>
        obtain ⟨-, -, -, -, funct7⟩ := Word.reads_register encoded
        rw [effect, opcode, Opcode.Major.ofCode?_code, major]
        simp only [registerWordResult?_eq_none (funct7.trans multiplies)]
        rfl
    | _ =>
        cases layout

/-- A run that comes to a trap stops there, with the machine as it is. -/
theorem runUntil_of_trap
    {machine : Machine}
    {word : Word}
    {trap : Trap}
    (fetched : machine.fetch = .ok word)
    (trapped : machine.execute word = .error trap)
    {stop : UInt64}
    (goesOn : machine.pc ≠ stop)
    (limit : Nat) :
    machine.runUntil stop (limit + 1) = (.error trap, machine) := by
  have stepped : machine.step = .error trap := by
    rw [step, fetched]
    exact trapped
  rw [runUntil, runFrom, if_neg goesOn, stepped]

/--
The machine executes encoded instructions as the instruction set says.  From any
state in which register zero is zero, the word of an executable instruction writes
the register, goes to the address or stops with the fault that the instruction set
gives for it; all other registers and the image stay as they are.  The word of any
other instruction is refused.  A run that comes to a trap stops with the machine as
it is.
-/
theorem execute_follows_isa
    (machine : Machine)
    (zero : machine.read 0 = 0)
    (instruction : Instruction)
    (word : Word)
    (encoded : instruction.encode = .ok word) :
    (instruction.opcode.isExecutable = true →
        ∃ behaviour,
          machine.behaviour? instruction = some behaviour ∧
            behaviour.Shows machine (machine.execute word)) ∧
      (instruction.opcode.isExecutable = false →
        machine.execute word = .error (.unsupported word)) ∧
        ∀ (trap : Trap) (stop : UInt64) (limit : Nat),
          machine.execute word = .error trap → machine.fetch = .ok word →
            machine.pc ≠ stop → machine.runUntil stop (limit + 1) = (.error trap, machine) := by
  refine ⟨shows_executable zero encoded, ?_, ?_⟩
  · intro unknown
    exact execute_unknown encoded unknown machine
  · intro trap stop limit trapped fetched goesOn
    exact runUntil_of_trap fetched trapped goesOn limit

/--
A load into its own base register brings a negative number, a wider one faults for its
last byte and leaves the run where it is, and a product to the high half is refused.
-/
theorem execute_follows_isa_aliasedLoad :
    let machine : Machine :=
      ⟨(Vector.replicate 32 0).set 10 4, 4, #[0x80, 0xff, 0xff, 0xff, 0x03, 0x35, 0xd5, 0xff]⟩
    let load : Instruction := .i .lw (.x 10) (.x 10) (-4)
    let wide : Instruction := .i .ld (.x 10) (.x 10) (-3)
    let product : Instruction := .r .mulh (.x 10) (.x 10) (.x 11)
    machine.read 0 = 0 ∧
      load.encode = .ok 0xffc52503 ∧
        (∃ after,
          machine.execute 0xffc52503 = .ok after ∧ after.pc = 8 ∧
            after.read 10 = 0xffffffffffffff80) ∧
          wide.encode = .ok 0xffd53503 ∧
            machine.execute 0xffd53503 = .error (.fault 1) ∧
              machine.runUntil 8 3 = (.error (.fault 1), machine) ∧
                product.encode = .ok 0x02b51533 ∧
                  machine.execute 0x02b51533 = .error (.unsupported 0x02b51533) := by
  intro machine load wide product
  have zero : machine.read 0 = 0 := rfl
  have loadEncoded : load.encode = .ok 0xffc52503 := rfl
  have wideEncoded : wide.encode = .ok 0xffd53503 := rfl
  have productEncoded : product.encode = .ok 0x02b51533 := rfl
  obtain ⟨loading, isLoading, loads⟩ :=
    (execute_follows_isa machine zero load _ loadEncoded).1 rfl
  have brings : machine.behaviour? load = some (.writes 10 0xffffffffffffff80 8) := by
    decide +kernel
  obtain ⟨widening, isWidening, faults⟩ :=
    (execute_follows_isa machine zero wide _ wideEncoded).1 rfl
  have misses : machine.behaviour? wide = some (.faults 1) := by
    decide +kernel
  cases isLoading.symm.trans brings
  cases isWidening.symm.trans misses
  obtain ⟨after, executed, next, -, registers⟩ := loads
  refine ⟨zero, loadEncoded, ⟨after, executed, next, registers 10 (by decide)⟩, wideEncoded,
    faults, ?_, productEncoded,
    (execute_follows_isa machine zero product _ productEncoded).2.1 rfl⟩
  have stands : readBytes? machine.image machine.pc.toNat 4 = some 0xffd53503 := by
    decide +kernel
  have fetched : machine.fetch = .ok 0xffd53503 := by
    rw [fetch, stands]
    rfl
  exact (execute_follows_isa machine zero wide _ wideEncoded).2.2 _ 8 2 faults fetched
    (by decide)

end Machine

end Rv64Codegen
