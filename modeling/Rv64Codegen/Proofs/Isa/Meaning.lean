import Rv64Codegen.Isa.Machine
import Rv64Codegen.Proofs.Isa.Encoding

namespace Rv64Codegen

/-!
# What instructions mean

The results of the RV64 instructions as functions on 64-bit vectors, and the
conditions of the branches, each by mnemonic.  The machine executes the word of
an instruction as its mnemonic says: it writes that result and goes on where the
mnemonic says.
-/

namespace Opcode

/-- The result of an operation on two registers. -/
def registerMeaning? (op : Opcode) (left right : BitVec 64) : Option (BitVec 64) :=
  match op with
  | .add => some (left + right)
  | .sub => some (left - right)
  | .sll => some (left <<< (right.toNat % 64))
  | .slt => some (if left.toInt < right.toInt then 1 else 0)
  | .sltu => some (if left.toNat < right.toNat then 1 else 0)
  | .xor => some (left ^^^ right)
  | .srl => some (left >>> (right.toNat % 64))
  | .sra => some (left.sshiftRight (right.toNat % 64))
  | .or => some (left ||| right)
  | .and => some (left &&& right)
  | .mul => some (left * right)
  | .addw => some ((left.setWidth 32 + right.setWidth 32).signExtend 64)
  | .subw => some ((left.setWidth 32 - right.setWidth 32).signExtend 64)
  | .sllw => some ((left.setWidth 32 <<< (right.toNat % 32)).signExtend 64)
  | .srlw => some ((left.setWidth 32 >>> (right.toNat % 32)).signExtend 64)
  | .sraw => some (((left.setWidth 32).sshiftRight (right.toNat % 32)).signExtend 64)
  | _ => none

/-- The result of an operation on a register and an immediate. -/
def immediateMeaning? (op : Opcode) (source : BitVec 64) (imm : Int) : Option (BitVec 64) :=
  match op with
  | .addi => some (source + BitVec.ofInt 64 imm)
  | .slti => some (if source.toInt < imm then 1 else 0)
  | .sltiu => some (if source.toNat < (BitVec.ofInt 64 imm).toNat then 1 else 0)
  | .xori => some (source ^^^ BitVec.ofInt 64 imm)
  | .ori => some (source ||| BitVec.ofInt 64 imm)
  | .andi => some (source &&& BitVec.ofInt 64 imm)
  | .slli => some (source <<< imm.toNat)
  | .srli => some (source >>> imm.toNat)
  | .srai => some (source.sshiftRight imm.toNat)
  | .addiw => some ((source.setWidth 32 + BitVec.ofInt 32 imm).signExtend 64)
  | .slliw => some ((source.setWidth 32 <<< imm.toNat).signExtend 64)
  | .srliw => some ((source.setWidth 32 >>> imm.toNat).signExtend 64)
  | .sraiw => some (((source.setWidth 32).sshiftRight imm.toNat).signExtend 64)
  | _ => none

/-- The result of a load of a number of 32 or 64 bits into an integer register. -/
def loadMeaning? (op : Opcode) (number : Nat) : Option (BitVec 64) :=
  match op with
  | .lw => some ((BitVec.ofNat 32 number).signExtend 64)
  | .lwu => some (BitVec.ofNat 64 number)
  | .ld => some (BitVec.ofNat 64 number)
  | _ => none

/-- Whether the condition of a branch holds; other opcodes have none. -/
def holds (op : Opcode) (left right : UInt64) : Bool :=
  match op with
  | .beq => decide (left = right)
  | .bne => decide (left ≠ right)
  | .blt => decide (left.toBitVec.toInt < right.toBitVec.toInt)
  | .bge => decide (right.toBitVec.toInt ≤ left.toBitVec.toInt)
  | .bltu => decide (left.toNat < right.toNat)
  | .bgeu => decide (right.toNat ≤ left.toNat)
  | _ => false

/-- The opposite branch is taken exactly when the branch is not. -/
theorem holds_inverted
    {op opposite : Opcode}
    (inverts : op.inverted? = some opposite)
    (left right : UInt64) :
    opposite.holds left right = !op.holds left right := by
  cases op <;> simp only [inverted?, reduceCtorEq, Option.some.injEq] at inverts
  all_goals
    subst inverts
    apply Bool.eq_iff_iff.mpr
    simp [holds]

/-- Every branch has an opposite, which is a branch too. -/
theorem exists_inverted
    {op : Opcode}
    (branch : op.format = .b) :
    ∃ opposite, op.inverted? = some opposite ∧ opposite.format = .b := by
  cases op <;> simp_all [format, fixedFields, FixedFields.plain,
    FixedFields.binary, FixedFields.unary, inverted?]

theorem loadMeaning?_eq_some
    {op : Opcode}
    {number : Nat}
    {result : BitVec 64}
    (meaning : op.loadMeaning? number = some result) :
    op = .lw ∨ op = .lwu ∨ op = .ld := by
  unfold loadMeaning? at meaning
  split at meaning
  · exact Or.inl rfl
  · exact Or.inr (Or.inl rfl)
  · exact Or.inr (Or.inr rfl)
  · cases meaning

end Opcode

namespace Machine

/-!
## Shift amounts

The machine shifts by a word of its own width; below that width the amount is
the number itself.
-/

/-- A small amount stays what it is modulo 64. -/
theorem smod64_of_lt
    {amount : Nat}
    (small : amount < 64) :
    ((BitVec.ofNat 64 amount).smod 64#64).toNat = amount := by
  revert amount
  decide

/-- A small amount stays what it is modulo 32. -/
theorem smod32_of_lt
    {amount : Nat}
    (small : amount < 32) :
    ((BitVec.ofNat 32 amount).smod 32#32).toNat = amount := by
  revert amount
  decide

/-- The same for the amounts of shifts that do not look at the sign. -/
theorem umod64_of_lt
    {amount : Nat}
    (small : amount < 64) :
    ((UInt64.ofNat amount).toBitVec % 64).toNat = amount := by
  show amount % 2 ^ 64 % 64 = amount
  omega

theorem umod32_of_lt
    {amount : Nat}
    (small : amount < 32) :
    ((UInt32.ofNat amount).toBitVec % 32).toNat = amount := by
  show amount % 2 ^ 32 % 32 = amount
  omega

/-- A left shift by a small amount. -/
theorem shiftLeft_ofNat
    (value : UInt64)
    {amount : Nat}
    (small : amount < 64) :
    value <<< UInt64.ofNat amount = ⟨value.toBitVec <<< amount⟩ := by
  apply UInt64.toBitVec_inj.mp
  rw [UInt64.toBitVec_shiftLeft, BitVec.shiftLeft_eq', umod64_of_lt small]

/-- A logical right shift by a small amount. -/
theorem shiftRight_ofNat
    (value : UInt64)
    {amount : Nat}
    (small : amount < 64) :
    value >>> UInt64.ofNat amount = ⟨value.toBitVec >>> amount⟩ := by
  apply UInt64.toBitVec_inj.mp
  rw [UInt64.toBitVec_shiftRight, BitVec.ushiftRight_eq', umod64_of_lt small]

/-- An arithmetic right shift by a small amount. -/
theorem arithmeticShiftRight_ofNat
    (value : UInt64)
    {amount : Nat}
    (small : amount < 64) :
    (value.toInt64 >>> Int64.ofNat amount).toUInt64 =
      ⟨value.toBitVec.sshiftRight amount⟩ := by
  apply UInt64.toBitVec_inj.mp
  simp [smod64_of_lt small]

/-- A word-sized left shift by a small amount. -/
theorem shiftLeftWord_ofNat
    (value : UInt32)
    {amount : Nat}
    (small : amount < 32) :
    value <<< UInt32.ofNat amount = ⟨value.toBitVec <<< amount⟩ := by
  apply UInt32.toBitVec_inj.mp
  rw [UInt32.toBitVec_shiftLeft, BitVec.shiftLeft_eq', umod32_of_lt small]

/-- A word-sized logical right shift by a small amount. -/
theorem shiftRightWord_ofNat
    (value : UInt32)
    {amount : Nat}
    (small : amount < 32) :
    value >>> UInt32.ofNat amount = ⟨value.toBitVec >>> amount⟩ := by
  apply UInt32.toBitVec_inj.mp
  rw [UInt32.toBitVec_shiftRight, BitVec.ushiftRight_eq', umod32_of_lt small]

/-- A word-sized arithmetic right shift by a small amount. -/
theorem arithmeticShiftRightWord_ofNat
    (value : UInt32)
    {amount : Nat}
    (small : amount < 32) :
    (value.toInt32 >>> Int32.ofNat amount).toUInt32 =
      ⟨value.toBitVec.sshiftRight amount⟩ := by
  apply UInt32.toBitVec_inj.mp
  simp [smod32_of_lt small]

/-- A word-sized result is widened by its sign. -/
theorem extendWord_eq (value : UInt32) :
    extendWord value = ⟨value.toBitVec.signExtend 64⟩ := by
  apply UInt64.toBitVec_inj.mp
  simp [extendWord]

/-- A comparison as a register holds it. -/
theorem flag_eq
    (condition : Prop)
    [Decidable condition] :
    (if condition then 1 else 0 : UInt64) =
      ⟨if condition then 1 else 0⟩ := by
  split <;> rfl

/-!
## Registers after an instruction
-/

@[simp] theorem commit_pc
    (machine : Machine)
    (rd : Nat)
    (effect : Effect) :
    (machine.commit rd effect).pc = effect.next :=
  rfl

@[simp] theorem commit_image
    (machine : Machine)
    (rd : Nat)
    (effect : Effect) :
    (machine.commit rd effect).image = machine.image := by
  unfold commit write store
  cases effect.value with
  | none =>
      rfl
  | some value =>
      by_cases isZero : rd = 0 <;> simp [isZero]

/-- A register number below 32 is an index of the register array. -/
theorem read_eq_getElem
    (machine : Machine)
    {number : Nat}
    (small : number < 32) :
    machine.read number = machine.x[number] := by
  simp only [read, Nat.mod_eq_of_lt small]
  rfl

/-- Storing into one register leaves the others alone. -/
theorem read_store_of_ne
    (machine : Machine)
    {rd number : Nat}
    (value : UInt64)
    (rdSmall : rd < 32)
    (small : number < 32)
    (other : number ≠ rd) :
    (machine.store rd value).read number = machine.read number := by
  rw [read_eq_getElem _ small, read_eq_getElem _ small]
  simp only [store, Nat.mod_eq_of_lt rdSmall, Vector.getElem_set, if_neg other.symm]

/-- A result goes into its register; register zero takes none. -/
theorem read_commit_some
    (machine : Machine)
    {rd number : Nat}
    (value next : UInt64)
    (rdSmall : rd < 32)
    (small : number < 32) :
    (machine.commit rd ⟨some value, next⟩).read number =
      if number = rd ∧ rd ≠ 0 then value else machine.read number := by
  by_cases isZero : rd = 0
  · simp [commit, write, isZero, read]
  · rw [read_eq_getElem _ small, read_eq_getElem _ small]
    simp only [commit, write, isZero, store, Nat.mod_eq_of_lt rdSmall,
      Vector.getElem_set, ite_false, ne_eq, not_false_eq_true, and_true,
      eq_comm]

/-!
## Execution of encoded words
-/

/-- A register-register operation in 64 bits has the result of its opcode. -/
theorem registerResult?_eq
    {word : Word}
    {op : Opcode}
    (major : op.fixedFields.major = .op)
    (funct3 : word.funct3 = op.fixedFields.funct3)
    (funct7 : word.funct7 = op.fixedFields.funct7)
    {left right : UInt64}
    {result : BitVec 64}
    (meaning : op.registerMeaning? left.toBitVec right.toBitVec = some result) :
    registerResult? word left right = some ⟨result⟩ := by
  have amountSmall : right.toNat % 64 < 64 := Nat.mod_lt _ (by decide)
  cases op <;>
    simp only [Opcode.registerMeaning?, reduceCtorEq, Option.some.injEq] at meaning
  all_goals
    simp only [Opcode.fixedFields, Opcode.FixedFields.binary, reduceCtorEq]
      at major funct3 funct7
  all_goals
    subst meaning
    simp only [registerResult?, funct3, funct7, Option.some.injEq,
      shiftLeft_ofNat _ amountSmall, shiftRight_ofNat _ amountSmall,
      arithmeticShiftRight_ofNat _ amountSmall, flag_eq,
      Int64.lt_iff_toInt_lt, UInt64.lt_iff_toNat_lt]
    rfl

/-- A register-register operation in 32 bits has the result of its opcode. -/
theorem registerWordResult?_eq
    {word : Word}
    {op : Opcode}
    (major : op.fixedFields.major = .op32)
    (funct3 : word.funct3 = op.fixedFields.funct3)
    (funct7 : word.funct7 = op.fixedFields.funct7)
    {left right : UInt64}
    {result : BitVec 64}
    (meaning : op.registerMeaning? left.toBitVec right.toBitVec = some result) :
    (registerWordResult? word left.toUInt32 right.toUInt32).map extendWord =
      some ⟨result⟩ := by
  have amountSmall : right.toBitVec.toNat % 32 < 32 := Nat.mod_lt _ (by decide)
  have amountSame : right.toUInt32.toNat % 32 = right.toBitVec.toNat % 32 := by
    rw [UInt64.toNat_toUInt32]
    exact Nat.mod_mod_of_dvd _ (by decide)
  cases op <;>
    simp only [Opcode.registerMeaning?, reduceCtorEq, Option.some.injEq] at meaning
  all_goals
    simp only [Opcode.fixedFields, Opcode.FixedFields.binary, reduceCtorEq]
      at major funct3 funct7
  all_goals
    subst meaning
    simp only [registerWordResult?, funct3, funct7, Option.map_some,
      Option.some.injEq, amountSame, shiftLeftWord_ofNat _ amountSmall,
      shiftRightWord_ofNat _ amountSmall,
      arithmeticShiftRightWord_ofNat _ amountSmall, extendWord_eq]
    rfl

/-- The parts of an immediate field that shifts read. -/
theorem shiftFields_eq
    {word : Word}
    {imm : Nat}
    (read : word.bits 20 12 = imm) :
    word.bits 20 6 = imm % 64 ∧ word.bits 26 6 = imm / 64 ∧
      word.bits 20 5 = imm % 32 ∧ word.funct7 = imm / 32 := by
  simp only [Word.bits, Word.funct7, Nat.shiftRight_eq_div_pow, Nat.reducePow,
    Nat.reduceShiftLeft] at *
  omega

/-- An integer as a register holds it. -/
theorem ofInt_eq (value : Int) :
    UInt64.ofInt value = ⟨BitVec.ofInt 64 value⟩ := by
  apply UInt64.toNat_inj.mp
  simp only [UInt64.ofInt, UInt64.toNat_ofNat', UInt64.toNat_ofBitVec,
    BitVec.toNat_ofInt]
  omega

/-- An integer as a word-sized operation sees it. -/
theorem ofIntWord_eq (value : Int) :
    UInt32.ofInt value = ⟨BitVec.ofInt 32 value⟩ := by
  apply UInt32.toNat_inj.mp
  simp only [UInt32.ofInt, UInt32.toNat_ofNat', UInt32.toNat_ofBitVec,
    BitVec.toNat_ofInt]
  omega

/-- A small integer keeps its value in a register. -/
theorem toInt_ofInt_of_fits
    {value : Int}
    (fits : FitsSigned 12 value) :
    (BitVec.ofInt 64 value).toInt = value := by
  obtain ⟨lower, upper⟩ := fits
  rw [BitVec.toInt_ofInt]
  apply Int.bmod_eq_of_le <;> omega

/-- The amount of a shift and the bits above it, as the machine reads them. -/
theorem reads_shift
    {word : Word}
    {op : Opcode}
    {rd rs1 : Register}
    {imm : Int}
    (encoded : (Instruction.i op rd rs1 imm).encode = .ok word)
    {shift : Opcode.ShiftField}
    (isShift : op.shift? = some shift) :
    imm.toNat < 1 <<< shift.amountBits ∧
      word.bits 20 12 = shift.high + imm.toNat := by
  obtain ⟨_, _, _, _, immRead⟩ := Word.reads_i encoded
  obtain ⟨_, accepted, _, _⟩ := (Instruction.encode_eq_ok_iff.mp encoded).1
  simp only [Opcode.AcceptsImmediate, isShift, FitsUnsigned] at accepted
  simp only [Opcode.immediateBits, isShift] at immRead
  exact ⟨by omega, immRead⟩

/-- A shift by a constant in 64 bits has the result of its opcode. -/
theorem shiftResult?_eq
    {word : Word}
    {op : Opcode}
    {rd rs1 : Register}
    {imm : Int}
    (encoded : (Instruction.i op rd rs1 imm).encode = .ok word)
    (isShift : op = .slli ∨ op = .srli ∨ op = .srai)
    {source : UInt64}
    {result : BitVec 64}
    (meaning : op.immediateMeaning? source.toBitVec imm = some result) :
    immediateResult? word source = some ⟨result⟩ := by
  obtain ⟨_, _, funct3, _, _⟩ := Word.reads_i encoded
  rcases isShift with rfl | rfl | rfl
  all_goals
    obtain ⟨amountSmall, immRead⟩ := reads_shift encoded rfl
    obtain ⟨amountRead, highRead, _, _⟩ := shiftFields_eq immRead
    simp only [Nat.reduceShiftLeft] at amountSmall amountRead highRead
    replace amountRead : word.bits 20 6 = imm.toNat := by omega
    simp only [Opcode.immediateMeaning?, Option.some.injEq] at meaning
    subst meaning
  · replace highRead : word.bits 26 6 = 0 := by omega
    simp only [immediateResult?, funct3, highRead, amountRead,
      Opcode.fixedFields, Opcode.FixedFields.plain]
    rw [shiftLeft_ofNat _ amountSmall]
  · replace highRead : word.bits 26 6 = 0 := by omega
    simp only [immediateResult?, funct3, highRead, amountRead,
      Opcode.fixedFields, Opcode.FixedFields.plain]
    rw [shiftRight_ofNat _ amountSmall]
  · replace highRead : word.bits 26 6 = 0x10 := by omega
    simp only [immediateResult?, funct3, highRead, amountRead,
      Opcode.fixedFields, Opcode.FixedFields.plain]
    rw [arithmeticShiftRight_ofNat _ amountSmall]

/-- A register-immediate operation in 64 bits has the result of its opcode. -/
theorem immediateResult?_eq
    {word : Word}
    {op : Opcode}
    {rd rs1 : Register}
    {imm : Int}
    (encoded : (Instruction.i op rd rs1 imm).encode = .ok word)
    (major : op.fixedFields.major = .opImm)
    {source : UInt64}
    {result : BitVec 64}
    (meaning : op.immediateMeaning? source.toBitVec imm = some result) :
    immediateResult? word source = some ⟨result⟩ := by
  obtain ⟨_, _, funct3, _, _⟩ := Word.reads_i encoded
  obtain ⟨_, accepted, _, _⟩ := (Instruction.encode_eq_ok_iff.mp encoded).1
  have plain (noShift : op.shift? = none) := Word.immI_eq encoded noShift
  by_cases isShift : op = .slli ∨ op = .srli ∨ op = .srai
  · exact shiftResult?_eq encoded isShift meaning
  · cases op <;>
      simp only [Opcode.immediateMeaning?, reduceCtorEq, Option.some.injEq] at meaning
    all_goals
      simp only [Opcode.fixedFields, Opcode.FixedFields.plain, reduceCtorEq,
        or_false, or_true, not_true_eq_false] at major funct3 isShift
    all_goals
      simp only [Opcode.AcceptsImmediate, Opcode.shift?] at accepted
      subst meaning
      simp only [immediateResult?, funct3, plain rfl, ofInt_eq, flag_eq,
        Int64.lt_iff_toInt_lt, UInt64.lt_iff_toNat_lt]
    case neg.slti =>
      have kept : (UInt64.ofBitVec (BitVec.ofInt 64 imm)).toInt64.toInt = imm :=
        toInt_ofInt_of_fits accepted
      rw [kept]
      rfl
    all_goals rfl

/-- A word-sized shift by a constant has the result of its opcode. -/
theorem shiftWordResult?_eq
    {word : Word}
    {op : Opcode}
    {rd rs1 : Register}
    {imm : Int}
    (encoded : (Instruction.i op rd rs1 imm).encode = .ok word)
    (isShift : op = .slliw ∨ op = .srliw ∨ op = .sraiw)
    {source : UInt64}
    {result : BitVec 64}
    (meaning : op.immediateMeaning? source.toBitVec imm = some result) :
    (immediateWordResult? word source.toUInt32).map extendWord = some ⟨result⟩ := by
  obtain ⟨_, _, funct3, _, _⟩ := Word.reads_i encoded
  rcases isShift with rfl | rfl | rfl
  all_goals
    obtain ⟨amountSmall, immRead⟩ := reads_shift encoded rfl
    obtain ⟨_, _, amountRead, highRead⟩ := shiftFields_eq immRead
    simp only [Nat.reduceShiftLeft] at amountSmall amountRead highRead
    replace amountRead : word.bits 20 5 = imm.toNat := by omega
    simp only [Opcode.immediateMeaning?, Option.some.injEq] at meaning
    subst meaning
  · replace highRead : word.funct7 = 0 := by omega
    simp only [immediateWordResult?, funct3, highRead, amountRead,
      Opcode.fixedFields, Opcode.FixedFields.plain,
      shiftLeftWord_ofNat _ amountSmall, Option.map_some, extendWord_eq]
    rfl
  · replace highRead : word.funct7 = 0 := by omega
    simp only [immediateWordResult?, funct3, highRead, amountRead,
      Opcode.fixedFields, Opcode.FixedFields.plain,
      shiftRightWord_ofNat _ amountSmall, Option.map_some, extendWord_eq]
    rfl
  · replace highRead : word.funct7 = 0x20 := by omega
    simp only [immediateWordResult?, funct3, highRead, amountRead,
      Opcode.fixedFields, Opcode.FixedFields.plain,
      arithmeticShiftRightWord_ofNat _ amountSmall, Option.map_some, extendWord_eq]
    rfl

/-- A word-sized register-immediate operation has the result of its opcode. -/
theorem immediateWordResult?_eq
    {word : Word}
    {op : Opcode}
    {rd rs1 : Register}
    {imm : Int}
    (encoded : (Instruction.i op rd rs1 imm).encode = .ok word)
    (major : op.fixedFields.major = .opImm32)
    {source : UInt64}
    {result : BitVec 64}
    (meaning : op.immediateMeaning? source.toBitVec imm = some result) :
    (immediateWordResult? word source.toUInt32).map extendWord = some ⟨result⟩ := by
  by_cases isShift : op = .slliw ∨ op = .srliw ∨ op = .sraiw
  · exact shiftWordResult?_eq encoded isShift meaning
  · have isAddition : op = .addiw := by
      cases op <;> simp_all [Opcode.fixedFields, Opcode.FixedFields.plain,
        Opcode.FixedFields.binary, Opcode.FixedFields.unary]
    subst isAddition
    obtain ⟨_, _, funct3, _, _⟩ := Word.reads_i encoded
    have immRead := Word.immI_eq encoded rfl
    simp only [Opcode.immediateMeaning?, Option.some.injEq] at meaning
    subst meaning
    simp only [immediateWordResult?, funct3, immRead, ofIntWord_eq,
      Opcode.fixedFields, Opcode.FixedFields.plain, Option.map_some, extendWord_eq]
    rfl

/-- Executing a word commits its effect. -/
theorem execute_of_effect
    {machine : Machine}
    {word : Word}
    {effect : Effect}
    (has : machine.effect word = .ok effect) :
    machine.execute word = .ok (machine.commit word.rd effect) := by
  rw [execute, has]
  rfl

/-- The word of a register-register operation writes the result of its opcode. -/
theorem execute_register
    {machine : Machine}
    {op : Opcode}
    {rd rs1 rs2 : Register}
    {word : Word}
    (encoded : (Instruction.r op rd rs1 rs2).encode = .ok word)
    {result : BitVec 64}
    (meaning :
      op.registerMeaning? (machine.read rs1.index).toBitVec
        (machine.read rs2.index).toBitVec = some result) :
    machine.execute word =
      .ok (machine.commit rd.index ⟨some ⟨result⟩, machine.pc + 4⟩) := by
  have shape :
      op.fixedFields.fixedRs2 = none ∧
        (op.fixedFields.major = .op ∨ op.fixedFields.major = .op32) := by
    cases op <;> simp_all [Opcode.registerMeaning?, Opcode.fixedFields,
      Opcode.FixedFields.binary]
  obtain ⟨twoSources, majors⟩ := shape
  obtain ⟨opcode, rdRead, funct3, rs1Read, rs2Read, funct7⟩ :=
    Word.reads_r encoded twoSources
  rw [← rdRead]
  apply execute_of_effect
  rw [← rs1Read, ← rs2Read] at meaning
  rcases majors with major | major
  · rw [effect, opcode, Opcode.Major.ofCode?_code, major]
    simp only [registerResult?_eq major funct3 funct7 meaning, supported]
    rfl
  · have resulting := registerWordResult?_eq major funct3 funct7 meaning
    obtain ⟨narrow, narrowIs, widened⟩ := Option.map_eq_some_iff.mp resulting
    rw [effect, opcode, Opcode.Major.ofCode?_code, major]
    simp only [narrowIs, supported]
    rw [← widened]
    rfl

/-- The word of a register-immediate operation writes the result of its opcode. -/
theorem execute_immediate
    {machine : Machine}
    {op : Opcode}
    {rd rs1 : Register}
    {imm : Int}
    {word : Word}
    (encoded : (Instruction.i op rd rs1 imm).encode = .ok word)
    {result : BitVec 64}
    (meaning :
      op.immediateMeaning? (machine.read rs1.index).toBitVec imm = some result) :
    machine.execute word =
      .ok (machine.commit rd.index ⟨some ⟨result⟩, machine.pc + 4⟩) := by
  have majors :
      op.fixedFields.major = .opImm ∨ op.fixedFields.major = .opImm32 := by
    cases op <;> simp_all [Opcode.immediateMeaning?, Opcode.fixedFields,
      Opcode.FixedFields.plain]
  obtain ⟨opcode, rdRead, _, rs1Read, _⟩ := Word.reads_i encoded
  rw [← rdRead]
  apply execute_of_effect
  rw [← rs1Read] at meaning
  rcases majors with major | major
  · rw [effect, opcode, Opcode.Major.ofCode?_code, major]
    simp only [immediateResult?_eq encoded major meaning, supported]
    rfl
  · have resulting := immediateWordResult?_eq encoded major meaning
    obtain ⟨narrow, narrowIs, widened⟩ := Option.map_eq_some_iff.mp resulting
    rw [effect, opcode, Opcode.Major.ofCode?_code, major]
    simp only [narrowIs, supported]
    rw [← widened]
    rfl

/-- The word of `lui` writes its immediate, shifted by twelve places. -/
theorem execute_lui
    {machine : Machine}
    {rd : Register}
    {imm : Int}
    {word : Word}
    (encoded : (Instruction.u .lui rd imm).encode = .ok word) :
    machine.execute word =
      .ok (machine.commit rd.index
        ⟨some (UInt64.ofInt (imm * 0x1000)), machine.pc + 4⟩) := by
  obtain ⟨opcode, rdRead, immRead⟩ := Word.reads_u encoded
  rw [← rdRead, ← immRead]
  apply execute_of_effect
  rw [effect, opcode, Opcode.Major.ofCode?_code]
  rfl

/-- The word of `auipc` adds its shifted immediate to the program counter. -/
theorem execute_auipc
    {machine : Machine}
    {rd : Register}
    {imm : Int}
    {word : Word}
    (encoded : (Instruction.u .auipc rd imm).encode = .ok word) :
    machine.execute word =
      .ok (machine.commit rd.index
        ⟨some (machine.pc + UInt64.ofInt (imm * 0x1000)), machine.pc + 4⟩) := by
  obtain ⟨opcode, rdRead, immRead⟩ := Word.reads_u encoded
  rw [← rdRead, ← immRead]
  apply execute_of_effect
  rw [effect, opcode, Opcode.Major.ofCode?_code]
  rfl

/-- The word of `jal` links and goes on at its offset. -/
theorem execute_jal
    {machine : Machine}
    {rd : Register}
    {offset : Int}
    {word : Word}
    (encoded : (Instruction.j .jal rd offset).encode = .ok word) :
    machine.execute word =
      .ok (machine.commit rd.index
        ⟨some (machine.pc + 4), machine.pc + UInt64.ofInt offset⟩) := by
  obtain ⟨opcode, rdRead, offsetRead⟩ := Word.reads_j encoded
  rw [← rdRead, ← offsetRead]
  apply execute_of_effect
  rw [effect, opcode, Opcode.Major.ofCode?_code]
  rfl

/-- The word of `jalr` links and goes on at an even address. -/
theorem execute_jalr
    {machine : Machine}
    {rd rs1 : Register}
    {imm : Int}
    {word : Word}
    (encoded : (Instruction.i .jalr rd rs1 imm).encode = .ok word) :
    machine.execute word =
      .ok (machine.commit rd.index
        ⟨some (machine.pc + 4),
          (machine.read rs1.index + UInt64.ofInt imm) -
            (machine.read rs1.index + UInt64.ofInt imm) % 2⟩) := by
  obtain ⟨opcode, rdRead, funct3, rs1Read, _⟩ := Word.reads_i encoded
  have immRead := Word.immI_eq encoded rfl
  rw [← rdRead, ← rs1Read, ← immRead]
  apply execute_of_effect
  rw [effect, opcode, Opcode.Major.ofCode?_code]
  exact if_pos funct3

/-- The word of a load brings bytes of the image, widened as its opcode says. -/
theorem execute_load
    {machine : Machine}
    {op : Opcode}
    {rd rs1 : Register}
    {imm : Int}
    {word : Word}
    {width number : Nat}
    {result : BitVec 64}
    (encoded : (Instruction.i op rd rs1 imm).encode = .ok word)
    (isWidth : op.loadWidth? = some width)
    (meaning : op.loadMeaning? number = some result)
    (reads :
      readBytes? machine.image (machine.read rs1.index + UInt64.ofInt imm).toNat width =
        some number) :
    machine.execute word =
      .ok (machine.commit rd.index ⟨some ⟨result⟩, machine.pc + 4⟩) := by
  have isLoad := Opcode.loadMeaning?_eq_some meaning
  have plain : op.fixedFields.major = .load ∧ op.shift? = none := by
    rcases isLoad with rfl | rfl | rfl <;> exact ⟨rfl, rfl⟩
  obtain ⟨opcode, rdRead, funct3, rs1Read, _⟩ := Word.reads_i encoded
  have immRead := Word.immI_eq encoded plain.2
  rw [← rdRead]
  apply execute_of_effect
  have loaded :
      machine.loadResult word (machine.read word.rs1 + UInt64.ofInt word.immI) =
        .ok ⟨result⟩ := by
    rw [loadResult, funct3, rs1Read, immRead]
    rcases isLoad with rfl | rfl | rfl
    · cases isWidth
      cases meaning
      show (machine.load _ 4).map _ = _
      rw [load, reads]
      show Except.ok (extendWord (UInt64.ofNat number).toUInt32) = _
      have low : (UInt64.ofNat number).toUInt32.toBitVec = BitVec.ofNat 32 number := by
        apply BitVec.eq_of_toNat_eq
        simp
      rw [extendWord_eq, low]
    · cases isWidth
      cases meaning
      show machine.load _ 4 = _
      rw [load, reads]
      rfl
    · cases isWidth
      cases meaning
      show machine.load _ 8 = _
      rw [load, reads]
      rfl
  rw [effect, opcode, Opcode.Major.ofCode?_code, plain.1]
  simp only [loaded]
  rfl

/-- The word of a branch goes on at its offset exactly when its condition holds. -/
theorem execute_branch
    {machine : Machine}
    {op : Opcode}
    {rs1 rs2 : Register}
    {offset : Int}
    {word : Word}
    (encoded : (Instruction.b op rs1 rs2 offset).encode = .ok word) :
    machine.execute word =
      .ok { machine with
        pc :=
          if op.holds (machine.read rs1.index) (machine.read rs2.index) then
            machine.pc + UInt64.ofInt offset
          else
            machine.pc + 4 } := by
  obtain ⟨opcode, funct3, rs1Read, rs2Read, offsetRead⟩ := Word.reads_b encoded
  have layout := (Instruction.encode_eq_ok_iff.mp encoded).1.1
  have decided :
      op.fixedFields.major = .branch ∧
        branchTaken? op.fixedFields.funct3
            (machine.read rs1.index) (machine.read rs2.index) =
          some (op.holds (machine.read rs1.index) (machine.read rs2.index)) := by
    cases op <;> simp only [Opcode.format, Opcode.fixedFields,
      Opcode.FixedFields.plain, Opcode.FixedFields.binary,
      Opcode.FixedFields.unary, reduceCtorEq] at layout
    all_goals
      refine ⟨rfl, congrArg some (decide_eq_decide.mpr ?_)⟩
    case beq | bne => exact Iff.rfl
    case blt => exact Int64.lt_iff_toInt_lt
    case bge => exact Int64.le_iff_toInt_le
    case bltu => exact UInt64.lt_iff_toNat_lt
    case bgeu => exact UInt64.le_iff_toNat_le
  obtain ⟨major, taken⟩ := decided
  have has :
      machine.effect word =
        .ok ⟨none,
          if op.holds (machine.read rs1.index) (machine.read rs2.index) then
            machine.pc + UInt64.ofInt offset
          else
            machine.pc + 4⟩ := by
    rw [effect, opcode, Opcode.Major.ofCode?_code, major, ← offsetRead]
    simp only [funct3, rs1Read, rs2Read, taken, supported]
    cases op.holds (machine.read rs1.index) (machine.read rs2.index) <;> rfl
  rw [execute_of_effect has]
  rfl

end Machine

end Rv64Codegen
