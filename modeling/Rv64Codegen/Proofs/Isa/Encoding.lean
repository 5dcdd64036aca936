import Rv64Codegen.Isa.PcRelative
import Rv64Codegen.Proofs.Isa.Fields

namespace Rv64Codegen

/-!
# Encoding of instructions

An instruction has a word exactly when it is `Encodable`: its opcode has the
layout of its operands, its immediate is in range and its register numbers fit.
The word is then the sum of the fields in `Instruction.raw`, and reading the
word gives the operands back.
-/

/-- Doubling the half range of a width gives the range. -/
theorem shiftLeft_eq_two_mul_half
    {bits : Nat}
    (positive : 0 < bits) :
    1 <<< bits = 2 * 1 <<< (bits - 1) := by
  obtain ⟨less, rfl⟩ : ∃ less, bits = less + 1 := ⟨bits - 1, by omega⟩
  simp [Nat.shiftLeft_eq, Nat.pow_succ, Nat.mul_comm]

/-- The low bits of a number that fits stand for that number. -/
theorem signExtend_emod
    {bits : Nat}
    {value : Int}
    (positive : 0 < bits)
    (fits : FitsSigned bits value) :
    signExtend bits (value % (1 <<< bits : Nat)).toNat = value := by
  have double := shiftLeft_eq_two_mul_half positive
  obtain ⟨lower, upper⟩ := fits
  generalize half : 1 <<< (bits - 1) = middle at *
  generalize range : 1 <<< bits = whole at *
  by_cases negative : value < 0
  · have wrapped : value % (whole : Int) = value + whole := by
      rw [← Int.add_emod_right]
      exact Int.emod_eq_of_lt (by omega) (by omega)
    simp only [signExtend, wrapped, range, half]
    rw [Nat.mod_eq_of_lt (by omega), if_neg (by omega)]
    omega
  · have same : value % (whole : Int) = value :=
      Int.emod_eq_of_lt (by omega) (by omega)
    simp only [signExtend, same, range, half]
    rw [Nat.mod_eq_of_lt (by omega), if_pos (by omega)]
    omega

/-- The pattern of a number has no more bits than its field. -/
theorem emod_toNat_lt
    (bits : Nat)
    (value : Int) :
    (value % (1 <<< bits : Nat)).toNat < 1 <<< bits := by
  have positive : 0 < 1 <<< bits := by
    rw [Nat.shiftLeft_eq, Nat.one_mul]
    exact Nat.two_pow_pos bits
  have lower := Int.emod_nonneg value (b := (1 <<< bits : Nat)) (by omega)
  have upper := Int.emod_lt_of_pos value (b := (1 <<< bits : Nat)) (by omega)
  omega

/-- A signed value has a pattern exactly when it fits. -/
@[simp] theorem signedPattern_eq_ok_iff
    {field : Field}
    {bits pattern : Nat}
    {value : Int} :
    signedPattern field bits value = .ok pattern ↔
      FitsSigned bits value ∧
        (value % (1 <<< min bits 32 : Nat)).toNat = pattern := by
  unfold signedPattern
  split
  · rename_i fits
    simp [fits]
  · rename_i wide
    simp [wide]

/-- An even offset has a pattern exactly when it is even and fits. -/
@[simp] theorem evenPattern_eq_ok_iff
    {field : Field}
    {bits pattern : Nat}
    {value : Int} :
    evenPattern field bits value = .ok pattern ↔
      value % 2 = 0 ∧ FitsSigned bits value ∧
        (value % (1 <<< min bits 32 : Nat)).toNat = pattern := by
  unfold evenPattern
  split
  · rename_i even
    simp [even]
  · rename_i odd
    simp [odd]

namespace Opcode

/-- The fixed fields of every opcode fit their widths. -/
theorem fixedFields_fit (op : Opcode) :
    op.fixedFields.major.code < 0x80 ∧
      op.fixedFields.funct3 < 8 ∧
        op.fixedFields.funct7 < 0x80 := by
  cases op <;> decide

/-- A major opcode is known by its code. -/
@[simp] theorem Major.ofCode?_code (major : Major) :
    Major.ofCode? major.code = some major := by
  cases major <;> rfl

/-- Fixed fields are given out exactly for the layout of the opcode. -/
@[simp] theorem expect_eq_ok_iff
    {op : Opcode}
    {format : Format}
    {fixed : FixedFields} :
    op.expect format = .ok fixed ↔
      op.format = format ∧ op.fixedFields = fixed := by
  unfold expect
  split
  · rename_i same
    simp [same]
  · rename_i other
    simp [other]

/-- An immediate that a register-immediate opcode takes. -/
def AcceptsImmediate (op : Opcode) (imm : Int) : Prop :=
  match op.shift? with
  | some shift =>
      FitsUnsigned shift.amountBits imm
  | none =>
      FitsSigned 12 imm

/-- The immediate bits that an opcode makes of an immediate it takes. -/
def immediateBits (op : Opcode) (imm : Int) : Nat :=
  match op.shift? with
  | some shift =>
      shift.high + imm.toNat
  | none =>
      (imm % 0x1000).toNat

/-- An opcode has a pattern exactly for the immediates it takes. -/
@[simp] theorem immediatePattern_eq_ok_iff
    {op : Opcode}
    {imm : Int}
    {pattern : Nat} :
    op.immediatePattern imm = .ok pattern ↔
      op.AcceptsImmediate imm ∧ op.immediateBits imm = pattern := by
  unfold immediatePattern AcceptsImmediate immediateBits
  cases shape : op.shift? with
  | none =>
      simp only [signedPattern_eq_ok_iff]
      rfl
  | some shift =>
      by_cases fits : FitsUnsigned shift.amountBits imm
      · simp [fits]
      · simp [fits]

/-- The immediate bits of an opcode fit their field. -/
theorem immediateBits_lt
    {op : Opcode}
    {imm : Int}
    (accepted : op.AcceptsImmediate imm) :
    op.immediateBits imm < 0x1000 := by
  unfold AcceptsImmediate at accepted
  unfold immediateBits
  split
  · rename_i shift shape
    simp only [shape, FitsUnsigned] at accepted
    have narrow : shift.amountBits = 6 ∨ shift.amountBits = 5 := by
      cases op <;> simp_all [shift?] <;> subst shape <;> simp
    have low : shift.high ≤ 0x400 := by
      cases op <;> simp_all [shift?] <;> subst shape <;> simp
    rcases narrow with six | five
    · rw [six] at accepted
      omega
    · rw [five] at accepted
      omega
  · exact emod_toNat_lt 12 imm

end Opcode

namespace Instruction

/-- The layout of an instruction's operands. -/
def format : Instruction → Format
  | .r .. => .r
  | .i .. => .i
  | .s .. => .s
  | .u .. => .u
  | .b .. => .b
  | .j .. => .j

/-- The fields from which the word of an instruction is assembled. -/
def raw : Instruction → RawFields
  | .r op rd rs1 rs2 =>
      ⟨op.fixedFields.major.code, rd.index, op.fixedFields.funct3, rs1.index,
        op.fixedFields.fixedRs2.getD rs2.index, op.fixedFields.funct7, 0⟩
  | .i op rd rs1 imm =>
      ⟨op.fixedFields.major.code, rd.index, op.fixedFields.funct3, rs1.index,
        0, 0, op.immediateBits imm⟩
  | .s op rs2 rs1 imm =>
      ⟨op.fixedFields.major.code, 0, op.fixedFields.funct3, rs1.index,
        rs2.index, 0, (imm % 0x1000).toNat⟩
  | .u op rd imm =>
      ⟨op.fixedFields.major.code, rd.index, 0, 0, 0, 0, (imm % 0x100000).toNat⟩
  | .b op rs1 rs2 offset =>
      ⟨op.fixedFields.major.code, 0, op.fixedFields.funct3, rs1.index,
        rs2.index, 0, (offset % 0x2000).toNat⟩
  | .j op rd offset =>
      ⟨op.fixedFields.major.code, rd.index, 0, 0, 0, 0, (offset % 0x200000).toNat⟩

/-- An instruction that has a word. -/
def Encodable : Instruction → Prop
  | .r op rd rs1 rs2 =>
      op.format = .r ∧ rd.index < 32 ∧ rs1.index < 32 ∧
        op.fixedFields.fixedRs2.getD rs2.index < 32
  | .i op rd rs1 imm =>
      op.format = .i ∧ op.AcceptsImmediate imm ∧ rd.index < 32 ∧ rs1.index < 32
  | .s op rs2 rs1 imm =>
      op.format = .s ∧ FitsSigned 12 imm ∧ rs1.index < 32 ∧ rs2.index < 32
  | .u op rd imm =>
      op.format = .u ∧ FitsSigned 20 imm ∧ rd.index < 32
  | .b op rs1 rs2 offset =>
      op.format = .b ∧ offset % 2 = 0 ∧ FitsSigned 13 offset ∧
        rs1.index < 32 ∧ rs2.index < 32
  | .j op rd offset =>
      op.format = .j ∧ offset % 2 = 0 ∧ FitsSigned 21 offset ∧ rd.index < 32

/-- The fields of an encodable instruction fit their widths. -/
theorem raw_fits
    {instruction : Instruction}
    (encodable : instruction.Encodable) :
    instruction.raw.Fits instruction.format := by
  cases instruction with
  | r op rd rs1 rs2 =>
      obtain ⟨major, funct3, funct7⟩ := op.fixedFields_fit
      obtain ⟨_, rdFits, rs1Fits, rs2Fits⟩ := encodable
      exact ⟨major, rdFits, funct3, rs1Fits, rs2Fits, funct7⟩
  | i op rd rs1 imm =>
      obtain ⟨major, funct3, _⟩ := op.fixedFields_fit
      obtain ⟨_, accepted, rdFits, rs1Fits⟩ := encodable
      exact ⟨major, rdFits, funct3, rs1Fits, op.immediateBits_lt accepted⟩
  | s op rs2 rs1 imm =>
      obtain ⟨major, funct3, _⟩ := op.fixedFields_fit
      obtain ⟨_, _, rs1Fits, rs2Fits⟩ := encodable
      exact ⟨major, funct3, rs1Fits, rs2Fits, emod_toNat_lt 12 imm⟩
  | u op rd imm =>
      obtain ⟨major, _, _⟩ := op.fixedFields_fit
      obtain ⟨_, _, rdFits⟩ := encodable
      exact ⟨major, rdFits, emod_toNat_lt 20 imm⟩
  | b op rs1 rs2 offset =>
      obtain ⟨major, funct3, _⟩ := op.fixedFields_fit
      obtain ⟨_, even, _, rs1Fits, rs2Fits⟩ := encodable
      refine ⟨major, funct3, rs1Fits, rs2Fits, emod_toNat_lt 13 offset, ?_⟩
      simp only [raw]
      omega
  | j op rd offset =>
      obtain ⟨major, _, _⟩ := op.fixedFields_fit
      obtain ⟨_, even, _, rdFits⟩ := encodable
      refine ⟨major, rdFits, emod_toNat_lt 21 offset, ?_⟩
      simp only [raw]
      omega

/-- The word of an instruction is assembled from its fields. -/
theorem encode_eq_ok_iff
    {instruction : Instruction}
    {word : Word} :
    instruction.encode = .ok word ↔
      instruction.Encodable ∧
        instruction.raw.assemble instruction.format = .ok word := by
  cases instruction with
  | r op rd rs1 rs2 =>
      simp only [encode, bind_eq_ok_iff, Opcode.expect_eq_ok_iff, and_assoc,
        exists_and_left, exists_eq_left', Encodable]
      constructor
      · rintro ⟨layout, assembled⟩
        have assembled : (r op rd rs1 rs2).raw.assemble .r = .ok word := assembled
        obtain ⟨⟨_, rdFits, _, rs1Fits, rs2Fits, _⟩, _⟩ :=
          RawFields.assemble_eq_ok_iff.mp assembled
        exact ⟨layout, rdFits, rs1Fits, rs2Fits, assembled⟩
      · rintro ⟨layout, _, _, _, assembled⟩
        exact ⟨layout, assembled⟩
  | i op rd rs1 imm =>
      simp only [encode, bind_eq_ok_iff, Opcode.expect_eq_ok_iff,
        Opcode.immediatePattern_eq_ok_iff, and_assoc,
        exists_and_left, exists_eq_left', Encodable]
      constructor
      · rintro ⟨layout, accepted, assembled⟩
        have assembled : (i op rd rs1 imm).raw.assemble .i = .ok word := assembled
        obtain ⟨⟨_, rdFits, _, rs1Fits, _⟩, _⟩ :=
          RawFields.assemble_eq_ok_iff.mp assembled
        exact ⟨layout, accepted, rdFits, rs1Fits, assembled⟩
      · rintro ⟨layout, accepted, _, _, assembled⟩
        exact ⟨layout, accepted, assembled⟩
  | s op rs2 rs1 imm =>
      simp only [encode, bind_eq_ok_iff, Opcode.expect_eq_ok_iff,
        signedPattern_eq_ok_iff, and_assoc,
        exists_and_left, exists_eq_left', Encodable]
      constructor
      · rintro ⟨layout, inRange, assembled⟩
        have assembled : (s op rs2 rs1 imm).raw.assemble .s = .ok word := assembled
        obtain ⟨⟨_, _, rs1Fits, rs2Fits, _⟩, _⟩ :=
          RawFields.assemble_eq_ok_iff.mp assembled
        exact ⟨layout, inRange, rs1Fits, rs2Fits, assembled⟩
      · rintro ⟨layout, inRange, _, _, assembled⟩
        exact ⟨layout, inRange, assembled⟩
  | u op rd imm =>
      simp only [encode, bind_eq_ok_iff, Opcode.expect_eq_ok_iff,
        signedPattern_eq_ok_iff, and_assoc,
        exists_and_left, exists_eq_left', Encodable]
      constructor
      · rintro ⟨layout, inRange, assembled⟩
        have assembled : (u op rd imm).raw.assemble .u = .ok word := assembled
        obtain ⟨⟨_, rdFits, _⟩, _⟩ :=
          RawFields.assemble_eq_ok_iff.mp assembled
        exact ⟨layout, inRange, rdFits, assembled⟩
      · rintro ⟨layout, inRange, _, assembled⟩
        exact ⟨layout, inRange, assembled⟩
  | b op rs1 rs2 offset =>
      simp only [encode, bind_eq_ok_iff, Opcode.expect_eq_ok_iff,
        evenPattern_eq_ok_iff, and_assoc,
        exists_and_left, exists_eq_left', Encodable]
      constructor
      · rintro ⟨layout, even, inRange, assembled⟩
        have assembled : (b op rs1 rs2 offset).raw.assemble .b = .ok word := assembled
        obtain ⟨⟨_, _, rs1Fits, rs2Fits, _⟩, _⟩ :=
          RawFields.assemble_eq_ok_iff.mp assembled
        exact ⟨layout, even, inRange, rs1Fits, rs2Fits, assembled⟩
      · rintro ⟨layout, even, inRange, _, _, assembled⟩
        exact ⟨layout, even, inRange, assembled⟩
  | j op rd offset =>
      simp only [encode, bind_eq_ok_iff, Opcode.expect_eq_ok_iff,
        evenPattern_eq_ok_iff, and_assoc,
        exists_and_left, exists_eq_left', Encodable]
      constructor
      · rintro ⟨layout, even, inRange, assembled⟩
        have assembled : (j op rd offset).raw.assemble .j = .ok word := assembled
        obtain ⟨⟨_, rdFits, _⟩, _⟩ :=
          RawFields.assemble_eq_ok_iff.mp assembled
        exact ⟨layout, even, inRange, rdFits, assembled⟩
      · rintro ⟨layout, even, inRange, _, assembled⟩
        exact ⟨layout, even, inRange, assembled⟩

/-- An instruction has a word exactly when it is encodable. -/
theorem exists_encode_iff
    {instruction : Instruction} :
    (∃ word, instruction.encode = .ok word) ↔ instruction.Encodable := by
  constructor
  · rintro ⟨word, encoded⟩
    exact (encode_eq_ok_iff.mp encoded).1
  · intro encodable
    have fits := raw_fits encodable
    refine ⟨UInt32.ofNat (instruction.raw.number instruction.format), ?_⟩
    refine encode_eq_ok_iff.mpr
      ⟨encodable, RawFields.assemble_eq_ok_iff.mpr ⟨fits, ?_⟩⟩
    exact (RawFields.ofNat_eq_iff (RawFields.number_lt fits) _).mp rfl

/-- Reading the word of an instruction gives its fields back. -/
theorem fields_of_encode
    {instruction : Instruction}
    {word : Word}
    (encoded : instruction.encode = .ok word) :
    word.fields instruction.format =
      instruction.raw.reading instruction.format :=
  Word.fields_of_assemble (encode_eq_ok_iff.mp encoded).2

/-- No instructions have no words. -/
@[simp] theorem encodeAll_nil :
    encodeAll [] = .ok [] :=
  rfl

/-- Instructions have words exactly when each of them has one. -/
theorem encodeAll_cons_eq_ok_iff
    {first : Instruction}
    {rest : List Instruction}
    {words : List Word} :
    encodeAll (first :: rest) = .ok words ↔
      ∃ word later, first.encode = .ok word ∧
        encodeAll rest = .ok later ∧ words = word :: later := by
  cases firstEncodes : first.encode with
  | error cause =>
      simp [encodeAll, encodeUntilRefused, firstEncodes]
  | ok word =>
      rcases restEncodes : encodeUntilRefused rest with ⟨later, refusal⟩
      cases refusal with
      | none =>
          simp [encodeAll, encodeUntilRefused, firstEncodes, restEncodes, eq_comm]
      | some cause =>
          simp [encodeAll, encodeUntilRefused, firstEncodes, restEncodes]

/-- Encodable instructions have one word each. -/
theorem exists_encodeAll
    {instructions : List Instruction}
    (encodable : ∀ instruction ∈ instructions, instruction.Encodable) :
    ∃ words, encodeAll instructions = .ok words := by
  induction instructions with
  | nil =>
      exact ⟨[], rfl⟩
  | cons first rest inductionHypothesis =>
      obtain ⟨word, encoded⟩ :=
        exists_encode_iff.mpr (encodable first (by simp))
      obtain ⟨later, restEncoded⟩ :=
        inductionHypothesis fun instruction member =>
          encodable instruction (by simp [member])
      exact ⟨word :: later,
        encodeAll_cons_eq_ok_iff.mpr ⟨word, later, encoded, restEncoded, rfl⟩⟩

/-- What the words of all instructions have, the words of a list have. -/
theorem forall_of_encodeAll
    {property : Word → Prop}
    {instructions : List Instruction}
    {words : List Word}
    (encoded : encodeAll instructions = .ok words)
    (each :
      ∀ instruction ∈ instructions, ∀ word,
        instruction.encode = .ok word → property word) :
    ∀ word ∈ words, property word := by
  induction instructions generalizing words with
  | nil =>
      rw [encodeAll_nil] at encoded
      cases encoded
      intro word member
      cases member
  | cons first rest inductionHypothesis =>
      obtain ⟨word, later, firstEncoded, restEncoded, rfl⟩ :=
        encodeAll_cons_eq_ok_iff.mp encoded
      intro other member
      rcases List.mem_cons.mp member with rfl | inLater
      · exact each first (by simp) _ firstEncoded
      · exact inductionHypothesis restEncoded
          (fun instruction inRest => each instruction (by simp [inRest])) _ inLater

/-- There are as many words as instructions. -/
theorem length_of_encodeAll
    {instructions : List Instruction}
    {words : List Word}
    (encoded : encodeAll instructions = .ok words) :
    words.length = instructions.length := by
  induction instructions generalizing words with
  | nil =>
      cases encoded
      rfl
  | cons first rest inductionHypothesis =>
      obtain ⟨word, later, _, restEncoded, rfl⟩ :=
        encodeAll_cons_eq_ok_iff.mp encoded
      simp [inductionHypothesis restEncoded]

end Instruction

/-!
## What a machine reads from an encoded word

The fields of each shape of instruction, with signed immediates as they were
written.
-/

namespace Word

/-- The fields of an encoded register-register instruction. -/
theorem reads_r
    {op : Opcode}
    {rd rs1 rs2 : Register}
    {word : Word}
    (encoded : (Instruction.r op rd rs1 rs2).encode = .ok word)
    (twoSources : op.fixedFields.fixedRs2 = none) :
    word.opcode = op.fixedFields.major.code ∧ word.rd = rd.index ∧
      word.funct3 = op.fixedFields.funct3 ∧ word.rs1 = rs1.index ∧
      word.rs2 = rs2.index ∧ word.funct7 = op.fixedFields.funct7 := by
  have read := Instruction.fields_of_encode encoded
  simpa [Instruction.format, Instruction.raw, RawFields.reading, fields,
    twoSources] using read

/-- The fields of an encoded register-immediate instruction. -/
theorem reads_i
    {op : Opcode}
    {rd rs1 : Register}
    {imm : Int}
    {word : Word}
    (encoded : (Instruction.i op rd rs1 imm).encode = .ok word) :
    word.opcode = op.fixedFields.major.code ∧ word.rd = rd.index ∧
      word.funct3 = op.fixedFields.funct3 ∧ word.rs1 = rs1.index ∧
      word.bits 20 12 = op.immediateBits imm := by
  have assembled := (Instruction.encode_eq_ok_iff.mp encoded).2
  obtain ⟨fits, same⟩ := RawFields.assemble_eq_ok_iff.mp assembled
  obtain ⟨read, immRead⟩ := fields_of_i fits same
  simp only [fields, RawFields.reading, Instruction.raw, Fields.mk.injEq] at read
  exact ⟨read.1, read.2.1, read.2.2.1, read.2.2.2.1, immRead⟩

/-- An immediate that is no shift amount is read as it was written. -/
theorem immI_eq
    {op : Opcode}
    {rd rs1 : Register}
    {imm : Int}
    {word : Word}
    (encoded : (Instruction.i op rd rs1 imm).encode = .ok word)
    (noShift : op.shift? = none) :
    word.immI = imm := by
  obtain ⟨_, _, _, _, immRead⟩ := reads_i encoded
  obtain ⟨_, accepted, _, _⟩ := (Instruction.encode_eq_ok_iff.mp encoded).1
  simp only [Opcode.AcceptsImmediate, noShift] at accepted
  rw [immI, immRead, Opcode.immediateBits, noShift]
  exact signExtend_emod (by decide) accepted

/-- The fields of an encoded upper-immediate instruction. -/
theorem reads_u
    {op : Opcode}
    {rd : Register}
    {imm : Int}
    {word : Word}
    (encoded : (Instruction.u op rd imm).encode = .ok word) :
    word.opcode = op.fixedFields.major.code ∧ word.rd = rd.index ∧
      word.immU = imm := by
  have read := Instruction.fields_of_encode encoded
  obtain ⟨_, inRange, _⟩ := (Instruction.encode_eq_ok_iff.mp encoded).1
  have exact := signExtend_emod (by decide) inRange
  simp only [fields, RawFields.reading, Instruction.raw, Instruction.format,
    Fields.mk.injEq] at read
  exact ⟨read.1, read.2.1, read.2.2.2.2.2.2.trans exact⟩

/-- The fields of an encoded branch. -/
theorem reads_b
    {op : Opcode}
    {rs1 rs2 : Register}
    {offset : Int}
    {word : Word}
    (encoded : (Instruction.b op rs1 rs2 offset).encode = .ok word) :
    word.opcode = op.fixedFields.major.code ∧
      word.funct3 = op.fixedFields.funct3 ∧ word.rs1 = rs1.index ∧
      word.rs2 = rs2.index ∧ word.immB = offset := by
  have read := Instruction.fields_of_encode encoded
  obtain ⟨_, _, inRange, _⟩ := (Instruction.encode_eq_ok_iff.mp encoded).1
  have exact := signExtend_emod (by decide) inRange
  simp only [fields, RawFields.reading, Instruction.raw, Instruction.format,
    Fields.mk.injEq] at read
  exact ⟨read.1, read.2.2.1, read.2.2.2.1, read.2.2.2.2.1,
    read.2.2.2.2.2.2.trans exact⟩

/-- The fields of an encoded jump. -/
theorem reads_j
    {op : Opcode}
    {rd : Register}
    {offset : Int}
    {word : Word}
    (encoded : (Instruction.j op rd offset).encode = .ok word) :
    word.opcode = op.fixedFields.major.code ∧ word.rd = rd.index ∧
      word.immJ = offset := by
  have read := Instruction.fields_of_encode encoded
  obtain ⟨_, _, inRange, _⟩ := (Instruction.encode_eq_ok_iff.mp encoded).1
  have exact := signExtend_emod (by decide) inRange
  simp only [fields, RawFields.reading, Instruction.raw, Instruction.format,
    Fields.mk.injEq] at read
  exact ⟨read.1, read.2.1, read.2.2.2.2.2.2.trans exact⟩

end Word

/-!
## Distances split over two instructions
-/

/-- The distances that a pair covers. -/
theorem PcRelative.reachable_iff {distance : Int} :
    Reachable distance ↔ -0x80000800 ≤ distance ∧ distance < 0x7ffff800 := by
  unfold Reachable FitsSigned upper
  have half : (1 <<< (20 - 1) : Nat) = 0x80000 := by decide
  rw [half]
  omega

/-- The parts of a distance that is split add up to it. -/
theorem PcRelative.split_eq_ok
    {distance high low : Int}
    (splits : split distance = .ok (high, low)) :
    high * 0x1000 + low = distance ∧ Reachable distance := by
  unfold split at splits
  split at splits
  · rename_i reachable
    cases splits
    refine ⟨?_, reachable⟩
    unfold lower
    omega
  · cases splits

end Rv64Codegen
