import Rv64Codegen.Proofs.Isa.Encoding

namespace Rv64Codegen

/-!
# Words and the instructions they stand for

An instruction has a word exactly when its operands are in range, and its word
tells which instruction it is.  Many opcodes share a major opcode.  What tells
them apart is `funct3`, then `funct7`, and for shifts by a constant the part of
the immediate field above the shift amount.
-/

namespace Opcode

/-- A move between the register files, which has no second source. -/
def isMove : Opcode → Bool
  | .fmvXW | .fmvWX | .fmvXD | .fmvDX => true
  | _ => false

/-- The least and the greatest immediate of a register-immediate opcode. -/
def immediateBounds : Opcode → Int × Int
  | .slli | .srli | .srai => (0, 63)
  | .slliw | .srliw | .sraiw => (0, 31)
  | _ => (-2048, 2047)

/-- Exactly the moves have a fixed second source. -/
theorem fixedRs2_eq (op : Opcode) :
    op.fixedFields.fixedRs2 = if op.isMove then some 0 else none := by
  cases op <;> rfl

/-- A register-immediate opcode takes what lies between its bounds. -/
theorem acceptsImmediate_iff
    {op : Opcode}
    {imm : Int} :
    op.AcceptsImmediate imm ↔
      op.immediateBounds.1 ≤ imm ∧ imm ≤ op.immediateBounds.2 := by
  cases op <;>
    simp only [AcceptsImmediate, shift?, immediateBounds, FitsSigned, FitsUnsigned,
      Nat.reduceShiftLeft, Nat.reduceSub] <;>
    omega

/-!
## What a word shows of its opcode
-/

/-- The layout of all words with a major opcode. -/
def Major.format : Major → Format
  | .lui | .auipc => .u
  | .jal => .j
  | .branch => .b
  | .store | .storeFp => .s
  | .jalr | .load | .loadFp | .opImm | .opImm32 => .i
  | .op | .op32 | .opFp => .r

/-- An opcode has the layout of its major opcode. -/
theorem format_eq (op : Opcode) :
    op.format = op.fixedFields.major.format := by
  cases op <;> rfl

theorem Major.code_injective
    {first second : Major}
    (same : first.code = second.code) :
    first = second := by
  have known := Major.ofCode?_code first
  rw [same, Major.ofCode?_code] at known
  exact (Option.some.inj known).symm

/--
The fixed parts of a word, as far as its layout has them.  For a shift they
include the bits above the shift amount.
-/
def signature (op : Opcode) : Major × Nat × Nat :=
  match op.format with
  | .r => (op.fixedFields.major, op.fixedFields.funct3, op.fixedFields.funct7)
  | .i => (op.fixedFields.major, op.fixedFields.funct3, (op.shift?.map (·.high)).getD 0)
  | .s | .b => (op.fixedFields.major, op.fixedFields.funct3, 0)
  | .u | .j => (op.fixedFields.major, 0, 0)

/-- An opcode is found by its signature. -/
theorem find?_signature (op : Opcode) :
    all.find? (fun other => other.signature == op.signature) = some op := by
  cases op <;> rfl

theorem signature_injective
    {first second : Opcode}
    (same : first.signature = second.signature) :
    first = second := by
  have found := find?_signature first
  rw [same, find?_signature] at found
  exact (Option.some.inj found).symm

/-- Whether an opcode is a shift is decided by its major opcode and `funct3`. -/
theorem isSome_shift?_eq (op : Opcode) :
    op.shift?.isSome =
      ((op.fixedFields.major == .opImm || op.fixedFields.major == .opImm32) &&
        (op.fixedFields.funct3 == 1 || op.fixedFields.funct3 == 5)) := by
  cases op <;> rfl

/-- A shift amount has six bits at most and leaves only bit 10 to the opcode. -/
theorem shift?_spec
    {op : Opcode}
    {shift : ShiftField}
    (isShift : op.shift? = some shift) :
    (shift.amountBits = 5 ∨ shift.amountBits = 6) ∧
      (shift.high = 0 ∨ shift.high = 0x400) := by
  cases op <;> cases isShift <;> decide

/--
The immediate fields of two opcodes, both shifts or both not, are the same only
if the bits above the shift amount are, and the immediates.
-/
theorem immediateBits_injective
    {first second : Opcode}
    {firstImm secondImm : Int}
    (firstTakes : first.AcceptsImmediate firstImm)
    (secondTakes : second.AcceptsImmediate secondImm)
    (alike : first.shift?.isSome = second.shift?.isSome)
    (same : first.immediateBits firstImm = second.immediateBits secondImm) :
    (first.shift?.map (·.high)).getD 0 = (second.shift?.map (·.high)).getD 0 ∧
      firstImm = secondImm := by
  unfold AcceptsImmediate at firstTakes secondTakes
  unfold immediateBits at same
  cases firstShift : first.shift? with
  | none =>
      have secondShift : second.shift? = none := by
        rw [firstShift] at alike
        simpa using alike.symm
      rw [firstShift] at firstTakes same
      rw [secondShift] at secondTakes same ⊢
      simp only [FitsSigned, Nat.reduceShiftLeft, Nat.reduceSub] at firstTakes secondTakes same
      exact ⟨rfl, by omega⟩
  | some shift =>
      obtain ⟨other, secondShift⟩ : ∃ other, second.shift? = some other := by
        rw [firstShift] at alike
        exact Option.isSome_iff_exists.mp alike.symm
      obtain ⟨firstWidth, firstHigh⟩ := shift?_spec firstShift
      obtain ⟨secondWidth, secondHigh⟩ := shift?_spec secondShift
      rw [firstShift] at firstTakes same
      rw [secondShift] at secondTakes same ⊢
      have narrow {width : Nat} {imm : Int}
          (isWidth : width = 5 ∨ width = 6)
          (fits : FitsUnsigned width imm) :
          0 ≤ imm ∧ imm < 64 := by
        rcases isWidth with rfl | rfl
        · simp only [FitsUnsigned, Nat.reduceShiftLeft] at fits
          omega
        · exact fits
      obtain ⟨firstLower, firstUpper⟩ := narrow firstWidth firstTakes
      obtain ⟨secondLower, secondUpper⟩ := narrow secondWidth secondTakes
      simp only [Option.map_some, Option.getD_some] at same ⊢
      omega

end Opcode

namespace Instruction

/-- The opcode of an instruction. -/
def opcode : Instruction → Opcode
  | .r op .. => op
  | .i op .. => op
  | .s op .. => op
  | .u op .. => op
  | .b op .. => op
  | .j op .. => op

/-- The register numbers that the word of an instruction carries. -/
def numbers : Instruction → List Nat
  | .r op rd rs1 rs2 =>
      if op.isMove then
        [rd.index, rs1.index]
      else
        [rd.index, rs1.index, rs2.index]
  | .i _ rd rs1 _ => [rd.index, rs1.index]
  | .s _ rs2 rs1 _ => [rs2.index, rs1.index]
  | .u _ rd _ => [rd.index]
  | .b _ rs1 rs2 _ => [rs1.index, rs2.index]
  | .j _ rd _ => [rd.index]

/-- The immediate or offset of an instruction, if its layout has one. -/
def immediate? : Instruction → Option Int
  | .r .. => none
  | .i _ _ _ imm => some imm
  | .s _ _ _ imm => some imm
  | .u _ _ imm => some imm
  | .b _ _ _ offset => some offset
  | .j _ _ offset => some offset

/-- An immediate that the word has room for; branches and jumps go to even offsets. -/
def ImmediateInRange : Instruction → Prop
  | .r .. => True
  | .i op _ _ imm => op.immediateBounds.1 ≤ imm ∧ imm ≤ op.immediateBounds.2
  | .s _ _ _ imm => -2048 ≤ imm ∧ imm ≤ 2047
  | .u _ _ imm => -0x80000 ≤ imm ∧ imm ≤ 0x7ffff
  | .b _ _ _ offset => offset % 2 = 0 ∧ -4096 ≤ offset ∧ offset ≤ 4095
  | .j _ _ offset => offset % 2 = 0 ∧ -0x100000 ≤ offset ∧ offset ≤ 0xfffff

/-- Encodable instructions are those of the right layout with operands in range. -/
theorem encodable_iff_inRange
    {instruction : Instruction} :
    instruction.Encodable ↔
      instruction.opcode.format = instruction.format ∧
        (∀ number ∈ instruction.numbers, number ≤ 31) ∧ instruction.ImmediateInRange := by
  cases instruction with
  | r op rd rs1 rs2 =>
      refine and_congr_right fun _ => ?_
      simp only [numbers, ImmediateInRange, op.fixedRs2_eq]
      cases op.isMove <;> simp <;> omega
  | i op rd rs1 imm =>
      refine and_congr_right fun _ => ?_
      simp only [numbers, ImmediateInRange, Opcode.acceptsImmediate_iff,
        List.forall_mem_cons, List.not_mem_nil, false_implies, implies_true,
        and_true]
      omega
  | s op rs2 rs1 imm =>
      refine and_congr_right fun _ => ?_
      simp only [numbers, ImmediateInRange, FitsSigned, Nat.reduceShiftLeft, Nat.reduceSub,
        List.forall_mem_cons, List.not_mem_nil, false_implies, implies_true,
        and_true]
      omega
  | u op rd imm =>
      refine and_congr_right fun _ => ?_
      simp only [numbers, ImmediateInRange, FitsSigned, Nat.reduceShiftLeft, Nat.reduceSub,
        List.forall_mem_cons, List.not_mem_nil, false_implies, implies_true,
        and_true]
      omega
  | b op rs1 rs2 offset =>
      refine and_congr_right fun _ => ?_
      simp only [numbers, ImmediateInRange, FitsSigned, Nat.reduceShiftLeft, Nat.reduceSub,
        List.forall_mem_cons, List.not_mem_nil, false_implies, implies_true,
        and_true]
      omega
  | j op rd offset =>
      refine and_congr_right fun _ => ?_
      simp only [numbers, ImmediateInRange, FitsSigned, Nat.reduceShiftLeft, Nat.reduceSub,
        List.forall_mem_cons, List.not_mem_nil, false_implies, implies_true,
        and_true]
      omega

/-- The layout is checked before anything else. -/
theorem encode_eq_formatMismatch
    {instruction : Instruction}
    (mismatch : instruction.opcode.format ≠ instruction.format) :
    instruction.encode =
      .error (.formatMismatch instruction.opcode instruction.format
        instruction.opcode.format) := by
  cases instruction <;>
    simp only [encode, Opcode.expect, opcode, format] at mismatch ⊢ <;>
    rw [if_neg mismatch] <;>
    rfl

/-!
## Reading an instruction off its word
-/

/-- Every word shows its major opcode. -/
theorem opcode_of_encode
    {instruction : Instruction}
    {word : Word}
    (encoded : instruction.encode = .ok word) :
    word.opcode = instruction.opcode.fixedFields.major.code := by
  have read := congrArg Word.Fields.opcode (fields_of_encode encoded)
  cases instruction <;> exact read

/-- Two instructions with one word have one layout. -/
theorem format_unique
    {first second : Instruction}
    {word : Word}
    (firstEncodes : first.encode = .ok word)
    (secondEncodes : second.encode = .ok word) :
    first.format = second.format ∧
      first.opcode.fixedFields.major = second.opcode.fixedFields.major := by
  have major := Opcode.Major.code_injective
    ((opcode_of_encode firstEncodes).symm.trans (opcode_of_encode secondEncodes))
  obtain ⟨firstLayout, -⟩ := encodable_iff_inRange.mp (encode_eq_ok_iff.mp firstEncodes).1
  obtain ⟨secondLayout, -⟩ := encodable_iff_inRange.mp (encode_eq_ok_iff.mp secondEncodes).1
  refine ⟨?_, major⟩
  rw [← firstLayout, ← secondLayout, Opcode.format_eq, Opcode.format_eq, major]

end Instruction

namespace Word

/-- The fields of an encoded register-register instruction, moves included. -/
theorem reads_register
    {op : Opcode}
    {rd rs1 rs2 : Register}
    {word : Word}
    (encoded : (Instruction.r op rd rs1 rs2).encode = .ok word) :
    word.rd = rd.index ∧ word.funct3 = op.fixedFields.funct3 ∧ word.rs1 = rs1.index ∧
      word.rs2 = op.fixedFields.fixedRs2.getD rs2.index ∧
        word.funct7 = op.fixedFields.funct7 := by
  have read := Instruction.fields_of_encode encoded
  simp only [fields, RawFields.reading, Instruction.raw, Instruction.format,
    Fields.mk.injEq] at read
  exact ⟨read.2.1, read.2.2.1, read.2.2.2.1, read.2.2.2.2.1, read.2.2.2.2.2.1⟩

/-- The fields of an encoded store. -/
theorem reads_s
    {op : Opcode}
    {rs2 rs1 : Register}
    {imm : Int}
    {word : Word}
    (encoded : (Instruction.s op rs2 rs1 imm).encode = .ok word) :
    word.funct3 = op.fixedFields.funct3 ∧ word.rs1 = rs1.index ∧
      word.rs2 = rs2.index ∧ word.immS = imm := by
  have read := Instruction.fields_of_encode encoded
  obtain ⟨_, inRange, _⟩ := (Instruction.encode_eq_ok_iff.mp encoded).1
  have exact := signExtend_emod (by decide) inRange
  simp only [fields, RawFields.reading, Instruction.raw, Instruction.format,
    Fields.mk.injEq] at read
  exact ⟨read.2.2.1, read.2.2.2.1, read.2.2.2.2.1, read.2.2.2.2.2.2.trans exact⟩

end Word

namespace Instruction

/-- Two register-register instructions with one word. -/
theorem register_unique
    {op op' : Opcode}
    {rd rd' rs1 rs1' rs2 rs2' : Register}
    {word : Word}
    (first : (Instruction.r op rd rs1 rs2).encode = .ok word)
    (second : (Instruction.r op' rd' rs1' rs2').encode = .ok word)
    (major : op.fixedFields.major = op'.fixedFields.major) :
    op = op' ∧
      (Instruction.r op rd rs1 rs2).numbers = (Instruction.r op' rd' rs1' rs2').numbers := by
  obtain ⟨rdRead, funct3, rs1Read, rs2Read, funct7⟩ := Word.reads_register first
  obtain ⟨rdRead', funct3', rs1Read', rs2Read', funct7'⟩ := Word.reads_register second
  have layout : op.format = .r := (encode_eq_ok_iff.mp first).1.1
  have layout' : op'.format = .r := (encode_eq_ok_iff.mp second).1.1
  have sameOpcode : op = op' := by
    apply Opcode.signature_injective
    simp only [Opcode.signature, layout, layout', Prod.mk.injEq]
    exact ⟨major, funct3.symm.trans funct3', funct7.symm.trans funct7'⟩
  subst sameOpcode
  refine ⟨rfl, ?_⟩
  rw [rdRead] at rdRead'
  rw [rs1Read] at rs1Read'
  rw [rs2Read, op.fixedRs2_eq] at rs2Read'
  simp only [numbers, rdRead', rs1Read']
  cases isMove : op.isMove with
  | true =>
      rfl
  | false =>
      rw [isMove] at rs2Read'
      rw [show rs2.index = rs2'.index from rs2Read']

/-- Two register-immediate instructions with one word. -/
theorem immediate_unique
    {op op' : Opcode}
    {rd rd' rs1 rs1' : Register}
    {imm imm' : Int}
    {word : Word}
    (first : (Instruction.i op rd rs1 imm).encode = .ok word)
    (second : (Instruction.i op' rd' rs1' imm').encode = .ok word)
    (major : op.fixedFields.major = op'.fixedFields.major) :
    op = op' ∧ rd.index = rd'.index ∧ rs1.index = rs1'.index ∧ imm = imm' := by
  obtain ⟨-, rdRead, funct3, rs1Read, immRead⟩ := Word.reads_i first
  obtain ⟨-, rdRead', funct3', rs1Read', immRead'⟩ := Word.reads_i second
  obtain ⟨layout, takes, -⟩ := (encode_eq_ok_iff.mp first).1
  obtain ⟨layout', takes', -⟩ := (encode_eq_ok_iff.mp second).1
  have minor := funct3.symm.trans funct3'
  have alike : op.shift?.isSome = op'.shift?.isSome := by
    rw [op.isSome_shift?_eq, op'.isSome_shift?_eq, major, minor]
  obtain ⟨high, sameImm⟩ :=
    Opcode.immediateBits_injective takes takes' alike (immRead.symm.trans immRead')
  refine ⟨?_, rdRead.symm.trans rdRead', rs1Read.symm.trans rs1Read', sameImm⟩
  apply Opcode.signature_injective
  simp only [Opcode.signature, layout, layout', Prod.mk.injEq]
  exact ⟨major, minor, high⟩

/-- A word stands for one opcode, with its register numbers and its immediate. -/
theorem operands_unique
    {first second : Instruction}
    {word : Word}
    (firstEncodes : first.encode = .ok word)
    (secondEncodes : second.encode = .ok word) :
    first.opcode = second.opcode ∧ first.numbers = second.numbers ∧
      first.immediate? = second.immediate? := by
  obtain ⟨sameFormat, major⟩ := format_unique firstEncodes secondEncodes
  obtain ⟨layout, -⟩ := encodable_iff_inRange.mp (encode_eq_ok_iff.mp firstEncodes).1
  obtain ⟨layout', -⟩ := encodable_iff_inRange.mp (encode_eq_ok_iff.mp secondEncodes).1
  cases first with
  | r op rd rs1 rs2 =>
      cases second with
      | r op' rd' rs1' rs2' =>
          obtain ⟨sameOpcode, sameNumbers⟩ :=
            register_unique firstEncodes secondEncodes major
          exact ⟨sameOpcode, sameNumbers, rfl⟩
      | _ =>
          cases sameFormat
  | i op rd rs1 imm =>
      cases second with
      | i op' rd' rs1' imm' =>
          obtain ⟨sameOpcode, sameRd, sameRs1, sameImm⟩ :=
            immediate_unique firstEncodes secondEncodes major
          simp only [opcode, numbers, immediate?]
          simp [sameOpcode, sameRd, sameRs1, sameImm]
      | _ =>
          cases sameFormat
  | s op rs2 rs1 imm =>
      cases second with
      | s op' rs2' rs1' imm' =>
          obtain ⟨funct3, rs1Read, rs2Read, immRead⟩ := Word.reads_s firstEncodes
          obtain ⟨funct3', rs1Read', rs2Read', immRead'⟩ := Word.reads_s secondEncodes
          refine ⟨Opcode.signature_injective ?_, ?_, ?_⟩
          · simp only [Opcode.signature, layout, layout', format, Prod.mk.injEq]
            exact ⟨major, funct3.symm.trans funct3', trivial⟩
          · simp [numbers, ← rs1Read, ← rs1Read', ← rs2Read, ← rs2Read']
          · simp [immediate?, ← immRead, ← immRead']
      | _ =>
          cases sameFormat
  | u op rd imm =>
      cases second with
      | u op' rd' imm' =>
          obtain ⟨-, rdRead, immRead⟩ := Word.reads_u firstEncodes
          obtain ⟨-, rdRead', immRead'⟩ := Word.reads_u secondEncodes
          refine ⟨Opcode.signature_injective ?_, ?_, ?_⟩
          · simp only [Opcode.signature, layout, layout', format, Prod.mk.injEq]
            exact ⟨major, trivial⟩
          · simp [numbers, ← rdRead, ← rdRead']
          · simp [immediate?, ← immRead, ← immRead']
      | _ =>
          cases sameFormat
  | b op rs1 rs2 offset =>
      cases second with
      | b op' rs1' rs2' offset' =>
          obtain ⟨-, funct3, rs1Read, rs2Read, offsetRead⟩ := Word.reads_b firstEncodes
          obtain ⟨-, funct3', rs1Read', rs2Read', offsetRead'⟩ := Word.reads_b secondEncodes
          refine ⟨Opcode.signature_injective ?_, ?_, ?_⟩
          · simp only [Opcode.signature, layout, layout', format, Prod.mk.injEq]
            exact ⟨major, funct3.symm.trans funct3', trivial⟩
          · simp [numbers, ← rs1Read, ← rs1Read', ← rs2Read, ← rs2Read']
          · simp [immediate?, ← offsetRead, ← offsetRead']
      | _ =>
          cases sameFormat
  | j op rd offset =>
      cases second with
      | j op' rd' offset' =>
          obtain ⟨-, rdRead, offsetRead⟩ := Word.reads_j firstEncodes
          obtain ⟨-, rdRead', offsetRead'⟩ := Word.reads_j secondEncodes
          refine ⟨Opcode.signature_injective ?_, ?_, ?_⟩
          · simp only [Opcode.signature, layout, layout', format, Prod.mk.injEq]
            exact ⟨major, trivial⟩
          · simp [numbers, ← rdRead, ← rdRead']
          · simp [immediate?, ← offsetRead, ← offsetRead']
      | _ =>
          cases sameFormat

/--
Encoding is exact and unambiguous.  In the layout of its opcode, an instruction has
a word exactly when its register numbers are at most 31 and its immediate is in
range; in any other layout it is refused for its layout, whatever its operands are.
Instructions with the same word have the same opcode, the same register numbers and
the same immediate.
-/
theorem encoding_exact
    (instruction : Instruction) :
    (instruction.opcode.format = instruction.format →
        ((∃ word, instruction.encode = .ok word) ↔
          (∀ number ∈ instruction.numbers, number ≤ 31) ∧ instruction.ImmediateInRange)) ∧
      (instruction.opcode.format ≠ instruction.format →
        instruction.encode =
          .error (.formatMismatch instruction.opcode instruction.format
            instruction.opcode.format)) ∧
      ∀ (other : Instruction) (word : Word),
        instruction.encode = .ok word → other.encode = .ok word →
          instruction.opcode = other.opcode ∧ instruction.numbers = other.numbers ∧
            instruction.immediate? = other.immediate? := by
  refine ⟨?_, encode_eq_formatMismatch, ?_⟩
  · intro layout
    rw [exists_encode_iff, encodable_iff_inRange]
    exact and_iff_right layout
  · intro other word encoded otherEncoded
    exact operands_unique encoded otherEncoded

/--
The widest arithmetic shift has a word, an addition has none with an immediate, and
two moves that differ in a source they do not have share a word.
-/
theorem encoding_exact_sharedFields :
    let shift : Instruction := .i .srai (.x 31) (.x 1) 63
    let misplaced : Instruction := .i .add (.x 99) (.x 1) 5000
    let move : Instruction := .r .fmvXD (.x 10) (.f 11) (.x 200)
    let sameMove : Instruction := .r .fmvXD (.x 10) (.f 11) (.x 3)
    (∃ word, shift.encode = .ok word) ∧
      misplaced.encode = .error (.formatMismatch .add .i .r) ∧
        move.encode = .ok 0xe2058553 ∧ sameMove.encode = .ok 0xe2058553 ∧
          move.opcode = sameMove.opcode ∧ move.numbers = sameMove.numbers ∧
            move.immediate? = sameMove.immediate? := by
  intro shift misplaced move sameMove
  have moves : move.encode = .ok 0xe2058553 := rfl
  have movesToo : sameMove.encode = .ok 0xe2058553 := rfl
  have inRange : shift.ImmediateInRange := by
    show (0 : Int) ≤ 63 ∧ (63 : Int) ≤ 63
    decide
  exact ⟨((encoding_exact shift).1 rfl).mpr ⟨by decide, inRange⟩,
    (encoding_exact misplaced).2.1 (by decide), moves, movesToo,
    (encoding_exact move).2.2 sameMove _ moves movesToo⟩

end Instruction

end Rv64Codegen
