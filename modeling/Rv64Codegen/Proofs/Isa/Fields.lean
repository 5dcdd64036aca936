import Rv64Codegen.Isa.Word
import Rv64Codegen.Proofs.Outcome

namespace Rv64Codegen

/-!
# Fields of assembled words

A word is the sum of its fields, and every field can be read back from it.  For
each of the six layouts the assembler succeeds exactly when every field fits its
width; the word then has the number `RawFields.number` and its fields are read
back as `RawFields.reading`.
-/

/-- A field passes its check exactly when it fits, and passes unchanged. -/
@[simp] theorem checkedField_eq_ok_iff
    {field : Field}
    {bits value result : Nat} :
    checkedField field bits value = .ok result ↔
      value < 1 <<< bits ∧ value = result := by
  unfold checkedField
  split
  · rename_i fits
    simp [fits]
  · rename_i wide
    simp [wide]

/--
A field of a word is known once the word is split around it: what stands below
it, the field, and what stands above it.
-/
theorem Word.bits_eq
    {word : Word}
    {low count : Nat}
    (below field above : Nat)
    (whole : word.toNat = below + (field + above * 1 <<< count) * 1 <<< low)
    (belowSmall : below < 1 <<< low)
    (fieldSmall : field < 1 <<< count) :
    word.bits low count = field := by
  have positive : 0 < 1 <<< low := Nat.lt_of_le_of_lt (Nat.zero_le below) belowSmall
  have lowered :
      word.toNat >>> low = field + above * 1 <<< count := by
    rw [whole, Nat.shiftRight_eq_div_pow, ← Nat.one_mul (2 ^ low),
      ← Nat.shiftLeft_eq, Nat.add_mul_div_right _ _ positive,
      Nat.div_eq_of_lt belowSmall, Nat.zero_add]
  rw [Word.bits, lowered, Nat.add_mul_mod_self_right, Nat.mod_eq_of_lt fieldSmall]

namespace RawFields

/-- An offset passes its check exactly when it fits and is even. -/
@[simp] theorem evenField_eq_ok_iff
    {field : Field}
    {bits value result : Nat} :
    evenField field bits value = .ok result ↔
      (value < 1 <<< bits ∧ value % 2 = 0) ∧ value = result := by
  simp only [evenField, bind_eq_ok_iff, checkedField_eq_ok_iff]
  constructor
  · rintro ⟨middle, ⟨fits, rfl⟩, checked⟩
    split at checked
    · rename_i even
      exact ⟨⟨fits, even⟩, Except.ok.inj checked⟩
    · cases checked
  · rintro ⟨⟨fits, even⟩, rfl⟩
    refine ⟨value, ⟨fits, rfl⟩, ?_⟩
    rw [if_pos even]
    rfl

/-- Every field that a layout uses fits its width. -/
def Fits (raw : RawFields) : Format → Prop
  | .r =>
      raw.opcode < 0x80 ∧ raw.rd < 32 ∧ raw.funct3 < 8 ∧
        raw.rs1 < 32 ∧ raw.rs2 < 32 ∧ raw.funct7 < 0x80
  | .i =>
      raw.opcode < 0x80 ∧ raw.rd < 32 ∧ raw.funct3 < 8 ∧
        raw.rs1 < 32 ∧ raw.imm < 0x1000
  | .s =>
      raw.opcode < 0x80 ∧ raw.funct3 < 8 ∧
        raw.rs1 < 32 ∧ raw.rs2 < 32 ∧ raw.imm < 0x1000
  | .b =>
      raw.opcode < 0x80 ∧ raw.funct3 < 8 ∧ raw.rs1 < 32 ∧
        raw.rs2 < 32 ∧ raw.imm < 0x2000 ∧ raw.imm % 2 = 0
  | .u =>
      raw.opcode < 0x80 ∧ raw.rd < 32 ∧ raw.imm < 0x100000
  | .j =>
      raw.opcode < 0x80 ∧ raw.rd < 32 ∧
        raw.imm < 0x200000 ∧ raw.imm % 2 = 0

/-- The number of the word that a layout makes of its fields. -/
def number (raw : RawFields) : Format → Nat
  | .r =>
      raw.opcode + raw.rd * 0x80 + raw.funct3 * 0x1000 +
        raw.rs1 * 0x8000 + raw.rs2 * 0x100000 + raw.funct7 * 0x2000000
  | .i =>
      raw.opcode + raw.rd * 0x80 + raw.funct3 * 0x1000 +
        raw.rs1 * 0x8000 + raw.imm * 0x100000
  | .s =>
      raw.opcode + raw.imm % 32 * 0x80 + raw.funct3 * 0x1000 +
        raw.rs1 * 0x8000 + raw.rs2 * 0x100000 + raw.imm / 32 * 0x2000000
  | .b =>
      raw.opcode + raw.imm / 0x800 % 2 * 0x80 + raw.imm / 2 % 16 * 0x100 +
        raw.funct3 * 0x1000 + raw.rs1 * 0x8000 + raw.rs2 * 0x100000 +
        raw.imm / 32 % 64 * 0x2000000 + raw.imm / 0x1000 % 2 * 0x80000000
  | .u =>
      raw.opcode + raw.rd * 0x80 + raw.imm * 0x1000
  | .j =>
      raw.opcode + raw.rd * 0x80 + raw.imm / 0x1000 % 0x100 * 0x1000 +
        raw.imm / 0x800 % 2 * 0x100000 + raw.imm / 2 % 0x400 * 0x200000 +
        raw.imm / 0x100000 % 2 * 0x80000000

/-- The fields as they are read back, with the immediate as a signed number. -/
def reading (raw : RawFields) : Format → Word.Fields
  | .r =>
      ⟨raw.opcode, raw.rd, raw.funct3, raw.rs1, raw.rs2, raw.funct7, 0⟩
  | .i =>
      ⟨raw.opcode, raw.rd, raw.funct3, raw.rs1, 0, 0, signExtend 12 raw.imm⟩
  | .s =>
      ⟨raw.opcode, 0, raw.funct3, raw.rs1, raw.rs2, 0, signExtend 12 raw.imm⟩
  | .b =>
      ⟨raw.opcode, 0, raw.funct3, raw.rs1, raw.rs2, 0, signExtend 13 raw.imm⟩
  | .u =>
      ⟨raw.opcode, raw.rd, 0, 0, 0, 0, signExtend 20 raw.imm⟩
  | .j =>
      ⟨raw.opcode, raw.rd, 0, 0, 0, 0, signExtend 21 raw.imm⟩

/-- Fields that fit make a number of 32 bits. -/
theorem number_lt
    {raw : RawFields}
    {format : Format}
    (fits : raw.Fits format) :
    raw.number format < 0x100000000 := by
  cases format <;>
    simp only [Fits] at fits <;>
    simp only [number] <;>
    omega

/-- A word made of a 32-bit number is determined by that number. -/
theorem ofNat_eq_iff
    {number : Nat}
    (small : number < 0x100000000)
    (word : Word) :
    UInt32.ofNat number = word ↔ word.toNat = number := by
  have exact : (UInt32.ofNat number).toNat = number := by
    simpa using Nat.mod_eq_of_lt small
  constructor
  · rintro rfl
    exact exact
  · intro same
    exact UInt32.toNat_inj.mp (exact.trans same.symm)

/-- The assembler of a layout, as one test and one sum. -/
theorem assemble_eq_ok_iff
    {format : Format}
    {raw : RawFields}
    {word : Word} :
    raw.assemble format = .ok word ↔
      raw.Fits format ∧ word.toNat = raw.number format := by
  have byNumber (fits : raw.Fits format) :=
    ofNat_eq_iff (number_lt fits) word
  cases format
  all_goals
    simp only [Fits, number] at byNumber
    simp only [assemble, assembleR, assembleI, assembleS, assembleB,
      assembleU, assembleJ, Fits, number, bind_eq_ok_iff, checkedField_eq_ok_iff,
      evenField_eq_ok_iff, and_assoc, exists_and_left, exists_eq_left',
      pure, Except.pure, Except.ok.injEq, Nat.shiftLeft_eq,
      Nat.shiftRight_eq_div_pow, Nat.reducePow, Nat.one_mul]
  case r =>
    constructor
    · rintro ⟨opcode, rd, funct3, rs1, rs2, funct7, same⟩
      exact ⟨opcode, rd, funct3, rs1, rs2, funct7,
        (byNumber ⟨opcode, rd, funct3, rs1, rs2, funct7⟩).mp same⟩
    · rintro ⟨opcode, rd, funct3, rs1, rs2, funct7, same⟩
      exact ⟨opcode, rd, funct3, rs1, rs2, funct7,
        (byNumber ⟨opcode, rd, funct3, rs1, rs2, funct7⟩).mpr same⟩
  case i =>
    constructor
    · rintro ⟨opcode, rd, funct3, rs1, imm, same⟩
      exact ⟨opcode, rd, funct3, rs1, imm,
        (byNumber ⟨opcode, rd, funct3, rs1, imm⟩).mp same⟩
    · rintro ⟨opcode, rd, funct3, rs1, imm, same⟩
      exact ⟨opcode, rd, funct3, rs1, imm,
        (byNumber ⟨opcode, rd, funct3, rs1, imm⟩).mpr same⟩
  case s =>
    constructor
    · rintro ⟨imm, opcode, funct3, rs1, rs2, same⟩
      exact ⟨opcode, funct3, rs1, rs2, imm,
        (byNumber ⟨opcode, funct3, rs1, rs2, imm⟩).mp same⟩
    · rintro ⟨opcode, funct3, rs1, rs2, imm, same⟩
      exact ⟨imm, opcode, funct3, rs1, rs2,
        (byNumber ⟨opcode, funct3, rs1, rs2, imm⟩).mpr same⟩
  case b =>
    constructor
    · rintro ⟨imm, even, opcode, funct3, rs1, rs2, same⟩
      exact ⟨opcode, funct3, rs1, rs2, imm, even,
        (byNumber ⟨opcode, funct3, rs1, rs2, imm, even⟩).mp same⟩
    · rintro ⟨opcode, funct3, rs1, rs2, imm, even, same⟩
      exact ⟨imm, even, opcode, funct3, rs1, rs2,
        (byNumber ⟨opcode, funct3, rs1, rs2, imm, even⟩).mpr same⟩
  case u =>
    constructor
    · rintro ⟨opcode, rd, imm, same⟩
      exact ⟨opcode, rd, imm, (byNumber ⟨opcode, rd, imm⟩).mp same⟩
    · rintro ⟨opcode, rd, imm, same⟩
      exact ⟨opcode, rd, imm, (byNumber ⟨opcode, rd, imm⟩).mpr same⟩
  case j =>
    constructor
    · rintro ⟨imm, even, opcode, rd, same⟩
      exact ⟨opcode, rd, imm, even,
        (byNumber ⟨opcode, rd, imm, even⟩).mp same⟩
    · rintro ⟨opcode, rd, imm, even, same⟩
      exact ⟨imm, even, opcode, rd,
        (byNumber ⟨opcode, rd, imm, even⟩).mpr same⟩

end RawFields

/-!
## Reading fields back

One statement for each layout; the scattered offsets of branches and jumps are
put together again from the pieces that stand in the word.
-/

namespace Word

/-- The fields of a register-register word. -/
theorem fields_of_r
    {raw : RawFields}
    {word : Word}
    (fits : raw.Fits .r)
    (same : word.toNat = raw.number .r) :
    word.fields .r = raw.reading .r := by
  obtain ⟨opcode, rd, funct3, rs1, rs2, funct7, imm⟩ := raw
  simp only [RawFields.Fits] at fits
  simp only [RawFields.number] at same
  have opcodeRead : word.opcode = opcode :=
    bits_eq 0 opcode
      (rd + funct3 * 32 + rs1 * 0x100 + rs2 * 0x2000 + funct7 * 0x40000)
      (by omega) (by omega) (by omega)
  have rdRead : word.rd = rd :=
    bits_eq opcode rd (funct3 + rs1 * 8 + rs2 * 0x100 + funct7 * 0x2000)
      (by omega) (by omega) (by omega)
  have funct3Read : word.funct3 = funct3 :=
    bits_eq (opcode + rd * 0x80) funct3 (rs1 + rs2 * 32 + funct7 * 0x400)
      (by omega) (by omega) (by omega)
  have rs1Read : word.rs1 = rs1 :=
    bits_eq (opcode + rd * 0x80 + funct3 * 0x1000) rs1 (rs2 + funct7 * 32)
      (by omega) (by omega) (by omega)
  have rs2Read : word.rs2 = rs2 :=
    bits_eq (opcode + rd * 0x80 + funct3 * 0x1000 + rs1 * 0x8000) rs2 funct7
      (by omega) (by omega) (by omega)
  have funct7Read : word.funct7 = funct7 :=
    bits_eq
      (opcode + rd * 0x80 + funct3 * 0x1000 + rs1 * 0x8000 + rs2 * 0x100000)
      funct7 0 (by omega) (by omega) (by omega)
  simp only [fields, RawFields.reading, opcodeRead, rdRead, funct3Read,
    rs1Read, rs2Read, funct7Read]

/-- The fields of a register-immediate word. -/
theorem fields_of_i
    {raw : RawFields}
    {word : Word}
    (fits : raw.Fits .i)
    (same : word.toNat = raw.number .i) :
    word.fields .i = raw.reading .i ∧ word.bits 20 12 = raw.imm := by
  obtain ⟨opcode, rd, funct3, rs1, rs2, funct7, imm⟩ := raw
  simp only [RawFields.Fits] at fits
  simp only [RawFields.number] at same
  have opcodeRead : word.opcode = opcode :=
    bits_eq 0 opcode (rd + funct3 * 32 + rs1 * 0x100 + imm * 0x2000)
      (by omega) (by omega) (by omega)
  have rdRead : word.rd = rd :=
    bits_eq opcode rd (funct3 + rs1 * 8 + imm * 0x100)
      (by omega) (by omega) (by omega)
  have funct3Read : word.funct3 = funct3 :=
    bits_eq (opcode + rd * 0x80) funct3 (rs1 + imm * 32)
      (by omega) (by omega) (by omega)
  have rs1Read : word.rs1 = rs1 :=
    bits_eq (opcode + rd * 0x80 + funct3 * 0x1000) rs1 imm
      (by omega) (by omega) (by omega)
  have immRead : word.bits 20 12 = imm :=
    bits_eq (opcode + rd * 0x80 + funct3 * 0x1000 + rs1 * 0x8000) imm 0
      (by omega) (by omega) (by omega)
  refine ⟨?_, immRead⟩
  simp only [fields, immI, RawFields.reading, opcodeRead, rdRead, funct3Read,
    rs1Read, immRead]

/-- The fields of a store word. -/
theorem fields_of_s
    {raw : RawFields}
    {word : Word}
    (fits : raw.Fits .s)
    (same : word.toNat = raw.number .s) :
    word.fields .s = raw.reading .s := by
  obtain ⟨opcode, rd, funct3, rs1, rs2, funct7, imm⟩ := raw
  simp only [RawFields.Fits] at fits
  simp only [RawFields.number] at same
  obtain ⟨low, high, lowSmall, whole, same⟩ :
      ∃ low high, low < 32 ∧ imm = high * 32 + low ∧
        word.toNat = opcode + low * 0x80 + funct3 * 0x1000 +
          rs1 * 0x8000 + rs2 * 0x100000 + high * 0x2000000 :=
    ⟨imm % 32, imm / 32, by omega, by omega, same⟩
  have opcodeRead : word.opcode = opcode :=
    bits_eq 0 opcode
      (low + funct3 * 32 + rs1 * 0x100 + rs2 * 0x2000 + high * 0x40000)
      (by omega) (by omega) (by omega)
  have lowRead : word.bits 7 5 = low :=
    bits_eq opcode low (funct3 + rs1 * 8 + rs2 * 0x100 + high * 0x2000)
      (by omega) (by omega) (by omega)
  have funct3Read : word.funct3 = funct3 :=
    bits_eq (opcode + low * 0x80) funct3 (rs1 + rs2 * 32 + high * 0x400)
      (by omega) (by omega) (by omega)
  have rs1Read : word.rs1 = rs1 :=
    bits_eq (opcode + low * 0x80 + funct3 * 0x1000) rs1 (rs2 + high * 32)
      (by omega) (by omega) (by omega)
  have rs2Read : word.rs2 = rs2 :=
    bits_eq (opcode + low * 0x80 + funct3 * 0x1000 + rs1 * 0x8000) rs2 high
      (by omega) (by omega) (by omega)
  have highRead : word.bits 25 7 = high :=
    bits_eq
      (opcode + low * 0x80 + funct3 * 0x1000 + rs1 * 0x8000 + rs2 * 0x100000)
      high 0 (by omega) (by omega) (by omega)
  have immRead : word.bits 25 7 <<< 5 + word.bits 7 5 = imm := by
    rw [highRead, lowRead, whole, Nat.shiftLeft_eq]
  simp only [fields, immS, RawFields.reading, opcodeRead, funct3Read,
    rs1Read, rs2Read, immRead]

/-- The fields of a branch word. -/
theorem fields_of_b
    {raw : RawFields}
    {word : Word}
    (fits : raw.Fits .b)
    (same : word.toNat = raw.number .b) :
    word.fields .b = raw.reading .b := by
  obtain ⟨opcode, rd, funct3, rs1, rs2, funct7, imm⟩ := raw
  simp only [RawFields.Fits] at fits
  simp only [RawFields.number] at same
  obtain ⟨eleven, low, middle, top, _, _, _, _, whole, same⟩ :
      ∃ eleven low middle top,
        eleven < 2 ∧ low < 16 ∧ middle < 64 ∧ top < 2 ∧
        imm = top * 0x1000 + eleven * 0x800 + middle * 32 + low * 2 ∧
        word.toNat = opcode + eleven * 0x80 + low * 0x100 +
          funct3 * 0x1000 + rs1 * 0x8000 + rs2 * 0x100000 +
          middle * 0x2000000 + top * 0x80000000 :=
    ⟨imm / 0x800 % 2, imm / 2 % 16, imm / 32 % 64, imm / 0x1000 % 2,
      by omega, by omega, by omega, by omega, by omega, same⟩
  have opcodeRead : word.opcode = opcode :=
    bits_eq 0 opcode
      (eleven + low * 2 + funct3 * 32 + rs1 * 0x100 + rs2 * 0x2000 +
        middle * 0x40000 + top * 0x1000000)
      (by omega) (by omega) (by omega)
  have elevenRead : word.bits 7 1 = eleven :=
    bits_eq opcode eleven
      (low + funct3 * 16 + rs1 * 0x80 + rs2 * 0x1000 +
        middle * 0x20000 + top * 0x800000)
      (by omega) (by omega) (by omega)
  have lowRead : word.bits 8 4 = low :=
    bits_eq (opcode + eleven * 0x80) low
      (funct3 + rs1 * 8 + rs2 * 0x100 + middle * 0x2000 + top * 0x80000)
      (by omega) (by omega) (by omega)
  have funct3Read : word.funct3 = funct3 :=
    bits_eq (opcode + eleven * 0x80 + low * 0x100) funct3
      (rs1 + rs2 * 32 + middle * 0x400 + top * 0x10000)
      (by omega) (by omega) (by omega)
  have rs1Read : word.rs1 = rs1 :=
    bits_eq (opcode + eleven * 0x80 + low * 0x100 + funct3 * 0x1000) rs1
      (rs2 + middle * 32 + top * 0x800) (by omega) (by omega) (by omega)
  have rs2Read : word.rs2 = rs2 :=
    bits_eq
      (opcode + eleven * 0x80 + low * 0x100 + funct3 * 0x1000 + rs1 * 0x8000)
      rs2 (middle + top * 64) (by omega) (by omega) (by omega)
  have middleRead : word.bits 25 6 = middle :=
    bits_eq
      (opcode + eleven * 0x80 + low * 0x100 + funct3 * 0x1000 +
        rs1 * 0x8000 + rs2 * 0x100000)
      middle top (by omega) (by omega) (by omega)
  have topRead : word.bits 31 1 = top :=
    bits_eq
      (opcode + eleven * 0x80 + low * 0x100 + funct3 * 0x1000 +
        rs1 * 0x8000 + rs2 * 0x100000 + middle * 0x2000000)
      top 0 (by omega) (by omega) (by omega)
  have immRead :
      word.bits 31 1 <<< 12 + word.bits 7 1 <<< 11 +
          word.bits 25 6 <<< 5 + word.bits 8 4 <<< 1 =
        imm := by
    simp only [topRead, elevenRead, middleRead, lowRead, whole, Nat.shiftLeft_eq,
      Nat.reducePow]
  simp only [fields, immB, RawFields.reading, opcodeRead, funct3Read,
    rs1Read, rs2Read, immRead]

/-- The fields of an upper-immediate word. -/
theorem fields_of_u
    {raw : RawFields}
    {word : Word}
    (fits : raw.Fits .u)
    (same : word.toNat = raw.number .u) :
    word.fields .u = raw.reading .u := by
  obtain ⟨opcode, rd, funct3, rs1, rs2, funct7, imm⟩ := raw
  simp only [RawFields.Fits] at fits
  simp only [RawFields.number] at same
  have opcodeRead : word.opcode = opcode :=
    bits_eq 0 opcode (rd + imm * 32) (by omega) (by omega) (by omega)
  have rdRead : word.rd = rd :=
    bits_eq opcode rd imm (by omega) (by omega) (by omega)
  have immRead : word.bits 12 20 = imm :=
    bits_eq (opcode + rd * 0x80) imm 0 (by omega) (by omega) (by omega)
  simp only [fields, immU, RawFields.reading, opcodeRead, rdRead, immRead]

/-- The fields of a jump word. -/
theorem fields_of_j
    {raw : RawFields}
    {word : Word}
    (fits : raw.Fits .j)
    (same : word.toNat = raw.number .j) :
    word.fields .j = raw.reading .j := by
  obtain ⟨opcode, rd, funct3, rs1, rs2, funct7, imm⟩ := raw
  simp only [RawFields.Fits] at fits
  simp only [RawFields.number] at same
  obtain ⟨middle, eleven, low, top, _, _, _, _, whole, same⟩ :
      ∃ middle eleven low top,
        middle < 0x100 ∧ eleven < 2 ∧ low < 0x400 ∧ top < 2 ∧
        imm = top * 0x100000 + middle * 0x1000 + eleven * 0x800 + low * 2 ∧
        word.toNat = opcode + rd * 0x80 + middle * 0x1000 +
          eleven * 0x100000 + low * 0x200000 + top * 0x80000000 :=
    ⟨imm / 0x1000 % 0x100, imm / 0x800 % 2, imm / 2 % 0x400, imm / 0x100000 % 2,
      by omega, by omega, by omega, by omega, by
        have atEleven : imm / 2 / 0x400 = imm / 0x800 := Nat.div_div_eq_div_mul ..
        have atTwelve : imm / 0x800 / 2 = imm / 0x1000 := Nat.div_div_eq_div_mul ..
        have atTwenty : imm / 0x1000 / 0x100 = imm / 0x100000 :=
          Nat.div_div_eq_div_mul ..
        omega, same⟩
  have opcodeRead : word.opcode = opcode :=
    bits_eq 0 opcode
      (rd + middle * 32 + eleven * 0x2000 + low * 0x4000 + top * 0x1000000)
      (by omega) (by omega) (by omega)
  have rdRead : word.rd = rd :=
    bits_eq opcode rd
      (middle + eleven * 0x100 + low * 0x200 + top * 0x80000)
      (by omega) (by omega) (by omega)
  have middleRead : word.bits 12 8 = middle :=
    bits_eq (opcode + rd * 0x80) middle (eleven + low * 2 + top * 0x800)
      (by omega) (by omega) (by omega)
  have elevenRead : word.bits 20 1 = eleven :=
    bits_eq (opcode + rd * 0x80 + middle * 0x1000) eleven (low + top * 0x400)
      (by omega) (by omega) (by omega)
  have lowRead : word.bits 21 10 = low :=
    bits_eq (opcode + rd * 0x80 + middle * 0x1000 + eleven * 0x100000) low top
      (by omega) (by omega) (by omega)
  have topRead : word.bits 31 1 = top :=
    bits_eq
      (opcode + rd * 0x80 + middle * 0x1000 + eleven * 0x100000 + low * 0x200000)
      top 0 (by omega) (by omega) (by omega)
  have immRead :
      word.bits 31 1 <<< 20 + word.bits 12 8 <<< 12 +
          word.bits 20 1 <<< 11 + word.bits 21 10 <<< 1 =
        imm := by
    simp only [topRead, middleRead, elevenRead, lowRead, whole, Nat.shiftLeft_eq,
      Nat.reducePow]
  simp only [fields, immJ, RawFields.reading, opcodeRead, rdRead, immRead]

/-- The fields of an assembled word are the fields it was assembled from. -/
theorem fields_of_assemble
    {format : Format}
    {raw : RawFields}
    {word : Word}
    (assembled : raw.assemble format = .ok word) :
    word.fields format = raw.reading format := by
  obtain ⟨fits, same⟩ := RawFields.assemble_eq_ok_iff.mp assembled
  cases format with
  | r =>
      exact fields_of_r fits same
  | i =>
      exact (fields_of_i fits same).1
  | s =>
      exact fields_of_s fits same
  | b =>
      exact fields_of_b fits same
  | u =>
      exact fields_of_u fits same
  | j =>
      exact fields_of_j fits same

end Word

end Rv64Codegen
