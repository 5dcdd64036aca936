import Rv64Codegen.Proofs.Isa.Encoding

namespace Rv64Codegen

/-!
# Words and their fields

Any 32-bit word can be cut into runs of bits, and is the sum of these.  In each of
the six layouts the cuts are at the ends of the fields and of the pieces of the
immediate, so a word is what its own fields are assembled to, whether it is an
instruction or not.  Together with the fields that are read back from an assembled
word, assembling and reading are inverse to each other.
-/

/-- A sign-extended pattern is the number that fits the width and has the pattern. -/
theorem signExtend_spec
    {bits pattern : Nat}
    (positive : 0 < bits)
    (small : pattern < 1 <<< bits) :
    FitsSigned bits (signExtend bits pattern) ∧
      signExtend bits pattern % (1 <<< bits : Nat) = pattern := by
  have double := shiftLeft_eq_two_mul_half positive
  simp only [FitsSigned, signExtend, Nat.mod_eq_of_lt small]
  generalize 1 <<< (bits - 1) = half at *
  generalize 1 <<< bits = range at *
  split
  · refine ⟨⟨by omega, by omega⟩, ?_⟩
    exact Int.emod_eq_of_lt (by omega) (by omega)
  · refine ⟨⟨by omega, by omega⟩, ?_⟩
    rw [Int.sub_emod_right]
    exact Int.emod_eq_of_lt (by omega) (by omega)

/-- Masking a sign-extended pattern gives the pattern. -/
theorem toNat_signExtend_emod
    {bits pattern : Nat}
    (positive : 0 < bits)
    (small : pattern < 1 <<< bits) :
    (signExtend bits pattern % (1 <<< bits : Nat)).toNat = pattern := by
  rw [(signExtend_spec positive small).2]
  exact Int.toNat_natCast pattern

/-- The number of bits of the immediate, counted with a lowest bit that no word carries. -/
def Format.immediateBits : Format → Nat
  | .r => 0
  | .i => 12
  | .s => 12
  | .b => 13
  | .u => 20
  | .j => 21

namespace Word

/-- Fields to assemble, from fields that were read: the immediate is masked to its width. -/
def Fields.masked
    (fields : Fields)
    (format : Format) :
    RawFields where
  opcode := fields.opcode
  rd := fields.rd
  funct3 := fields.funct3
  rs1 := fields.rs1
  rs2 := fields.rs2
  funct7 := fields.funct7
  imm := (fields.imm % (1 <<< format.immediateBits : Nat)).toNat

/-!
## Cutting a word
-/

theorem bits_lt
    (word : Word)
    (low count : Nat) :
    word.bits low count < 1 <<< count := by
  refine Nat.mod_lt _ ?_
  rw [Nat.shiftLeft_eq, Nat.one_mul]
  exact Nat.two_pow_pos count

/-- A run of bits is cut in two. -/
theorem bits_add
    (word : Word)
    (low first second : Nat) :
    word.bits low (first + second) =
      word.bits low first + 1 <<< first * word.bits (low + first) second := by
  simp only [bits, Nat.shiftLeft_eq, Nat.one_mul, Nat.pow_add, Nat.shiftRight_add]
  rw [Nat.mod_mul, ← Nat.shiftRight_eq_div_pow]

/-- The sum of runs of bits of the given lengths, one behind the other. -/
def pieces
    (word : Word)
    (low : Nat) :
    List Nat → Nat
  | [] =>
      0
  | count :: rest =>
      word.bits low count + 1 <<< count * word.pieces (low + count) rest

theorem pieces_eq
    (word : Word)
    (low : Nat)
    (counts : List Nat) :
    word.pieces low counts = word.bits low (counts.foldr (· + ·) 0) := by
  induction counts generalizing low with
  | nil =>
      exact (Nat.mod_one _).symm
  | cons count rest inductionHypothesis =>
      rw [pieces, inductionHypothesis, List.foldr_cons, bits_add]

/-- A word is the sum of its pieces, wherever it is cut. -/
theorem toNat_eq_pieces
    (word : Word)
    (counts : List Nat)
    (whole : counts.foldr (· + ·) 0 = 32) :
    word.toNat = word.pieces 0 counts := by
  rw [pieces_eq, whole]
  exact (Nat.mod_eq_of_lt word.toNat_lt).symm

/-!
## Assembling what was read

The immediate that is read from a word is put together from pieces of the word, and
assembling cuts it at the same places.
-/

theorem fields_small (word : Word) :
    word.opcode < 0x80 ∧ word.rd < 32 ∧ word.funct3 < 8 ∧
      word.rs1 < 32 ∧ word.rs2 < 32 ∧ word.funct7 < 0x80 :=
  ⟨word.bits_lt 0 7, word.bits_lt 7 5, word.bits_lt 12 3, word.bits_lt 15 5,
    word.bits_lt 20 5, word.bits_lt 25 7⟩

/-- The fields of a word in a layout fit it, and have the number of the word. -/
def Reassembles
    (word : Word)
    (format : Format) :
    Prop :=
  ((word.fields format).masked format).Fits format ∧
    word.toNat = ((word.fields format).masked format).number format

theorem reassembles_r (word : Word) :
    word.Reassembles .r := by
  have whole :
      word.toNat =
        word.opcode + 0x80 * (word.rd + 32 * (word.funct3 + 8 *
          (word.rs1 + 32 * (word.rs2 + 32 * (word.funct7 + 0x80 * 0))))) :=
    word.toNat_eq_pieces [7, 5, 3, 5, 5, 7] rfl
  refine ⟨word.fields_small, ?_⟩
  simp only [RawFields.number, Fields.masked, fields]
  omega

theorem reassembles_i (word : Word) :
    word.Reassembles .i := by
  obtain ⟨opcode, rd, funct3, rs1, -, -⟩ := word.fields_small
  have imm := word.bits_lt 20 12
  have isImm : ((word.fields .i).masked .i).imm = word.bits 20 12 :=
    toNat_signExtend_emod (by decide) imm
  have whole :
      word.toNat =
        word.opcode + 0x80 * (word.rd + 32 * (word.funct3 + 8 *
          (word.rs1 + 32 * (word.bits 20 12 + 0x1000 * 0)))) :=
    word.toNat_eq_pieces [7, 5, 3, 5, 12] rfl
  simp only [Reassembles, RawFields.Fits, RawFields.number, isImm]
  refine ⟨⟨opcode, rd, funct3, rs1, imm⟩, ?_⟩
  simp only [Fields.masked, fields]
  omega

theorem reassembles_s (word : Word) :
    word.Reassembles .s := by
  obtain ⟨opcode, -, funct3, rs1, rs2, -⟩ := word.fields_small
  have low : word.bits 7 5 < 32 := word.bits_lt 7 5
  have high : word.bits 25 7 < 0x80 := word.bits_lt 25 7
  have isImm :
      ((word.fields .s).masked .s).imm = word.bits 25 7 * 32 + word.bits 7 5 := by
    simp only [Fields.masked, fields, immS, Nat.shiftLeft_eq (word.bits _ _), Nat.reducePow]
    exact toNat_signExtend_emod (by decide) (show _ < 0x1000 by omega)
  have whole :
      word.toNat =
        word.opcode + 0x80 * (word.bits 7 5 + 32 * (word.funct3 + 8 *
          (word.rs1 + 32 * (word.rs2 + 32 * (word.bits 25 7 + 0x80 * 0))))) :=
    word.toNat_eq_pieces [7, 5, 3, 5, 5, 7] rfl
  simp only [Reassembles, RawFields.Fits, RawFields.number, isImm]
  refine ⟨⟨opcode, funct3, rs1, rs2, by omega⟩, ?_⟩
  simp only [Fields.masked, fields]
  omega

theorem reassembles_b (word : Word) :
    word.Reassembles .b := by
  obtain ⟨opcode, -, funct3, rs1, rs2, -⟩ := word.fields_small
  have eleven : word.bits 7 1 < 2 := word.bits_lt 7 1
  have low : word.bits 8 4 < 16 := word.bits_lt 8 4
  have middle : word.bits 25 6 < 64 := word.bits_lt 25 6
  have top : word.bits 31 1 < 2 := word.bits_lt 31 1
  have isImm :
      ((word.fields .b).masked .b).imm =
        word.bits 31 1 * 0x1000 + word.bits 7 1 * 0x800 +
          word.bits 25 6 * 32 + word.bits 8 4 * 2 := by
    simp only [Fields.masked, fields, immB, Nat.shiftLeft_eq (word.bits _ _), Nat.reducePow]
    exact toNat_signExtend_emod (by decide) (show _ < 0x2000 by omega)
  have whole :
      word.toNat =
        word.opcode + 0x80 * (word.bits 7 1 + 2 * (word.bits 8 4 + 16 * (word.funct3 + 8 *
          (word.rs1 + 32 * (word.rs2 + 32 * (word.bits 25 6 + 64 *
            (word.bits 31 1 + 2 * 0))))))) :=
    word.toNat_eq_pieces [7, 1, 4, 3, 5, 5, 6, 1] rfl
  simp only [Reassembles, RawFields.Fits, RawFields.number, isImm]
  refine ⟨⟨opcode, funct3, rs1, rs2, by omega, by omega⟩, ?_⟩
  simp only [Fields.masked, fields]
  omega

theorem reassembles_u (word : Word) :
    word.Reassembles .u := by
  obtain ⟨opcode, rd, -⟩ := word.fields_small
  have imm := word.bits_lt 12 20
  have isImm : ((word.fields .u).masked .u).imm = word.bits 12 20 :=
    toNat_signExtend_emod (by decide) imm
  have whole :
      word.toNat = word.opcode + 0x80 * (word.rd + 32 * (word.bits 12 20 + 0x100000 * 0)) :=
    word.toNat_eq_pieces [7, 5, 20] rfl
  simp only [Reassembles, RawFields.Fits, RawFields.number, isImm]
  refine ⟨⟨opcode, rd, imm⟩, ?_⟩
  simp only [Fields.masked, fields]
  omega

theorem reassembles_j (word : Word) :
    word.Reassembles .j := by
  obtain ⟨opcode, rd, -⟩ := word.fields_small
  have middle : word.bits 12 8 < 0x100 := word.bits_lt 12 8
  have eleven : word.bits 20 1 < 2 := word.bits_lt 20 1
  have low : word.bits 21 10 < 0x400 := word.bits_lt 21 10
  have top : word.bits 31 1 < 2 := word.bits_lt 31 1
  have isImm :
      ((word.fields .j).masked .j).imm =
        word.bits 31 1 * 0x100000 + word.bits 12 8 * 0x1000 +
          word.bits 20 1 * 0x800 + word.bits 21 10 * 2 := by
    simp only [Fields.masked, fields, immJ, Nat.shiftLeft_eq (word.bits _ _), Nat.reducePow]
    exact toNat_signExtend_emod (by decide) (show _ < 0x200000 by omega)
  have whole :
      word.toNat =
        word.opcode + 0x80 * (word.rd + 32 * (word.bits 12 8 + 0x100 * (word.bits 20 1 + 2 *
          (word.bits 21 10 + 0x400 * (word.bits 31 1 + 2 * 0))))) :=
    word.toNat_eq_pieces [7, 5, 8, 1, 10, 1] rfl
  simp only [Reassembles, RawFields.Fits, RawFields.number, isImm]
  refine ⟨⟨opcode, rd, by omega, by omega⟩, ?_⟩
  simp only [Fields.masked, fields]
  generalize isPattern :
    word.bits 31 1 * 0x100000 + word.bits 12 8 * 0x1000 + word.bits 20 1 * 0x800 +
      word.bits 21 10 * 2 = pattern
  have atTwenty : pattern / 0x100000 = word.bits 31 1 := by omega
  have atTwelve : pattern / 0x1000 = word.bits 31 1 * 0x100 + word.bits 12 8 := by omega
  have atEleven : pattern / 0x800 = pattern / 0x1000 * 2 + word.bits 20 1 := by omega
  have atOne : pattern / 2 = pattern / 0x800 * 0x400 + word.bits 21 10 := by omega
  rw [atOne, atEleven, atTwelve, atTwenty, Nat.mul_add_mod', Nat.mul_add_mod',
    Nat.mul_add_mod', Nat.mod_eq_of_lt middle, Nat.mod_eq_of_lt eleven, Nat.mod_eq_of_lt low,
    Nat.mod_eq_of_lt top]
  omega

/-- In every layout a word is assembled from its own fields. -/
theorem assemble_fields
    (word : Word)
    (format : Format) :
    ((word.fields format).masked format).assemble format = .ok word := by
  rw [RawFields.assemble_eq_ok_iff]
  cases format with
  | r =>
      exact word.reassembles_r
  | i =>
      exact word.reassembles_i
  | s =>
      exact word.reassembles_s
  | b =>
      exact word.reassembles_b
  | u =>
      exact word.reassembles_u
  | j =>
      exact word.reassembles_j

end Word

namespace RawFields

/-- An immediate is read as a number of its width that has the pattern of the field. -/
theorem reading_imm
    {raw : RawFields}
    {format : Format}
    (fits : raw.Fits format) :
    FitsSigned format.immediateBits (raw.reading format).imm ∧
      (format ≠ .r →
        (raw.reading format).imm % (1 <<< format.immediateBits : Nat) = raw.imm) := by
  cases format with
  | r =>
      exact ⟨show FitsSigned 0 0 by decide, fun notR => absurd rfl notR⟩
  | i =>
      obtain ⟨-, -, -, -, imm⟩ := fits
      obtain ⟨inRange, same⟩ := signExtend_spec (show 0 < 12 by decide) imm
      exact ⟨inRange, fun _ => same⟩
  | s =>
      obtain ⟨-, -, -, -, imm⟩ := fits
      obtain ⟨inRange, same⟩ := signExtend_spec (show 0 < 12 by decide) imm
      exact ⟨inRange, fun _ => same⟩
  | b =>
      obtain ⟨-, -, -, -, imm, -⟩ := fits
      obtain ⟨inRange, same⟩ := signExtend_spec (show 0 < 13 by decide) imm
      exact ⟨inRange, fun _ => same⟩
  | u =>
      obtain ⟨-, -, imm⟩ := fits
      obtain ⟨inRange, same⟩ := signExtend_spec (show 0 < 20 by decide) imm
      exact ⟨inRange, fun _ => same⟩
  | j =>
      obtain ⟨-, -, imm, -⟩ := fits
      obtain ⟨inRange, same⟩ := signExtend_spec (show 0 < 21 by decide) imm
      exact ⟨inRange, fun _ => same⟩

/--
Assembling and reading are inverse to each other in every layout.  Fields have a
word exactly when they fit; the word is read as these fields, with the immediate as
the signed number of its pattern.  And every word is assembled from what is read of
it, with the immediate masked to its width.
-/
theorem assemble_fields_inverse
    (format : Format)
    (raw : RawFields) :
    ((∃ word, raw.assemble format = .ok word) ↔ raw.Fits format) ∧
      (∀ word,
        raw.assemble format = .ok word →
          word.fields format = raw.reading format ∧
            FitsSigned format.immediateBits (word.fields format).imm ∧
              (format ≠ .r →
                (word.fields format).imm % (1 <<< format.immediateBits : Nat) = raw.imm)) ∧
        ∀ word : Word, ((word.fields format).masked format).assemble format = .ok word := by
  refine ⟨?_, ?_, ?_⟩
  · constructor
    · rintro ⟨word, assembled⟩
      exact (assemble_eq_ok_iff.mp assembled).1
    · intro fits
      have small := number_lt fits
      refine ⟨UInt32.ofNat (raw.number format), assemble_eq_ok_iff.mpr ⟨fits, ?_⟩⟩
      exact (ofNat_eq_iff small _).mp rfl
  · intro word assembled
    have read := Word.fields_of_assemble assembled
    rw [read]
    exact ⟨rfl, reading_imm (assemble_eq_ok_iff.mp assembled).1⟩
  · intro word
    exact word.assemble_fields format

end RawFields

end Rv64Codegen
