import Rv64Codegen.Constant.Sequence
import Rv64Codegen.Proofs.Isa.Run

namespace Rv64Codegen

/-!
# Execution of step sequences

A sequence has two readings: `Sequence.value` folds its steps over integers, and
a machine executes the words of its instructions.  A register holds an integer
as `UInt64.ofInt` gives it, and in these terms every step does the same in both
readings.
-/

namespace Step

/-- One of the five opcodes that build constants. -/
def Builds (step : Step) : Prop :=
  step.op = .lui ∨ step.op = .addi ∨ step.op = .addiw ∨
    step.op = .slli ∨ step.op = .srli

instance (step : Step) : Decidable step.Builds :=
  inferInstanceAs (Decidable (_ ∨ _))

/-- A step whose immediate its field can hold. -/
def Fits (step : Step) : Prop :=
  match step.op with
  | .lui => FitsSigned 20 step.imm
  | .addi | .addiw => FitsSigned 12 step.imm
  | .slli | .srli => 0 ≤ step.imm ∧ step.imm ≤ 63
  | _ => False

/-- A step that fits has one of the five opcodes. -/
theorem Fits.builds
    {step : Step}
    (fits : step.Fits) :
    step.Builds := by
  obtain ⟨op, imm⟩ := step
  unfold Builds
  cases op <;> simp_all [Fits]

/-- A step has a word exactly when it fits and its registers have numbers below 32. -/
theorem encodable_iff
    {step : Step}
    (builds : step.Builds)
    (rd source : Register) :
    (step.instruction rd source).Encodable ↔
      step.Fits ∧ rd.index < 32 ∧ (step.op ≠ .lui → source.index < 32) := by
  obtain ⟨op, imm⟩ := step
  rcases builds with isOp | isOp | isOp | isOp | isOp <;>
    subst isOp <;>
    simp [instruction, Instruction.Encodable, Fits, Opcode.format,
      Opcode.fixedFields, Opcode.FixedFields.plain, Opcode.AcceptsImmediate,
      Opcode.shift?, FitsUnsigned]
  all_goals omega

/-!
## Integers in registers
-/

/-- Wrapping an integer to 64 bits does not change what a register holds. -/
theorem ofInt_bmod (value : Int) :
    BitVec.ofInt 64 (value.bmod 0x10000000000000000) = BitVec.ofInt 64 value := by
  apply BitVec.eq_of_toInt_eq
  simp

/-- The low half of a register. -/
theorem setWidth_ofInt (value : Int) :
    (BitVec.ofInt 64 value).setWidth 32 = BitVec.ofInt 32 value := by
  apply BitVec.eq_of_toNat_eq
  simp only [BitVec.toNat_setWidth, BitVec.toNat_ofInt]
  omega

/-- A left shift multiplies the integer in a register. -/
theorem ofInt_shiftLeft
    (value : Int)
    (amount : Nat) :
    BitVec.ofInt 64 value <<< amount = BitVec.ofInt 64 (value <<< amount) := by
  have power : BitVec.twoPow 64 amount = BitVec.ofInt 64 (2 ^ amount : Nat) := by
    apply BitVec.eq_of_toNat_eq
    simp only [BitVec.toNat_twoPow, BitVec.toNat_ofInt]
    omega
  rw [BitVec.shiftLeft_eq_mul_twoPow, power, ← BitVec.ofInt_mul, Int.shiftLeft_eq,
    Int.natCast_pow]
  rfl

/-- A logical right shift acts on the unsigned number in a register. -/
theorem ofInt_shiftRight
    (value : Int)
    (amount : Nat) :
    BitVec.ofInt 64 value >>> amount =
      BitVec.ofInt 64 ((value % 0x10000000000000000) >>> amount) := by
  obtain ⟨unsigned, isUnsigned⟩ :=
    Int.eq_ofNat_of_zero_le
      (Int.emod_nonneg value (by decide : (0x10000000000000000 : Int) ≠ 0))
  have small : unsigned < 0x10000000000000000 := by omega
  have smaller : unsigned >>> amount ≤ unsigned := Nat.shiftRight_le unsigned amount
  apply BitVec.eq_of_toNat_eq
  rw [BitVec.toNat_ushiftRight, BitVec.toNat_ofInt, BitVec.toNat_ofInt]
  have left : (value % ((2 ^ 64 : Nat) : Int)).toNat = unsigned := by omega
  rw [left, isUnsigned]
  have right : (unsigned : Int) >>> amount = (unsigned >>> amount : Nat) := rfl
  rw [right]
  generalize unsigned >>> amount = shifted at *
  omega

/-- A step does to a register what it does to the integer in it. -/
theorem execute_instruction
    {machine : Machine}
    {step : Step}
    {rd source : Register}
    {value : Int}
    {word : Word}
    (builds : step.Builds)
    (encoded : (step.instruction rd source).encode = .ok word)
    (held : machine.read source.index = UInt64.ofInt value) :
    machine.execute word =
      .ok (machine.commit rd.index
        ⟨some (UInt64.ofInt (step.apply value)), machine.pc + 4⟩) := by
  have fits := ((encodable_iff builds rd source).mp
    (Instruction.encode_eq_ok_iff.mp encoded).1).1
  obtain ⟨op, imm⟩ := step
  rw [Machine.ofInt_eq] at held
  rcases builds with isOp | isOp | isOp | isOp | isOp <;> subst isOp
  · obtain ⟨lower, upper⟩ : FitsSigned 20 imm := fits
    have kept : (imm * 0x1000).bmod 0x100000000 = imm * 0x1000 :=
      Int.bmod_eq_of_le (by omega) (by omega)
    rw [apply, kept]
    exact Machine.execute_lui encoded
  · apply (Machine.execute_immediate encoded rfl).trans
    rw [held, apply, Machine.ofInt_eq, ofInt_bmod, BitVec.ofInt_add]
  · apply (Machine.execute_immediate encoded rfl).trans
    rw [held, apply, Machine.ofInt_eq, setWidth_ofInt, ← BitVec.ofInt_add,
      BitVec.signExtend, BitVec.toInt_ofInt]
  · obtain ⟨lower, upper⟩ : 0 ≤ imm ∧ imm ≤ 63 := fits
    have amount : (imm % 64).toNat = imm.toNat := by omega
    apply (Machine.execute_immediate encoded rfl).trans
    rw [held, apply, Machine.ofInt_eq, ofInt_bmod, amount, ofInt_shiftLeft]
  · obtain ⟨lower, upper⟩ : 0 ≤ imm ∧ imm ≤ 63 := fits
    have amount : (imm % 64).toNat = imm.toNat := by omega
    apply (Machine.execute_immediate encoded rfl).trans
    rw [held, apply, Machine.ofInt_eq, ofInt_bmod, amount, ofInt_shiftRight]

/-- The word of a step is straight. -/
theorem straight_of_encode
    {step : Step}
    {rd source : Register}
    {word : Word}
    (builds : step.Builds)
    (encoded : (step.instruction rd source).encode = .ok word) :
    Machine.Straight word := by
  obtain ⟨op, imm⟩ := step
  rcases builds with isOp | isOp | isOp | isOp | isOp <;> subst isOp
  · exact Machine.straight_lui encoded
  all_goals exact Machine.straight_immediate encoded fun _ => ⟨_, rfl⟩

/-- Steps from one register to itself do to it what they do to the integer in it. -/
theorem executeAll_instructions
    {rd : Register}
    {steps : List Step}
    {words : List Word}
    {machine : Machine}
    {value : Int}
    (notZero : rd.index ≠ 0)
    (small : rd.index < 32)
    (builds : ∀ step ∈ steps, step.Builds)
    (encoded : Instruction.encodeAll (steps.map (instruction rd rd)) = .ok words)
    (held : machine.read rd.index = UInt64.ofInt value) :
    ∃ after,
      machine.executeAll words = .ok after ∧
        machine.Delivers after rd.index
          (UInt64.ofInt (steps.foldl apply value)) (4 * steps.length) := by
  induction steps generalizing machine value words with
  | nil =>
      rw [List.map_nil, Instruction.encodeAll_nil] at encoded
      cases encoded
      exact ⟨machine, rfl, held, fun _ _ _ => rfl, (UInt64.add_zero _).symm, rfl⟩
  | cons step rest inductionHypothesis =>
      rw [List.map_cons, Instruction.encodeAll_cons_eq_ok_iff] at encoded
      obtain ⟨word, later, encodedFirst, encodedLater, rfl⟩ := encoded
      have delivers :=
        Machine.delivers_commit machine (UInt64.ofInt (step.apply value)) notZero small
      obtain ⟨after, executed, delivered⟩ :=
        inductionHypothesis (fun step member => builds step (by simp [member]))
          encodedLater delivers.value
      refine ⟨after, ?_, ?_⟩
      · rw [Machine.executeAll, execute_instruction (builds step (by simp)) encodedFirst held]
        exact executed
      · have total := delivers.trans delivered
        rw [List.foldl_cons, List.length_cons, Nat.mul_succ, Nat.add_comm]
        exact total

end Step

namespace Sequence

/-- An instruction of a sequence belongs to one of its steps. -/
theorem mem_instructions
    {sequence : Sequence}
    {rd : Register}
    {instruction : Instruction}
    (member : instruction ∈ sequence.instructions rd) :
    ∃ step source,
      step ∈ sequence.steps ∧ (source = .zero ∨ source = rd) ∧
        instruction = step.instruction rd source := by
  obtain ⟨steps, short⟩ := sequence
  cases steps with
  | nil =>
      cases member
  | cons first later =>
      rcases List.mem_cons.mp member with isFirst | inLater
      · exact ⟨first, .zero, by simp, Or.inl rfl, isFirst⟩
      · obtain ⟨step, stepMember, rfl⟩ := List.mem_map.mp inLater
        exact ⟨step, rd, by simp [stepMember], Or.inr rfl, rfl⟩

theorem length_instructions
    (sequence : Sequence)
    (rd : Register) :
    (sequence.instructions rd).length = sequence.length := by
  obtain ⟨steps, short⟩ := sequence
  cases steps with
  | nil =>
      rfl
  | cons first later =>
      simp [instructions, length]

/-- The instructions of steps that fit have words for every register with a number. -/
theorem encodable_instructions
    (sequence : Sequence)
    {rd : Register}
    (small : rd.index < 32)
    (fits : ∀ step ∈ sequence.steps, step.Fits) :
    ∀ instruction ∈ sequence.instructions rd, instruction.Encodable := by
  intro instruction member
  obtain ⟨step, source, stepMember, isSource, rfl⟩ := mem_instructions member
  have stepFits := fits step stepMember
  refine (Step.encodable_iff stepFits.builds rd source).mpr ⟨stepFits, small, fun _ => ?_⟩
  rcases isSource with rfl | rfl
  · decide
  · exact small

/-- A sequence of steps that fit has words for every register with a number. -/
theorem exists_encodeAll
    {sequence : Sequence}
    {rd : Register}
    (small : rd.index < 32)
    (fits : ∀ step ∈ sequence.steps, step.Fits) :
    ∃ words, Instruction.encodeAll (sequence.instructions rd) = .ok words :=
  Instruction.exists_encodeAll (sequence.encodable_instructions small fits)

/-- The words of a sequence deliver its value and change nothing else. -/
theorem executeAll_of_encodeAll
    {sequence : Sequence}
    {rd : Register}
    {words : List Word}
    {machine : Machine}
    (notZero : rd.index ≠ 0)
    (builds : ∀ step ∈ sequence.steps, step.Builds)
    (nonempty : sequence.steps ≠ [])
    (encoded : Instruction.encodeAll (sequence.instructions rd) = .ok words)
    (zero : machine.read 0 = 0) :
    ∃ after,
      machine.executeAll words = .ok after ∧
        machine.Delivers after rd.index (UInt64.ofInt sequence.value) sequence.byteSize := by
  obtain ⟨steps, short⟩ := sequence
  cases steps with
  | nil =>
      exact absurd rfl nonempty
  | cons first later =>
      obtain ⟨word, rest, encodedFirst, encodedRest, rfl⟩ :=
        Instruction.encodeAll_cons_eq_ok_iff.mp encoded
      have encodable := (Instruction.encode_eq_ok_iff.mp encodedFirst).1
      have small := ((Step.encodable_iff (builds first (by simp)) rd .zero).mp encodable).2.1
      have held : machine.read Register.zero.index = UInt64.ofInt 0 := zero
      have delivers :=
        Machine.delivers_commit machine (UInt64.ofInt (first.apply 0)) notZero small
      obtain ⟨after, executed, delivered⟩ :=
        Step.executeAll_instructions notZero small
          (fun step member => builds step (by simp [member])) encodedRest delivers.value
      refine ⟨after, ?_, ?_⟩
      · rw [Machine.executeAll,
          Step.execute_instruction (builds first (by simp)) encodedFirst held]
        exact executed
      · have total := delivers.trans delivered
        rw [byteSize, length, List.length_cons, Nat.mul_comm, Nat.mul_succ, Nat.add_comm]
        exact total

/-- The words of a sequence are straight. -/
theorem straight_of_encodeAll
    {sequence : Sequence}
    {rd : Register}
    {words : List Word}
    (builds : ∀ step ∈ sequence.steps, step.Builds)
    (encoded : Instruction.encodeAll (sequence.instructions rd) = .ok words) :
    ∀ word ∈ words, Machine.Straight word := by
  refine Instruction.forall_of_encodeAll encoded ?_
  intro instruction member word wordEncoded
  obtain ⟨step, source, stepMember, -, rfl⟩ := mem_instructions member
  exact Step.straight_of_encode (builds step stepMember) wordEncoded

end Sequence

end Rv64Codegen
