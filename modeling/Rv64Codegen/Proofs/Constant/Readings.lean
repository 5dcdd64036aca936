import Rv64Codegen.Proofs.Constant.Synthesis

namespace Rv64Codegen.Sequence

/-!
# Two readings of a sequence

A sequence need not come from synthesis: its steps may stand in any order, shift
what is not there and start over in the middle.  Wherever all of them have words,
the words leave in a register what the steps make of zero.  The first word reads
the zero register, so nothing of what the register held before is left.
-/

variable
  {sequence : Sequence}

/-- The value of a sequence is a signed 64-bit number. -/
theorem toInt_value
    (builds : ∀ step ∈ sequence.steps, step.Builds) :
    (Int64.ofInt sequence.value).toInt = sequence.value := by
  obtain ⟨lower, upper⟩ :=
    Constant.foldl_range builds
      (show -0x8000000000000000 ≤ (0 : Int) ∧ (0 : Int) < 0x8000000000000000 by decide)
  rw [Int64.toInt_ofInt]
  exact Int.bmod_eq_of_le lower upper

/--
Both readings of a sequence agree: if its steps are of the five kinds that build
constants and all of them have words, then the words evaluate to the value of the
steps as 64 bits, in every register but the zero register and whatever the register
held before.
-/
theorem evaluate_eq_value
    (sequence : Sequence)
    (rd : Register)
    (garbage : UInt64)
    (words : List Word)
    (nonempty : sequence.steps ≠ [])
    (builds : ∀ step ∈ sequence.steps, step.Builds)
    (notZero : rd.index ≠ 0)
    (small : rd.index < 32)
    (encoded : Instruction.encodeAll (sequence.instructions rd) = .ok words) :
    ∃ value : Int64,
      value.toInt = sequence.value ∧
        Machine.evaluate words rd.index garbage = .ok value.toUInt64 := by
  have zero : ((Machine.start #[]).store rd.index garbage).read 0 = 0 :=
    (Machine.read_store_of_ne _ garbage small (by decide) notZero.symm).trans rfl
  obtain ⟨after, executed, delivered⟩ :=
    executeAll_of_encodeAll notZero builds nonempty encoded zero
  refine ⟨Int64.ofInt sequence.value, toInt_value builds, ?_⟩
  rw [Machine.evaluate, if_neg notZero, executed, Except.map, delivered.value,
    ← Constant.ofInt_toInt, toInt_value builds]

/-- Eight steps with a `lui` in the middle, which forgets the ones in front of it. -/
def startsOver : Sequence where
  steps :=
    [⟨.addi, -1⟩, ⟨.srli, 1⟩, ⟨.lui, -0x80000⟩, ⟨.addiw, -1⟩, ⟨.slli, 33⟩, ⟨.addi, -0x800⟩,
      ⟨.srli, 4⟩, ⟨.slli, 1⟩]

/-- The register was full of ones before. -/
theorem evaluate_eq_value_startsOver :
    startsOver.steps ≠ [] ∧ (∀ step ∈ startsOver.steps, step.Builds) ∧
      (Register.x 31).index ≠ 0 ∧ (Register.x 31).index < 32 ∧
        ∃ (words : List Word) (value : Int64),
          Instruction.encodeAll (startsOver.instructions (.x 31)) = .ok words ∧
            words.length = 8 ∧ value.toInt = startsOver.value ∧ value = 0x1fffffffbfffff00 ∧
              Machine.evaluate words (Register.x 31).index 0xffffffffffffffff =
                .ok value.toUInt64 := by
  have builds : ∀ step ∈ startsOver.steps, step.Builds := by
    decide
  have encodes :
      (Instruction.encodeAll (startsOver.instructions (.x 31))).map List.length = .ok 8 := by
    decide +kernel
  obtain ⟨words, encoded, length⟩ := map_eq_ok_iff.mp encodes
  obtain ⟨value, isValue, evaluated⟩ :=
    evaluate_eq_value startsOver (.x 31) 0xffffffffffffffff words (by decide) builds
      (by decide) (by decide) encoded
  have number : startsOver.value = 0x1fffffffbfffff00 := by
    decide +kernel
  refine ⟨by decide, builds, by decide, by decide, words, value, encoded, length, isValue, ?_,
    evaluated⟩
  exact Int64.toInt_inj.mp (isValue.trans number)

end Rv64Codegen.Sequence
