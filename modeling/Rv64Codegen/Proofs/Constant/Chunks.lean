import Mathlib.Data.Int.ModEq
import Mathlib.Tactic.Ring
import Rv64Codegen.Constant.Synthesis
import Rv64Codegen.Proofs.Constant.Execution

namespace Rv64Codegen

/-!
# Values of split constants

What the steps of a split leave behind.  Values are followed modulo `2 ^ 64`:
the steps of the high part give it as a signed number, and every chunk of the
offset is put behind it like a digit.  The cursor of the offset keeps what is
still to be built, so the loop over the chunks is one invariant.
-/

namespace Step

/-- An `addi` adds, modulo `2 ^ 64`. -/
theorem apply_addi_modEq
    (value imm : Int) :
    apply value ⟨.addi, imm⟩ ≡ value + imm [ZMOD 0x10000000000000000] :=
  Int.bmod_emod ..

/-- An `slli` multiplies by a power of two, modulo `2 ^ 64`. -/
theorem apply_slli_modEq
    (value : Int)
    {amount : Nat}
    (small : amount ≤ 63) :
    apply value ⟨.slli, amount⟩ ≡ value * 2 ^ amount [ZMOD 0x10000000000000000] := by
  have kept : ((amount : Int) % 64).toNat = amount := by omega
  rw [← Int.shiftLeft_eq, apply, kept]
  exact Int.bmod_emod ..

/-- Every step that builds constants ends in the signed 64-bit range. -/
theorem apply_range
    {step : Step}
    (builds : step.Builds)
    (value : Int) :
    -0x8000000000000000 ≤ step.apply value ∧ step.apply value < 0x8000000000000000 := by
  have word (n : Int) :
      -0x80000000 ≤ n.bmod 0x100000000 ∧ n.bmod 0x100000000 < 0x80000000 :=
    ⟨Int.le_bmod (by decide), Int.bmod_lt (by decide)⟩
  have double (n : Int) :
      -0x8000000000000000 ≤ n.bmod 0x10000000000000000 ∧
        n.bmod 0x10000000000000000 < 0x8000000000000000 :=
    ⟨Int.le_bmod (by decide), Int.bmod_lt (by decide)⟩
  obtain ⟨op, imm⟩ := step
  rcases builds with isOp | isOp | isOp | isOp | isOp <;> subst isOp
  · have := word (imm * 0x1000)
    simp only [apply]
    omega
  · exact double _
  · have := word (value + imm)
    simp only [apply]
    omega
  · exact double _
  · exact double _

end Step

namespace Constant

/-!
## Bits of natural numbers
-/

/-- A number is below the power of two of its length. -/
theorem lt_two_pow_bitLength (n : Nat) :
    n < 2 ^ bitLength n := by
  unfold bitLength
  split
  · omega
  · exact Nat.lt_log2_self

/-- A number below a power of two has no more bits than that. -/
theorem bitLength_le_of_lt
    {n bits : Nat}
    (small : n < 2 ^ bits) :
    bitLength n ≤ bits := by
  unfold bitLength
  split
  · omega
  · rename_i nonzero
    exact (Nat.log2_lt nonzero).mpr small

/-- What stands below a place, with the digit above it. -/
theorem mod_two_pow_add
    (n low width : Nat) :
    n % 2 ^ (low + width) = n % 2 ^ low + 2 ^ low * ((n >>> low) % 2 ^ width) := by
  rw [Nat.pow_add, Nat.mod_mul, Nat.shiftRight_eq_div_pow]

namespace Split

/-!
## The offset
-/

/-- The sign with which the offset counts. -/
def sign (split : Split) : Int :=
  if split.subtract then -1 else 1

namespace Cursor

/--
A cursor that stands on a whole chunk or on the last one, with a shift that a
shift step can do.
-/
structure Ready (cursor : Cursor) : Prop where
  full : cursor.low = 0 ∨ cursor.width = 11
  narrow : cursor.width ≤ 11
  reach : cursor.pending + cursor.low ≤ 63

/-- Below a chunk and inside of it, an offset is the chunk and what is below. -/
theorem mod_eq
    (cursor : Cursor)
    (offset : Nat) :
    offset % 2 ^ (cursor.low + cursor.width) =
      offset % 2 ^ cursor.low + 2 ^ cursor.low * cursor.chunk offset := by
  rw [mod_two_pow_add, chunk, Nat.one_shiftLeft]

/-- A chunk has as many bits as the cursor is wide. -/
theorem chunk_lt
    (cursor : Cursor)
    (offset : Nat) :
    cursor.chunk offset < 2 ^ cursor.width := by
  rw [chunk, Nat.one_shiftLeft]
  exact Nat.mod_lt _ (Nat.two_pow_pos _)

theorem width_ne_zero
    {cursor : Cursor}
    {offset : Nat}
    (someChunk : cursor.chunk offset ≠ 0) :
    cursor.width ≠ 0 := by
  intro narrow
  have noBits := cursor.chunk_lt offset
  rw [narrow] at noBits
  omega

/-- Widening moves the place and the shift by the same amount. -/
theorem widen_pending_add_low
    (cursor : Cursor)
    (offset : Nat) :
    (cursor.widen offset).pending + (cursor.widen offset).low =
      cursor.pending + cursor.low := by
  simp only [widen]
  omega

/-- Widening loses no bit of the offset: those it gives up at the top are zero. -/
theorem widen_mod_eq
    {cursor : Cursor}
    (ready : cursor.Ready)
    (offset : Nat) :
    offset % 2 ^ ((cursor.widen offset).low + (cursor.widen offset).width) =
      offset % 2 ^ (cursor.low + cursor.width) := by
  have lengthLe : bitLength (cursor.chunk offset) ≤ cursor.width :=
    bitLength_le_of_lt (cursor.chunk_lt offset)
  obtain ⟨full, narrow, -⟩ := ready
  have enough :
      cursor.low + bitLength (cursor.chunk offset) ≤
        (cursor.widen offset).low + (cursor.widen offset).width := by
    simp only [widen]
    omega
  have noMore :
      (cursor.widen offset).low + (cursor.widen offset).width ≤
        cursor.low + cursor.width := by
    simp only [widen]
    omega
  have small :
      offset % 2 ^ (cursor.low + cursor.width) <
        2 ^ (cursor.low + bitLength (cursor.chunk offset)) := by
    have below : offset % 2 ^ cursor.low < 2 ^ cursor.low :=
      Nat.mod_lt _ (Nat.two_pow_pos _)
    have inside := lt_two_pow_bitLength (cursor.chunk offset)
    rw [mod_eq, Nat.pow_add]
    calc
      offset % 2 ^ cursor.low + 2 ^ cursor.low * cursor.chunk offset
          < 2 ^ cursor.low * (cursor.chunk offset + 1) := by
            rw [Nat.mul_succ]
            omega
      _ ≤ 2 ^ cursor.low * 2 ^ bitLength (cursor.chunk offset) :=
            Nat.mul_le_mul_left _ inside
  rw [← Nat.mod_mod_of_dvd offset (Nat.pow_dvd_pow 2 noMore)]
  exact Nat.mod_eq_of_lt
    (Nat.lt_of_lt_of_le small (Nat.pow_le_pow_right (by decide) enough))

/-- A widened cursor has done its shift with the chunk it stands on. -/
theorem Ready.widen
    {cursor : Cursor}
    (ready : cursor.Ready)
    (offset : Nat) :
    Ready { cursor.widen offset with pending := 0 } := by
  obtain ⟨full, narrow, reach⟩ := ready
  refine ⟨?_, narrow, ?_⟩
  · rcases full with atEnd | whole
    · left
      simp [Cursor.widen, atEnd]
    · exact Or.inr whole
  · simp only [Cursor.widen]
    omega

/-- A cursor that goes on stands on a whole chunk again or on the last one. -/
theorem Ready.advance
    {cursor : Cursor}
    (ready : cursor.Ready) :
    cursor.advance.Ready := by
  obtain ⟨full, narrow, reach⟩ := ready
  constructor <;> simp only [Cursor.advance] <;> omega

/-- Going on, a cursor stands on everything that was below it. -/
theorem advance_low_add_width
    {cursor : Cursor}
    (ready : cursor.Ready) :
    cursor.advance.low + cursor.advance.width = cursor.low := by
  obtain ⟨full, narrow, -⟩ := ready
  simp only [advance]
  omega

/-- Going on moves the place and the shift by the same amount. -/
theorem advance_pending_add_low (cursor : Cursor) :
    cursor.advance.pending + cursor.advance.low = cursor.pending + cursor.low := by
  simp only [advance]
  omega

end Cursor

/-- The steps of a chunk shift the value up and bring the chunk in. -/
theorem foldl_chunkSteps_modEq
    (split : Split)
    {cursor : Cursor}
    (reach : cursor.pending ≤ 63)
    (value : Int) :
    (split.chunkSteps cursor).foldl Step.apply value ≡
      value * 2 ^ cursor.pending + split.sign * cursor.chunk split.offset
        [ZMOD 0x10000000000000000] := by
  have signed :
      (if split.subtract then -(cursor.chunk split.offset : Int)
        else cursor.chunk split.offset) =
        split.sign * cursor.chunk split.offset := by
    unfold sign
    split <;> ring
  rw [chunkSteps, signed]
  calc
    Step.apply (Step.apply value ⟨.slli, cursor.pending⟩)
          ⟨.addi, split.sign * cursor.chunk split.offset⟩
        ≡ Step.apply value ⟨.slli, cursor.pending⟩ +
            split.sign * cursor.chunk split.offset [ZMOD 0x10000000000000000] :=
          Step.apply_addi_modEq ..
    _ ≡ value * 2 ^ cursor.pending + split.sign * cursor.chunk split.offset
          [ZMOD 0x10000000000000000] :=
          (Step.apply_slli_modEq value reach).add_right _

/-- What is still to be built when a value stands before a cursor. -/
def remaining
    (split : Split)
    (cursor : Cursor)
    (bits : Nat)
    (value : Int) :
    Int :=
  value * 2 ^ (cursor.pending + cursor.low) + split.sign * (split.offset % 2 ^ bits : Nat)

/-- Taking a chunk does not change what is being built. -/
theorem takeChunk_modEq
    {split : Split}
    {cursor : Cursor}
    (ready : cursor.Ready)
    (value : Int) :
    split.remaining (split.takeChunk cursor).2 (split.takeChunk cursor).2.low
        ((split.takeChunk cursor).1.foldl Step.apply value) ≡
      split.remaining cursor (cursor.low + cursor.width) value
        [ZMOD 0x10000000000000000] := by
  unfold takeChunk
  split
  · rename_i emptyChunk
    have same :
        split.offset % 2 ^ (cursor.low + cursor.width) = split.offset % 2 ^ cursor.low := by
      rw [cursor.mod_eq, emptyChunk, Nat.mul_zero, Nat.add_zero]
    rw [List.foldl_nil, remaining, remaining, same]
  · have moved := cursor.widen_pending_add_low split.offset
    have same := Cursor.widen_mod_eq ready split.offset
    generalize cursor.widen split.offset = wide at moved same ⊢
    have reach : wide.pending ≤ 63 := by
      have := ready.reach
      omega
    have chunk :
        ((split.offset % 2 ^ (wide.low + wide.width) : Nat) : Int) =
          (split.offset % 2 ^ wide.low : Nat) +
            2 ^ wide.low * (wide.chunk split.offset : Int) := by
      rw [wide.mod_eq]
      push_cast
      ring
    simp only [remaining, ← same, chunk, ← moved]
    have shifted :=
      ((foldl_chunkSteps_modEq split reach value).mul_right
        (2 ^ wide.low)).add_right (split.sign * (split.offset % 2 ^ wide.low : Nat))
    rw [Nat.zero_add]
    refine shifted.trans (congrArg (· % _) ?_)
    ring

/-- After taking a chunk the cursor can go on. -/
theorem takeChunk_ready
    (split : Split)
    {cursor : Cursor}
    (ready : cursor.Ready) :
    (split.takeChunk cursor).2.Ready := by
  unfold takeChunk
  split
  · exact ready
  · exact ready.widen split.offset

/-- The steps of the offset put it behind the value they start from. -/
theorem offsetStepsFrom_modEq
    (split : Split)
    (cursor : Cursor)
    (ready : cursor.Ready)
    (value : Int) :
    (split.offsetStepsFrom cursor).foldl Step.apply value ≡
      split.remaining cursor (cursor.low + cursor.width) value
        [ZMOD 0x10000000000000000] := by
  induction cursor using Split.offsetStepsFrom.induct split generalizing value with
  | case1 cursor atEnd =>
      have next := takeChunk_ready split ready
      rw [offsetStepsFrom, if_pos atEnd, List.foldl_append]
      refine Int.ModEq.trans ?_ (takeChunk_modEq ready value)
      generalize (split.takeChunk cursor).1.foldl Step.apply value = built
      rw [remaining, atEnd, Nat.pow_zero, Nat.mod_one, Nat.add_zero, Int.natCast_zero,
        Int.mul_zero, Int.add_zero, Cursor.finalSteps]
      split
      · rename_i noShift
        rw [noShift, List.foldl_nil, pow_zero, Int.mul_one]
      · exact Step.apply_slli_modEq built (by have := next.reach; omega)
  | case2 cursor more inductionHypothesis =>
      have next := takeChunk_ready split ready
      rw [offsetStepsFrom, if_neg more, List.foldl_append]
      refine (inductionHypothesis next.advance _).trans ?_
      refine Int.ModEq.trans (congrArg (· % _) ?_) (takeChunk_modEq ready value)
      rw [remaining, remaining, Cursor.advance_low_add_width next,
        Cursor.advance_pending_add_low]

/-- The steps of a chunk fit. -/
theorem chunkSteps_fit
    {split : Split}
    {cursor : Cursor}
    (narrow : cursor.width ≤ 11)
    (reach : cursor.pending ≤ 63) :
    ∀ step ∈ split.chunkSteps cursor, step.Fits := by
  have small : cursor.chunk split.offset < 2 ^ 11 :=
    Nat.lt_of_lt_of_le (cursor.chunk_lt split.offset)
      (Nat.pow_le_pow_right (by decide) narrow)
  intro step member
  simp only [chunkSteps, List.mem_cons, List.not_mem_nil, or_false] at member
  rcases member with rfl | rfl
  · simp only [Step.Fits]
    omega
  · simp only [Step.Fits, FitsSigned]
    split <;> omega

/-- The steps that taking a chunk gives fit. -/
theorem takeChunk_fit
    {split : Split}
    {cursor : Cursor}
    (ready : cursor.Ready) :
    ∀ step ∈ (split.takeChunk cursor).1, step.Fits := by
  have moved := cursor.widen_pending_add_low split.offset
  have reach := ready.reach
  unfold takeChunk
  split
  · intro step member
    cases member
  · exact chunkSteps_fit ready.narrow (by omega)

/-- All steps of the offset fit. -/
theorem offsetStepsFrom_fit
    (split : Split)
    (cursor : Cursor)
    (ready : cursor.Ready) :
    ∀ step ∈ split.offsetStepsFrom cursor, step.Fits := by
  induction cursor using Split.offsetStepsFrom.induct split with
  | case1 cursor atEnd =>
      have next := takeChunk_ready split ready
      rw [offsetStepsFrom, if_pos atEnd]
      intro step member
      rcases List.mem_append.mp member with inChunk | inFinal
      · exact takeChunk_fit ready step inChunk
      · unfold Cursor.finalSteps at inFinal
        split at inFinal
        · cases inFinal
        · obtain rfl := List.mem_singleton.mp inFinal
          have reach := next.reach
          simp only [Step.Fits]
          omega
  | case2 cursor more inductionHypothesis =>
      have next := takeChunk_ready split ready
      rw [offsetStepsFrom, if_neg more]
      intro step member
      rcases List.mem_append.mp member with inChunk | later
      · exact takeChunk_fit ready step inChunk
      · exact inductionHypothesis next.advance step later

/-- A chunk takes two steps, and behind it no shift is left; an empty one takes none. -/
theorem takeChunk_length
    (split : Split)
    (cursor : Cursor) :
    ((split.takeChunk cursor).1.length = 0 ∧ (split.takeChunk cursor).2 = cursor ∧
        cursor.chunk split.offset = 0) ∨
      ((split.takeChunk cursor).1.length = 2 ∧ (split.takeChunk cursor).2.pending = 0 ∧
        cursor.chunk split.offset ≠ 0) := by
  unfold takeChunk
  split
  · rename_i emptyChunk
    exact Or.inl ⟨rfl, rfl, emptyChunk⟩
  · rename_i someChunk
    exact Or.inr ⟨rfl, rfl, someChunk⟩

/-- At most one shift is left at the end. -/
theorem Cursor.finalSteps_length (cursor : Cursor) :
    cursor.finalSteps.length = if cursor.pending = 0 then 0 else 1 := by
  unfold finalSteps
  split <;> rfl

/-- The offset takes at most two steps for every eleven bits. -/
theorem offsetStepsFrom_length
    (split : Split)
    (cursor : Cursor)
    (ready : cursor.Ready)
    (drained : cursor.low + cursor.width = 0 → cursor.pending = 0) :
    (split.offsetStepsFrom cursor).length ≤ 2 * ((cursor.low + cursor.width + 10) / 11) := by
  induction cursor using Split.offsetStepsFrom.induct split with
  | case1 cursor atEnd =>
      rw [offsetStepsFrom, if_pos atEnd, List.length_append, Cursor.finalSteps_length]
      rcases takeChunk_length split cursor with ⟨length, same, -⟩ | ⟨length, noShift, someChunk⟩
      · rw [length, same]
        split <;> omega
      · rw [length, if_pos noShift]
        have wide := Cursor.width_ne_zero someChunk
        omega
  | case2 cursor more inductionHypothesis =>
      have next := takeChunk_ready split ready
      have lower := takeChunk_low_le split cursor
      have below := Cursor.advance_low_add_width next
      have rest := inductionHypothesis next.advance (by omega)
      rw [below] at rest
      rw [offsetStepsFrom, if_neg more, List.length_append]
      have whole : cursor.width = 11 := by
        have := ready.full
        omega
      rcases takeChunk_length split cursor with ⟨length, -, -⟩ | ⟨length, -⟩ <;> omega

/-- An offset of at most one takes at most two steps, however far it is shifted. -/
theorem offsetStepsFrom_length_of_small
    (split : Split)
    (cursor : Cursor)
    (small : split.offset ≤ 1) :
    (split.offsetStepsFrom cursor).length ≤ 2 := by
  induction cursor using Split.offsetStepsFrom.induct split with
  | case1 cursor atEnd =>
      rw [offsetStepsFrom, if_pos atEnd, List.length_append, Cursor.finalSteps_length]
      rcases takeChunk_length split cursor with ⟨length, -, -⟩ | ⟨length, noShift, -⟩
      · rw [length]
        split <;> omega
      · rw [length, if_pos noShift]
  | case2 cursor more inductionHypothesis =>
      rw [offsetStepsFrom, if_neg more, List.length_append]
      rcases takeChunk_length split cursor with ⟨length, -, -⟩ | ⟨-, -, someChunk⟩
      · omega
      · have lower := takeChunk_low_le split cursor
        have twoLe : 2 ^ 1 ≤ 2 ^ cursor.low :=
          Nat.pow_le_pow_right (by decide) (by omega)
        have shifted : split.offset >>> cursor.low = 0 := by
          rw [Nat.shiftRight_eq_div_pow]
          exact Nat.div_eq_of_lt (by omega)
        rw [Cursor.chunk, shifted, Nat.zero_mod] at someChunk
        exact absurd rfl someChunk

/-- The cursor on the topmost chunk of an offset. -/
theorem ready_first
    {shift : Nat}
    (reach : shift ≤ 63) :
    Cursor.Ready ⟨shift - 11, min shift 11, min shift 11⟩ := by
  constructor <;> simp only <;> omega

/-- The steps of the offset, for an offset below the shift. -/
theorem offsetSteps_modEq
    {split : Split}
    (reach : split.shift ≤ 63)
    (below : split.offset < 2 ^ split.shift)
    (value : Int) :
    split.offsetSteps.foldl Step.apply value ≡
      value * 2 ^ split.shift + split.sign * split.offset [ZMOD 0x10000000000000000] := by
  have built := split.offsetStepsFrom_modEq _ (ready_first reach) value
  have whole : min split.shift 11 + (split.shift - 11) = split.shift := by omega
  rw [remaining, whole, Nat.add_comm, whole, Nat.mod_eq_of_lt below] at built
  exact built

/-- The number of steps of the offset. -/
theorem offsetSteps_length
    {split : Split}
    (reach : split.shift ≤ 63)
    (short : split.shift ≤ 33 ∨ split.offset ≤ 1) :
    split.offsetSteps.length ≤ 6 := by
  rcases short with near | small
  · have bound := split.offsetStepsFrom_length _ (ready_first reach) (by simp only; omega)
    have bits : split.shift - 11 + min split.shift 11 ≤ 33 := by omega
    exact Nat.le_trans bound (by simp only; omega)
  · exact Nat.le_trans (split.offsetStepsFrom_length_of_small _ small) (by decide)

/-!
## The high part
-/

/-- Sign extension of twenty bits stays in the field and keeps the number modulo `2 ^ 20`. -/
theorem signExtend_twenty (pattern : Nat) :
    FitsSigned 20 (signExtend 20 pattern) ∧
      signExtend 20 pattern ≡ pattern [ZMOD 0x100000] := by
  simp only [signExtend, FitsSigned, Int.ModEq, Nat.reduceShiftLeft, Nat.reduceSub]
  split <;> omega

/-- Sign extension of twelve bits stays in the field and keeps the number modulo `2 ^ 12`. -/
theorem signExtend_twelve (pattern : Nat) :
    FitsSigned 12 (signExtend 12 pattern) ∧
      signExtend 12 pattern =
        if pattern % 0x1000 < 0x800 then (pattern % 0x1000 : Int)
        else (pattern % 0x1000 : Int) - 0x1000 := by
  simp only [signExtend, FitsSigned, Nat.reduceShiftLeft, Nat.reduceSub]
  split <;> omega

/-- The steps of the high part fit. -/
theorem highSteps_fit (split : Split) :
    ∀ step ∈ split.highSteps, step.Fits := by
  intro step member
  unfold highSteps at member
  rcases List.mem_append.mp member with inUpper | inLower
  · rw [List.mem_ite_nil_left] at inUpper
    obtain rfl := List.mem_singleton.mp inUpper.2
    exact (signExtend_twenty _).1
  · rw [List.mem_ite_nil_left] at inLower
    obtain rfl := List.mem_singleton.mp inLower.2
    exact (signExtend_twelve _).1

/-- A step that may be left out. -/
theorem length_stepUnlessZero
    (part : Nat)
    (step : Step) :
    (if part = 0 then [] else [step]).length ≤ 1 := by
  split
  · exact Nat.zero_le 1
  · exact Nat.le_refl 1

/-- The high part takes two steps at most. -/
theorem highSteps_length (split : Split) :
    split.highSteps.length ≤ 2 := by
  simp only [highSteps, List.length_append]
  exact Nat.add_le_add (length_stepUnlessZero _ _) (length_stepUnlessZero _ _)

/-- A `lui` and an `addiw`, left out where they would do nothing, add up. -/
theorem foldl_upper_lower
    (upper lower : Nat) :
    ((if upper = 0 then [] else [Step.mk .lui (signExtend 20 upper)]) ++
        (if lower = 0 then [] else [Step.mk .addiw (signExtend 12 lower)])).foldl
          Step.apply 0 =
      (signExtend 20 upper * 0x1000 + signExtend 12 lower).bmod 0x100000000 := by
  have loaded :
      (if upper = 0 then [] else [Step.mk .lui (signExtend 20 upper)]).foldl
          Step.apply 0 =
        (signExtend 20 upper * 0x1000).bmod 0x100000000 := by
    split
    · rename_i isZero
      subst isZero
      rfl
    · rfl
  rw [List.foldl_append, loaded]
  split
  · rename_i isZero
    subst isZero
    rw [List.foldl_nil, show signExtend 12 0 = 0 from rfl, Int.add_zero]
  · exact Int.bmod_add_bmod

/-- The steps of the high part leave it behind as a signed 32-bit number. -/
theorem foldl_highSteps (split : Split) :
    split.highSteps.foldl Step.apply 0 = (split.high : Int).bmod 0x100000000 := by
  rw [highSteps, foldl_upper_lower]
  generalize isUpper :
    (split.high / 0x1000 + if 0x800 ≤ split.high % 0x1000 then 1 else 0) % 0x100000 = upper
  have upperMod := (signExtend_twenty upper).2
  have lowerIs := (signExtend_twelve (split.high % 0x1000)).2
  rw [← Int.emod_bmod, ← Int.emod_bmod (split.high : Int)]
  congr 1
  unfold Int.ModEq at upperMod
  generalize signExtend 20 upper = signedUpper at *
  generalize signExtend 12 (split.high % 0x1000) = signedLower at *
  split at isUpper <;> split at lowerIs <;> omega

end Split

end Constant

end Rv64Codegen
