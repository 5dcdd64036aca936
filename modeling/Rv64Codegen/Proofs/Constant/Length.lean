import Rv64Codegen.Proofs.Constant.Synthesis

namespace Rv64Codegen

/-!
# Lengths of sequences

How many steps synthesis takes for a constant.  One step is enough exactly for
what a single `addi` or `lui` can load, two are enough for every 32-bit constant,
and a constant that is shifted up takes one step more than what is shifted.  The
upper bounds follow from the shape of the split: the window stands at the lowest set
bit, so that nothing is left to be added below it.  The lower bounds follow from what
single steps can build.  The shifted form is taken only when it is shorter, so it
breaks no bound.
-/

/-- A step that is no shift, or a shift that moves something. -/
def Step.Moves (step : Step) : Prop :=
  step.op = .slli ∨ step.op = .srli → step.imm ≠ 0

theorem Step.moves_of_amount
    {op : Opcode}
    {amount : Nat}
    (nonzero : amount ≠ 0) :
    Step.Moves ⟨op, amount⟩ :=
  fun _ => Int.natCast_ne_zero.mpr nonzero

namespace Constant

namespace Split

/-!
## Splits without an offset
-/

theorem takeChunk_of_zero
    {split : Split}
    (nothing : split.offset = 0)
    (cursor : Cursor) :
    split.takeChunk cursor = ([], cursor) := by
  have emptyChunk : cursor.chunk split.offset = 0 := by
    rw [Cursor.chunk, nothing, Nat.zero_shiftRight, Nat.zero_mod]
  rw [takeChunk, if_pos emptyChunk]

/-- Without an offset, all that is left to do is one shift. -/
theorem offsetStepsFrom_length_of_zero
    {split : Split}
    (nothing : split.offset = 0)
    (cursor : Cursor) :
    (split.offsetStepsFrom cursor).length =
      if cursor.pending + cursor.low = 0 then 0 else 1 := by
  induction cursor using Split.offsetStepsFrom.induct split with
  | case1 cursor atEnd =>
      rw [offsetStepsFrom, if_pos atEnd]
      rw [takeChunk_of_zero nothing] at atEnd ⊢
      rw [List.nil_append, Cursor.finalSteps_length, atEnd, Nat.add_zero]
  | case2 cursor more inductionHypothesis =>
      rw [offsetStepsFrom, if_neg more]
      rw [takeChunk_of_zero nothing] at inductionHypothesis ⊢
      rw [List.nil_append, inductionHypothesis, Cursor.advance_pending_add_low]

theorem offsetSteps_length_of_zero
    {split : Split}
    (nothing : split.offset = 0) :
    split.offsetSteps.length = if split.shift = 0 then 0 else 1 := by
  have whole : min split.shift 11 + (split.shift - 11) = split.shift := by omega
  rw [offsetSteps, offsetStepsFrom_length_of_zero nothing, whole]

/-- One step is enough when only the lower or only the upper part of a high part is there. -/
theorem highSteps_length_le_one
    {split : Split}
    (onePart :
      split.high % 0x1000 = 0 ∨
        (split.high / 0x1000 + if 0x800 ≤ split.high % 0x1000 then 1 else 0) % 0x100000 = 0) :
    split.highSteps.length ≤ 1 := by
  unfold highSteps
  rw [List.length_append]
  rcases onePart with noLower | noUpper
  · rw [if_pos noLower]
    exact length_stepUnlessZero _ _
  · rw [if_pos noUpper, List.length_nil, Nat.zero_add]
    exact length_stepUnlessZero _ _

/-- A high part in the range of an `addi` takes one step. -/
theorem highSteps_length_of_small
    {value : Int64}
    {shift : Nat}
    (small : FitsSigned 12 (value.toInt >>> shift)) :
    (adding value shift).highSteps.length ≤ 1 := by
  obtain ⟨lower, upper⟩ := small
  have isHigh :
      (adding value shift).high = ((value.toInt >>> shift) % 0x100000000).toNat := rfl
  refine highSteps_length_le_one (Or.inr ?_)
  generalize value.toInt >>> shift = signed at *
  generalize (adding value shift).high = high at *
  split <;> omega

/-- A high part without lower bits takes one step. -/
theorem highSteps_length_of_round
    {value : Int64}
    {shift : Nat}
    (round : (value.toInt >>> shift) % 0x1000 = 0) :
    (adding value shift).highSteps.length ≤ 1 := by
  have isHigh :
      (adding value shift).high = ((value.toInt >>> shift) % 0x100000000).toNat := rfl
  exact highSteps_length_le_one (Or.inl (by omega))

/-- Where nothing stands below the window, nothing is added or subtracted. -/
theorem ofConstant_eq_adding
    {value : Int64}
    (nothing : lowPart value (window value).1 = 0) :
    ofConstant value = adding value (window value).1 := by
  unfold ofConstant
  generalize window value = place at *
  obtain ⟨shift, top⟩ := place
  dsimp only at *
  rw [nothing]
  split
  · rfl
  · rfl

end Split

/-- A constant with nothing below its window takes the steps of its high part and a shift. -/
theorem directSteps_length_of_zero
    {value : Int64}
    (large : ¬ FitsSigned 12 value.toInt)
    (nothing : Split.lowPart value (Split.window value).1 = 0) :
    (directSteps value).length =
      (Split.adding value (Split.window value).1).highSteps.length +
        if (Split.window value).1 = 0 then 0 else 1 := by
  rw [directSteps, if_neg large, Split.ofConstant_eq_adding nothing, Split.steps,
    List.length_append, Split.offsetSteps_length_of_zero nothing]
  rfl

/-!
## Constants that are shifted up
-/

/-- As many zeros are counted as a number has below its lowest set bit. -/
theorem le_trailingZeros
    {bits exponent n : Nat}
    (divides : 2 ^ exponent ∣ n)
    (inside : exponent ≤ bits) :
    exponent ≤ trailingZeros bits n := by
  induction bits generalizing exponent n with
  | zero =>
      exact inside
  | succ bits inductionHypothesis =>
      cases exponent with
      | zero =>
          exact Nat.zero_le _
      | succ exponent =>
          obtain ⟨quotient, rfl⟩ := divides
          have half : 2 ^ (exponent + 1) * quotient / 2 = 2 ^ exponent * quotient := by
            rw [Nat.pow_succ, Nat.mul_right_comm, Nat.mul_div_cancel _ (by decide : 0 < 2)]
          have even : ¬ 2 ^ (exponent + 1) * quotient % 2 = 1 := by
            rw [Nat.pow_succ, Nat.mul_right_comm, Nat.mul_mod_left]
            exact Nat.zero_ne_one
          rw [trailingZeros, if_neg even, half]
          exact Nat.succ_le_succ
            (inductionHypothesis (Nat.dvd_mul_right _ _) (Nat.le_of_succ_le_succ inside))

/-- What divides a constant divides its pattern. -/
theorem two_pow_dvd_pattern
    {value : Int64}
    {exponent : Nat}
    (divides : (2 ^ exponent : Int) ∣ value.toInt)
    (inside : exponent ≤ 64) :
    2 ^ exponent ∣ pattern value := by
  have whole : (2 ^ exponent : Int) ∣ 0x10000000000000000 := pow_dvd_pow 2 inside
  have patternDivides : (2 ^ exponent : Int) ∣ pattern value := by
    apply Int.dvd_of_emod_eq_zero
    rw [pattern_eq, Int.emod_emod_of_dvd _ whole]
    exact Int.emod_eq_zero_of_dvd divides
  exact_mod_cast patternDivides

/-- The lowest change of an even constant is its lowest set bit. -/
theorem spanBottom_of_even
    {value : Int64}
    (even : 2 ∣ pattern value) :
    spanBottom value = trailingZeros 64 (pattern value) := by
  rw [spanBottom, if_neg (by omega)]

/-- A number shifted up, and then down by more than that, is the number shifted down. -/
theorem shiftRight_scaled
    (high : Int)
    (exponent below : Nat) :
    (high * 2 ^ exponent) >>> (exponent + below) = high >>> below := by
  have positive : (0 : Int) < 2 ^ exponent := Int.pow_pos (by decide)
  rw [Int.shiftRight_eq_div_pow, Int.shiftRight_eq_div_pow, Nat.pow_add, Int.mul_comm high]
  push_cast
  exact Int.mul_ediv_mul_of_pos high (2 ^ below) positive

theorem fitsSigned_word
    {number : Int}
    (small : FitsSigned 12 number) :
    FitsSigned 32 number := by
  obtain ⟨lower, upper⟩ := small
  exact ⟨by omega, by omega⟩

/-- Shifting down leaves a small number small. -/
theorem fitsSigned_shiftRight
    {high : Int}
    (small : FitsSigned 12 high)
    (below : Nat) :
    FitsSigned 12 (high >>> below) := by
  have wider : 2 ^ 11 ≤ 2 ^ (11 + below) := Nat.pow_le_pow_right (by decide) (by omega)
  obtain ⟨lower, upper⟩ := small
  exact Split.shiftRight_bounds high below 11 (by omega) (by omega)

/-- The constants with a span below 32 bits are those of 32 bits. -/
theorem spanTop_lt_iff {value : Int64} :
    spanTop value < 32 ↔ FitsSigned 32 value.toInt := by
  constructor
  · intro narrow
    have power : 2 ^ spanTop value ≤ 2 ^ 31 := Nat.pow_le_pow_right (by decide) (by omega)
    obtain ⟨lower, upper⟩ := spanTop_spec value
    exact ⟨by omega, by omega⟩
  · rintro ⟨lower, upper⟩
    exact Nat.lt_succ_of_le (spanTop_le_of_bounds lower upper)

/-- A 32-bit number that is shifted up has no bits far above its lowest one. -/
theorem spanTop_scaled
    {value : Int64}
    {high : Int}
    {exponent : Nat}
    (isScaled : value.toInt = high * 2 ^ exponent)
    (fits : FitsSigned 32 high) :
    spanTop value ≤ 31 + exponent := by
  have positive : (0 : Int) < 2 ^ exponent := Int.pow_pos (by decide)
  obtain ⟨lower, upper⟩ := fits
  refine spanTop_le_of_bounds ?_ ?_
  · rw [isScaled, Nat.pow_add, Int.natCast_mul, Int.natCast_pow, ← Int.neg_mul]
    exact Int.mul_le_mul_of_nonneg_right lower positive.le
  · rw [isScaled, Nat.pow_add, Int.natCast_mul, Int.natCast_pow]
    exact Int.mul_lt_mul_of_pos_right upper positive

/-- A constant other than zero is not shifted up by more than it has bits. -/
theorem exponent_le
    {value : Int64}
    {exponent : Nat}
    (divides : (2 ^ exponent : Int) ∣ value.toInt)
    (nonzero : value.toInt ≠ 0) :
    exponent ≤ 63 := by
  have lower := value.le_toInt
  have upper := value.toInt_lt
  have below : 2 ^ exponent ≤ value.toInt.natAbs :=
    Nat.le_of_dvd (Int.natAbs_pos.mpr nonzero) (by
      have := Int.natAbs_dvd_natAbs.mpr divides
      rwa [Int.natAbs_pow] at this)
  exact (Nat.pow_le_pow_iff_right (by decide)).mp
    (Nat.le_trans below (show value.toInt.natAbs ≤ 2 ^ 63 by omega))

namespace Split

/-- Nothing stands below a place up to which a constant has only zeros. -/
theorem lowPart_eq_zero
    {value : Int64}
    {shift zeros : Nat}
    (divides : 2 ^ zeros ∣ pattern value)
    (inside : shift ≤ zeros) :
    lowPart value shift = 0 := by
  rw [lowPart, Nat.one_shiftLeft]
  exact Nat.mod_eq_zero_of_dvd ((Nat.pow_dvd_pow 2 inside).trans divides)

theorem window_of_narrow
    {value : Int64}
    (narrow : FitsSigned 32 value.toInt) :
    (window value).1 = 0 ∧ lowPart value (window value).1 = 0 := by
  have atStart : (window value).1 = 0 := by
    rw [window, if_pos (spanTop_lt_iff.mpr narrow)]
  rw [atStart]
  exact ⟨rfl, lowPart_eq_zero (Nat.one_dvd _ : 2 ^ 0 ∣ _) (Nat.le_refl 0)⟩

/--
The window of a wide constant that is a 32-bit number shifted up stands inside
that number, with only zeros below.
-/
theorem window_scaled
    {value : Int64}
    {high : Int}
    {exponent : Nat}
    (isScaled : value.toInt = high * 2 ^ exponent)
    (fits : FitsSigned 32 high)
    (wide : ¬ FitsSigned 32 value.toInt) :
    exponent ≤ (window value).1 ∧ lowPart value (window value).1 = 0 := by
  have divides : (2 ^ exponent : Int) ∣ value.toInt := Dvd.intro_left high isScaled.symm
  have nonzero : value.toInt ≠ 0 := by
    intro isZero
    rw [isZero] at wide
    exact wide (by decide)
  have inside := exponent_le divides nonzero
  have patternDivides := two_pow_dvd_pattern divides (by omega)
  have high31 := spanTop_scaled isScaled fits
  rw [← spanTop_lt_iff] at wide
  have even : 2 ∣ pattern value :=
    (dvd_pow_self 2 (by omega : exponent ≠ 0)).trans patternDivides
  have bottom := spanBottom_of_even even
  have zeros := two_pow_trailingZeros_dvd 64 (pattern value)
  have enough := le_trailingZeros patternDivides (by omega : exponent ≤ 64)
  rw [← bottom] at zeros enough
  -- either the window starts at the lowest bit, or the number fills all of it
  rw [window, if_neg wide]
  split
  · exact ⟨enough, lowPart_eq_zero zeros (Nat.le_refl _)⟩
  · refine ⟨?_, lowPart_eq_zero zeros ?_⟩ <;> dsimp only <;> omega

end Split

/-!
## Upper bounds
-/

/-- A constant of 32 bits takes no more than the two steps of a high part. -/
theorem directSteps_length_of_narrow
    {value : Int64}
    (narrow : FitsSigned 32 value.toInt) :
    (directSteps value).length ≤ 2 := by
  by_cases small : FitsSigned 12 value.toInt
  · rw [directSteps, if_pos small]
    exact Nat.le_add_left 1 1
  · obtain ⟨atStart, nothing⟩ := Split.window_of_narrow narrow
    rw [directSteps_length_of_zero small nothing, if_pos atStart]
    exact Split.highSteps_length _

/-- One step is enough for what an `addi` or a `lui` can load. -/
theorem directSteps_length_of_single
    {value : Int64}
    (single :
      FitsSigned 12 value.toInt ∨
        (FitsSigned 32 value.toInt ∧ value.toInt % 0x1000 = 0)) :
    (directSteps value).length ≤ 1 := by
  by_cases small : FitsSigned 12 value.toInt
  · rw [directSteps, if_pos small]
    exact Nat.le_refl 1
  · obtain ⟨narrow, round⟩ := single.resolve_left small
    obtain ⟨atStart, nothing⟩ := Split.window_of_narrow narrow
    rw [directSteps_length_of_zero small nothing, if_pos atStart, atStart]
    refine Split.highSteps_length_of_round ?_
    rw [Int.shiftRight_zero]
    exact round

/-- A wide constant that is a 32-bit number shifted up takes one shift behind its high part. -/
theorem directSteps_length_of_wide
    {value : Int64}
    {high : Int}
    {exponent : Nat}
    (isScaled : value.toInt = high * 2 ^ exponent)
    (fits : FitsSigned 32 high)
    (wide : ¬ FitsSigned 32 value.toInt) :
    (directSteps value).length ≤
      (Split.adding value (Split.window value).1).highSteps.length + 1 := by
  obtain ⟨-, nothing⟩ := Split.window_scaled isScaled fits wide
  have large : ¬ FitsSigned 12 value.toInt := fun small => wide (fitsSigned_word small)
  rw [directSteps_length_of_zero large nothing]
  split <;> omega

/-- A number of 32 bits that is shifted up takes one step more than its own two. -/
theorem directSteps_length_of_scaled
    {value : Int64}
    {high : Int}
    {exponent : Nat}
    (isScaled : value.toInt = high * 2 ^ exponent)
    (fits : FitsSigned 32 high) :
    (directSteps value).length ≤ 3 := by
  by_cases narrow : FitsSigned 32 value.toInt
  · exact Nat.le_succ_of_le (directSteps_length_of_narrow narrow)
  · exact (directSteps_length_of_wide isScaled fits narrow).trans
      (Nat.succ_le_succ (Split.highSteps_length _))

/-- A number of 12 bits that is shifted up takes one step more than its own one. -/
theorem directSteps_length_of_scaled_small
    {value : Int64}
    {high : Int}
    {exponent : Nat}
    (isScaled : value.toInt = high * 2 ^ exponent)
    (small : FitsSigned 12 high) :
    (directSteps value).length ≤ 2 := by
  by_cases narrow : FitsSigned 32 value.toInt
  · exact directSteps_length_of_narrow narrow
  · have fits := fitsSigned_word small
    refine (directSteps_length_of_wide isScaled fits narrow).trans (Nat.succ_le_succ ?_)
    obtain ⟨inside, -⟩ := Split.window_scaled isScaled fits narrow
    obtain ⟨below, isPlace⟩ := Nat.exists_eq_add_of_le inside
    refine Split.highSteps_length_of_small ?_
    rw [isPlace, isScaled, shiftRight_scaled]
    exact fitsSigned_shiftRight small below

/-- The shifted form is chosen only to save steps. -/
theorem synthesisSteps_length_le
    (value : Int64)
    (minSpan : Nat) :
    (synthesisSteps value minSpan).length ≤ (directSteps value).length := by
  unfold synthesisSteps
  split
  · rename_i prefers
    exact (prefersShifted_iff.mp prefers).2.2.2.le
  · exact Nat.le_refl _

/-!
## Lower bounds
-/

/-- What one step can build is in the range of an `addi` or of a `lui`. -/
theorem single_of_apply_zero
    {step : Step}
    (fits : step.Fits) :
    FitsSigned 12 (step.apply 0) ∨
      (FitsSigned 32 (step.apply 0) ∧ step.apply 0 % 0x1000 = 0) := by
  obtain ⟨op, imm⟩ := step
  rcases fits.builds with isOp | isOp | isOp | isOp | isOp <;> subst isOp
  · right
    have lower : -0x80000000 ≤ (imm * 0x1000).bmod 0x100000000 := Int.le_bmod (by decide)
    have upper : (imm * 0x1000).bmod 0x100000000 < 0x80000000 := Int.bmod_lt (by decide)
    have wraps :
        (imm * 0x1000).bmod 0x100000000 % 0x100000000 = imm * 0x1000 % 0x100000000 :=
      Int.bmod_emod ..
    refine ⟨⟨lower, upper⟩, ?_⟩
    simp only [Step.apply]
    omega
  · left
    obtain ⟨lower, upper⟩ : FitsSigned 12 imm := fits
    have kept : (0 + imm).bmod 0x10000000000000000 = imm := by
      rw [Int.zero_add]
      exact Int.bmod_eq_of_le (by omega) (by omega)
    simp only [Step.apply, kept]
    exact ⟨lower, upper⟩
  · left
    obtain ⟨lower, upper⟩ : FitsSigned 12 imm := fits
    have kept : (0 + imm).bmod 0x100000000 = imm := by
      rw [Int.zero_add]
      exact Int.bmod_eq_of_le (by omega) (by omega)
    simp only [Step.apply, kept]
    exact ⟨lower, upper⟩
  · left
    simp only [Step.apply, Int.zero_shiftLeft]
    decide
  · left
    simp only [Step.apply, Int.zero_emod, Int.zero_shiftRight]
    decide

/-- Exactly what an `addi` or a `lui` can load takes one step. -/
theorem synthesisSteps_length_eq_one_iff
    (value : Int64)
    (minSpan : Nat) :
    (synthesisSteps value minSpan).length = 1 ↔
      FitsSigned 12 value.toInt ∨
        (FitsSigned 32 value.toInt ∧ value.toInt % 0x1000 = 0) := by
  constructor
  · intro single
    obtain ⟨fits, -, built⟩ := synthesisSteps_spec value minSpan
    obtain ⟨step, isStep⟩ := List.length_eq_one_iff.mp single
    rw [isStep] at fits built
    rw [← built]
    exact single_of_apply_zero (fits step (List.mem_singleton_self step))
  · intro single
    have atMost := directSteps_length_of_single single
    have nonempty := List.length_pos_iff.mpr (synthesisSteps_ne_nil value minSpan)
    have noLonger := synthesisSteps_length_le value minSpan
    omega

/-!
## Shifts that move something
-/

namespace Split

/-- The steps of a high part contain no shift. -/
theorem highSteps_moves (split : Split) :
    ∀ step ∈ split.highSteps, step.Moves := by
  intro step member
  unfold highSteps at member
  rcases List.mem_append.mp member with inUpper | inLower
  · rw [List.mem_ite_nil_left] at inUpper
    obtain rfl := List.mem_singleton.mp inUpper.2
    simp [Step.Moves]
  · rw [List.mem_ite_nil_left] at inLower
    obtain rfl := List.mem_singleton.mp inLower.2
    simp [Step.Moves]

/-- Where a chunk is there, something is to be shifted for it. -/
def Cursor.Due (cursor : Cursor) : Prop :=
  cursor.width ≠ 0 → cursor.pending ≠ 0

theorem Cursor.due_advance
    {cursor : Cursor}
    (more : cursor.low ≠ 0) :
    cursor.advance.Due := by
  intro _
  simp only [Cursor.advance]
  omega

theorem takeChunk_moves
    {split : Split}
    {cursor : Cursor}
    (due : cursor.Due) :
    ∀ step ∈ (split.takeChunk cursor).1, step.Moves := by
  unfold takeChunk
  split
  · intro step member
    cases member
  · rename_i someChunk
    have shifts : (cursor.widen split.offset).pending ≠ 0 := by
      have pending := due (Cursor.width_ne_zero someChunk)
      simp only [Cursor.widen]
      omega
    intro step member
    simp only [chunkSteps, List.mem_cons, List.not_mem_nil, or_false] at member
    rcases member with rfl | rfl
    · exact Step.moves_of_amount shifts
    · simp [Step.Moves]

theorem Cursor.finalSteps_moves (cursor : Cursor) :
    ∀ step ∈ cursor.finalSteps, step.Moves := by
  unfold finalSteps
  split
  · intro step member
    cases member
  · rename_i shifts
    intro step member
    obtain rfl := List.mem_singleton.mp member
    exact Step.moves_of_amount shifts

/-- Every shift behind a high part moves something: an empty chunk leaves its shift to the next. -/
theorem offsetStepsFrom_moves
    (split : Split)
    (cursor : Cursor)
    (due : cursor.Due) :
    ∀ step ∈ split.offsetStepsFrom cursor, step.Moves := by
  induction cursor using Split.offsetStepsFrom.induct split with
  | case1 cursor atEnd =>
      rw [offsetStepsFrom, if_pos atEnd]
      intro step member
      rcases List.mem_append.mp member with inChunk | inFinal
      · exact takeChunk_moves due step inChunk
      · exact Cursor.finalSteps_moves _ step inFinal
  | case2 cursor more inductionHypothesis =>
      rw [offsetStepsFrom, if_neg more]
      intro step member
      rcases List.mem_append.mp member with inChunk | later
      · exact takeChunk_moves due step inChunk
      · exact inductionHypothesis (Cursor.due_advance more) step later

end Split

theorem directSteps_moves (value : Int64) :
    ∀ step ∈ directSteps value, step.Moves := by
  unfold directSteps
  split
  · intro step member
    obtain rfl := List.mem_singleton.mp member
    simp [Step.Moves]
  · intro step member
    rcases List.mem_append.mp member with inHigh | inOffset
    · exact Split.highSteps_moves _ step inHigh
    · exact Split.offsetStepsFrom_moves _ _ (fun wide => wide) step inOffset

/-- A constant that is not negative has a zero as its top bit. -/
theorem leadingZeros_ne_zero
    {value : Int64}
    (nonnegative : 0 ≤ value.toInt) :
    leadingZeros value ≠ 0 := by
  have isPattern := pattern_eq value
  have upper := value.toInt_lt
  have short : bitLength (pattern value) ≤ 63 := bitLength_le_of_lt (by omega)
  unfold leadingZeros
  omega

theorem synthesisSteps_moves
    (value : Int64)
    (minSpan : Nat) :
    ∀ step ∈ synthesisSteps value minSpan, step.Moves := by
  unfold synthesisSteps
  split
  · rename_i prefers
    have zeros := leadingZeros_ne_zero (prefersShifted_iff.mp prefers).1
    intro step member
    rcases List.mem_append.mp member with inDirect | last
    · exact directSteps_moves _ step inDirect
    · obtain rfl := List.mem_singleton.mp last
      exact Step.moves_of_amount zeros
  · exact directSteps_moves value

/--
The lengths of sequences: for every constant and every least span of the shifted
form there is a sequence of eight steps at most.  It has one step exactly when an
`addi` or a `lui` alone loads the constant, two for every other 32-bit constant, at
most two for a 12-bit number shifted up and at most three for a 32-bit number
shifted up.  Every shift in it is by at least one place and by less than 64.
-/
theorem synthesize_length
    (value : Int64)
    (minSpan : Nat) :
    ∃ sequence,
      synthesize value minSpan = some sequence ∧
        (sequence.length = 1 ↔
          FitsSigned 12 value.toInt ∨
            (FitsSigned 32 value.toInt ∧ value.toInt % 0x1000 = 0)) ∧
        (FitsSigned 32 value.toInt → ¬ FitsSigned 12 value.toInt →
          value.toInt % 0x1000 ≠ 0 → sequence.length = 2) ∧
        (∀ (imm : Int) (exponent : Nat),
          FitsSigned 12 imm → value.toInt = imm * 2 ^ exponent → sequence.length ≤ 2) ∧
        (∀ (high : Int) (exponent : Nat),
          FitsSigned 32 high → value.toInt = high * 2 ^ exponent → sequence.length ≤ 3) ∧
        sequence.length ≤ 8 ∧
        ∀ step ∈ sequence.steps,
          step.op = .slli ∨ step.op = .srli → 0 < step.imm ∧ step.imm < 64 := by
  obtain ⟨fits, few, -⟩ := synthesisSteps_spec value minSpan
  have single := synthesisSteps_length_eq_one_iff value minSpan
  have noLonger := synthesisSteps_length_le value minSpan
  refine ⟨⟨synthesisSteps value minSpan, few⟩, dif_pos few, single, ?_, ?_, ?_, few, ?_⟩
  · intro narrow large uneven
    have nonempty := List.length_pos_iff.mpr (synthesisSteps_ne_nil value minSpan)
    have atMost := directSteps_length_of_narrow narrow
    have notOne : (synthesisSteps value minSpan).length ≠ 1 := by
      rw [Ne, single]
      rintro (small | ⟨-, round⟩)
      · exact large small
      · exact uneven round
    unfold Sequence.length
    dsimp only
    omega
  · intro imm exponent small isScaled
    exact noLonger.trans (directSteps_length_of_scaled_small isScaled small)
  · intro high exponent narrow isScaled
    exact noLonger.trans (directSteps_length_of_scaled isScaled narrow)
  · intro step member isShift
    have moves := synthesisSteps_moves value minSpan step member isShift
    have inField : 0 ≤ step.imm ∧ step.imm ≤ 63 := by
      have stepFits := fits step member
      obtain ⟨op, imm⟩ := step
      rcases isShift with rfl | rfl
      · exact stepFits
      · exact stepFits
    omega

-- Bits that alternate in every byte take all eight steps, and the largest 32-bit number
-- shifted up takes all three.
example :
    (synthesize (-0x55aa55aa55aa55ab) 32).map Sequence.length = some 8 ∧
      (synthesize 0x7fffffff0000 32).map Sequence.length = some 3 := by
  decide +kernel

end Constant

end Rv64Codegen
