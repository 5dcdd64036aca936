import Rv64Codegen.Proofs.Constant.Chunks

namespace Rv64Codegen

/-!
# Exactness of synthesis

The steps that synthesis chooses leave the constant behind, fit their fields and
number at most eight.  Every step ends in the signed 64-bit range, so a value
that is congruent to the constant is the constant.
-/

namespace Constant

namespace Split

/-!
## Splits of a constant
-/

/-- The number that a split stands for. -/
def value (split : Split) : Int :=
  (split.high : Int).bmod 0x100000000 * 2 ^ split.shift + split.sign * split.offset

/-- A split whose steps build a constant and are few enough. -/
structure Represents
    (split : Split)
    (constant : Int) :
    Prop where
  reach : split.shift ≤ 63
  below : split.offset < 2 ^ split.shift
  short : split.shift ≤ 33 ∨ split.offset ≤ 1
  value : split.value ≡ constant [ZMOD 0x10000000000000000]

/-- All steps of a split fit. -/
theorem Represents.steps_fit
    {split : Split}
    {constant : Int}
    (represents : split.Represents constant) :
    ∀ step ∈ split.steps, step.Fits := by
  intro step member
  rcases List.mem_append.mp member with inHigh | inOffset
  · exact split.highSteps_fit step inHigh
  · exact split.offsetStepsFrom_fit _ (ready_first represents.reach) step inOffset

/-- A split takes at most eight steps. -/
theorem Represents.steps_length
    {split : Split}
    {constant : Int}
    (represents : split.Represents constant) :
    split.steps.length ≤ 8 := by
  rw [steps, List.length_append]
  exact Nat.add_le_add split.highSteps_length
    (offsetSteps_length represents.reach represents.short)

/-- The steps of a split build its constant. -/
theorem Represents.foldl_steps
    {split : Split}
    {constant : Int}
    (represents : split.Represents constant) :
    split.steps.foldl Step.apply 0 ≡ constant [ZMOD 0x10000000000000000] := by
  rw [steps, List.foldl_append, foldl_highSteps]
  exact (offsetSteps_modEq represents.reach represents.below _).trans represents.value

end Split

/-- The pattern of a constant is the constant modulo `2 ^ 64`. -/
theorem pattern_eq (value : Int64) :
    (pattern value : Int) = value.toInt % 0x10000000000000000 := by
  have signed : value.toInt = (pattern value : Int).bmod 0x10000000000000000 :=
    BitVec.toInt_eq_toNat_bmod value.toBitVec
  have small : pattern value < 0x10000000000000000 := value.toUInt64.toNat_lt
  have wrapped :
      (pattern value : Int).bmod 0x10000000000000000 % 0x10000000000000000 =
        pattern value % 0x10000000000000000 :=
    Int.bmod_emod ..
  omega

namespace Split

/-- What stands below a shift is the rest of the constant. -/
theorem lowPart_eq
    (value : Int64)
    {shift : Nat}
    (reach : shift ≤ 64) :
    (lowPart value shift : Int) = value.toInt % 2 ^ shift := by
  have divides : (2 ^ shift : Int) ∣ 0x10000000000000000 :=
    pow_dvd_pow 2 reach
  rw [lowPart, Nat.one_shiftLeft, Int.natCast_mod, pattern_eq, Int.natCast_pow]
  exact Int.emod_emod_of_dvd _ divides

/-- A constant is what stands above a shift and what stands below. -/
theorem shiftRight_add_lowPart
    (value : Int64)
    {shift : Nat}
    (reach : shift ≤ 64) :
    (value.toInt >>> shift) * 2 ^ shift + lowPart value shift = value.toInt := by
  rw [lowPart_eq value reach, Int.shiftRight_eq_div_pow, Int.natCast_pow]
  exact Int.mul_comm .. ▸ Int.mul_ediv_add_emod ..

/-- What stands below a shift is smaller than it. -/
theorem lowPart_lt
    (value : Int64)
    (shift : Nat) :
    lowPart value shift < 2 ^ shift := by
  rw [lowPart, Nat.one_shiftLeft]
  exact Nat.mod_lt _ (Nat.two_pow_pos _)

/-- The gap above something is what is missing. -/
theorem gap_eq
    {value : Int64}
    {shift : Nat}
    (something : lowPart value shift ≠ 0) :
    gap value shift = 2 ^ shift - lowPart value shift := by
  rw [gap, Nat.one_shiftLeft]
  exact Nat.mod_eq_of_lt (by have := Nat.two_pow_pos shift; omega)

/-- A high part in the signed 32-bit range is read back from its pattern. -/
theorem highPart_bmod
    {value : Int64}
    {shift : Nat}
    (lower : -0x80000000 ≤ value.toInt >>> shift)
    (upper : value.toInt >>> shift < 0x80000000) :
    (highPart value shift : Int).bmod 0x100000000 = value.toInt >>> shift := by
  have isPattern :
      (highPart value shift : Int) = (value.toInt >>> shift) % 0x100000000 := by
    rw [highPart]
    omega
  rw [isPattern]
  exact (Int.emod_bmod ..).trans (Int.bmod_eq_of_le lower upper)

/-- Adding what stands below gives the constant. -/
theorem adding_represents
    {value : Int64}
    {shift : Nat}
    (reach : shift ≤ 63)
    (lower : -0x80000000 ≤ value.toInt >>> shift)
    (upper : value.toInt >>> shift < 0x80000000)
    (short : shift ≤ 33 ∨ lowPart value shift ≤ 1) :
    (adding value shift).Represents value.toInt := by
  refine ⟨reach, lowPart_lt value shift, short, ?_⟩
  have inside : shift ≤ 64 := Nat.le_trans reach (by decide)
  have same : (adding value shift).value = value.toInt := by
    have whole := shiftRight_add_lowPart value inside
    have high := highPart_bmod lower upper
    unfold Split.value adding sign
    dsimp only
    rw [high, if_neg Bool.false_ne_true, Int.one_mul]
    exact whole
  rw [same]

/-- One more than a high part, with the sign changed where it leaves the range. -/
theorem highPart_succ_modEq
    {value : Int64}
    {shift : Nat}
    (lower : -0x80000000 ≤ value.toInt >>> shift)
    (upper : value.toInt >>> shift < 0x80000000)
    (kept : value.toInt >>> shift ≠ 0x7fffffff ∨ 32 ≤ shift) :
    (((highPart value shift + 1) % 0x100000000 : Nat) : Int).bmod 0x100000000 * 2 ^ shift ≡
      (value.toInt >>> shift + 1) * 2 ^ shift [ZMOD 0x10000000000000000] := by
  have isPattern :
      (((highPart value shift + 1) % 0x100000000 : Nat) : Int) =
        (value.toInt >>> shift + 1) % 0x100000000 := by
    rw [highPart]
    omega
  have wraps :
      (((highPart value shift + 1) % 0x100000000 : Nat) : Int).bmod 0x100000000 =
        (value.toInt >>> shift + 1).bmod 0x100000000 := by
    rw [isPattern]
    exact Int.emod_bmod ..
  rw [wraps]
  rcases kept with inRange | far
  · have same :
        (value.toInt >>> shift + 1).bmod 0x100000000 = value.toInt >>> shift + 1 :=
      Int.bmod_eq_of_le (by omega) (by omega)
    rw [same]
  · -- the wrap of the high part is a multiple of `2 ^ 64` where it stands
    have wrapped :
        (value.toInt >>> shift + 1).bmod 0x100000000 ≡ value.toInt >>> shift + 1
          [ZMOD 0x100000000] :=
      Int.bmod_emod ..
    have divides : (0x10000000000000000 : Int) ∣ 0x100000000 * 2 ^ shift :=
      mul_dvd_mul_left 0x100000000 (pow_dvd_pow 2 far)
    exact (wrapped.mul_right' (c := 2 ^ shift)).of_dvd divides

/-- Subtracting the gap from the next high part gives the constant. -/
theorem subtracting_represents
    {value : Int64}
    {shift : Nat}
    (reach : shift ≤ 63)
    (lower : -0x80000000 ≤ value.toInt >>> shift)
    (upper : value.toInt >>> shift < 0x80000000)
    (kept : value.toInt >>> shift ≠ 0x7fffffff ∨ 32 ≤ shift)
    (something : lowPart value shift ≠ 0)
    (short : shift ≤ 33 ∨ gap value shift ≤ 1) :
    (subtracting value shift).Represents value.toInt := by
  have isGap := gap_eq something
  have low := lowPart_lt value shift
  have inside : shift ≤ 64 := Nat.le_trans reach (by decide)
  have whole := shiftRight_add_lowPart value inside
  refine ⟨reach, ?_, short, ?_⟩
  · have : gap value shift < 2 ^ shift := by omega
    exact this
  · have signedGap : -1 * (gap value shift : Int) = lowPart value shift - 2 ^ shift := by
      rw [isGap, Nat.cast_sub (Nat.le_of_lt low), Nat.cast_pow]
      push_cast
      ring
    unfold Split.value subtracting sign
    dsimp only
    rw [if_pos rfl, signedGap]
    refine ((highPart_succ_modEq lower upper kept).add_right _).trans ?_
    have regrouped :
        (value.toInt >>> shift + 1) * 2 ^ shift + (lowPart value shift - 2 ^ shift) =
          value.toInt := by
      refine Eq.trans ?_ whole
      ring
    rw [regrouped]

end Split

/-!
## The window
-/

/-- A constant fits in the bits that its span takes. -/
theorem spanTop_spec (value : Int64) :
    -(2 ^ spanTop value : Nat) ≤ value.toInt ∧ value.toInt < (2 ^ spanTop value : Nat) := by
  have negative := lt_two_pow_bitLength (-value.toInt - 1).toNat
  have positive := lt_two_pow_bitLength value.toInt.toNat
  unfold spanTop
  split <;> omega

/-- A constant that fits in some bits has no wider span. -/
theorem spanTop_le_of_bounds
    {value : Int64}
    {bits : Nat}
    (lower : -(2 ^ bits : Nat) ≤ value.toInt)
    (upper : value.toInt < (2 ^ bits : Nat)) :
    spanTop value ≤ bits := by
  unfold spanTop
  split
  · apply bitLength_le_of_lt
    omega
  · apply bitLength_le_of_lt
    omega

/-- The span of a constant has at most 63 bits. -/
theorem spanTop_le (value : Int64) :
    spanTop value ≤ 63 :=
  spanTop_le_of_bounds value.le_toInt value.toInt_lt

/-- The bits below the lowest set one are zero. -/
theorem two_pow_trailingZeros_dvd (bits n : Nat) :
    2 ^ trailingZeros bits n ∣ n := by
  induction bits generalizing n with
  | zero =>
      exact Nat.one_dvd n
  | succ bits inductionHypothesis =>
      unfold trailingZeros
      split
      · exact Nat.one_dvd n
      · rename_i even
        have half : n = n / 2 * 2 := by omega
        rw [Nat.pow_succ, half, Nat.mul_div_cancel _ (by decide : 0 < 2)]
        exact Nat.mul_dvd_mul_right (inductionHypothesis (n / 2)) 2

/-- No more bits are counted than asked for. -/
theorem trailingZeros_le (bits n : Nat) :
    trailingZeros bits n ≤ bits := by
  induction bits generalizing n with
  | zero =>
      exact Nat.le_refl 0
  | succ bits inductionHypothesis =>
      unfold trailingZeros
      split
      · exact Nat.zero_le _
      · exact Nat.succ_le_succ (inductionHypothesis (n / 2))

/-- The bits below the lowest change are all zero or all one. -/
theorem spanBottom_dvd (value : Int64) :
    spanBottom value ≤ 64 ∧
      (2 ^ spanBottom value ∣ pattern value ∨ 2 ^ spanBottom value ∣ pattern value + 1) := by
  have small : pattern value < 0x10000000000000000 := value.toUInt64.toNat_lt
  unfold spanBottom
  split
  · have zeros := two_pow_trailingZeros_dvd 64 (0xffffffffffffffff - pattern value)
    have few := trailingZeros_le 64 (0xffffffffffffffff - pattern value)
    refine ⟨few, Or.inr ?_⟩
    have whole : 2 ^ trailingZeros 64 (0xffffffffffffffff - pattern value) ∣ 2 ^ 64 :=
      Nat.pow_dvd_pow 2 few
    have rest :
        pattern value + 1 = 2 ^ 64 - (0xffffffffffffffff - pattern value) := by
      omega
    rw [rest]
    exact Nat.dvd_sub whole zeros
  · exact ⟨trailingZeros_le 64 _, Or.inl (two_pow_trailingZeros_dvd 64 _)⟩

/-- A constant with some span has its lowest change inside of it. -/
theorem spanBottom_le
    {value : Int64}
    (wide : spanTop value ≠ 0) :
    spanBottom value ≤ 63 := by
  obtain ⟨inside, same⟩ := spanBottom_dvd value
  by_contra outside
  have atTop : spanBottom value = 64 := by omega
  have isPattern := pattern_eq value
  have lower := value.le_toInt
  have upper := value.toInt_lt
  rw [atTop] at same
  apply wide
  rcases same with zeros | ones
  · have isZero : value.toInt = 0 := by omega
    simp [spanTop, isZero, bitLength]
  · have isOnes : value.toInt = -1 := by omega
    simp [spanTop, isOnes, bitLength]

namespace Split

/-- Below the lowest change, nothing is missing or nothing is there. -/
theorem lowPart_spanBottom (value : Int64) :
    lowPart value (spanBottom value) = 0 ∨
      lowPart value (spanBottom value) + 1 = 2 ^ spanBottom value := by
  rw [lowPart, Nat.one_shiftLeft]
  rcases (spanBottom_dvd value).2 with zeros | ones
  · exact Or.inl (Nat.mod_eq_zero_of_dvd zeros)
  · right
    obtain ⟨quotient, isMultiple⟩ := ones
    have positive := Nat.two_pow_pos (spanBottom value)
    generalize 2 ^ spanBottom value = power at *
    cases quotient with
    | zero =>
        omega
    | succ quotient =>
        have rest : pattern value = power - 1 + power * quotient := by
          rw [Nat.mul_succ] at isMultiple
          omega
        rw [rest, Nat.add_mul_mod_self_left, Nat.mod_eq_of_lt (by omega)]
        omega

/-- A number in a power of two times a bound is in the bound when shifted. -/
theorem shiftRight_bounds
    (number : Int)
    (shift bits : Nat)
    (lower : -(2 ^ (bits + shift) : Nat) ≤ number)
    (upper : number < (2 ^ (bits + shift) : Nat)) :
    -(2 ^ bits : Nat) ≤ number >>> shift ∧ number >>> shift < (2 ^ bits : Nat) := by
  have positive : (0 : Int) < (2 ^ shift : Nat) := by
    exact_mod_cast Nat.two_pow_pos shift
  rw [Nat.pow_add, Int.natCast_mul] at lower upper
  rw [Int.shiftRight_eq_div_pow]
  constructor
  · rw [Int.le_ediv_iff_mul_le positive]
    rw [Int.neg_mul]
    exact lower
  · rw [Int.ediv_lt_iff_lt_mul positive]
    exact upper

/--
A place at which a constant can be split: its high part is a signed 32-bit
number, and the shift is small or there is next to nothing below it.
-/
structure Splits
    (value : Int64)
    (shift top : Nat) :
    Prop where
  reach : shift ≤ 63
  lower : -0x80000000 ≤ value.toInt >>> shift
  upper : value.toInt >>> shift < 0x80000000
  short :
    (shift ≤ 32 ∧ (top = 63 → shift = 32)) ∨
      (value.toInt >>> shift < 0x7fffffff ∧
        (lowPart value shift = 0 ∨ lowPart value shift + 1 = 2 ^ shift))

/-- The window of a constant is a place at which it can be split. -/
theorem window_splits (value : Int64) :
    Splits value (window value).1 (window value).2 := by
  have spans := spanTop_spec value
  have topLe := spanTop_le value
  unfold window
  dsimp only
  split
  · rename_i narrow
    have power : 2 ^ spanTop value ≤ 2 ^ 31 := Nat.pow_le_pow_right (by decide) (by omega)
    have same : value.toInt >>> (0 : Nat) = value.toInt := Int.shiftRight_zero _
    refine ⟨by decide, ?_, ?_, Or.inl (by decide)⟩
    · rw [same]
      omega
    · rw [same]
      omega
  · rename_i wide
    have bottomLe : spanBottom value ≤ 63 := spanBottom_le (by omega)
    split
    · rename_i near
      have power : 2 ^ spanTop value ≤ 2 ^ (30 + spanBottom value) :=
        Nat.pow_le_pow_right (by decide) (by omega)
      have bounds :=
        shiftRight_bounds value.toInt (spanBottom value) 30 (by omega) (by omega)
      refine ⟨bottomLe, ?_, ?_, Or.inr ⟨?_, lowPart_spanBottom value⟩⟩ <;>
        dsimp only <;> omega
    · have whole : 31 + (spanTop value - 31) = spanTop value := by omega
      have bounds := shiftRight_bounds value.toInt (spanTop value - 31) 31
      rw [whole] at bounds
      have inBounds := bounds spans.1 spans.2
      refine ⟨?_, ?_, ?_, Or.inl ?_⟩ <;> dsimp only <;> omega

/-- A high part that fills its 31 bits is the largest signed 32-bit number. -/
theorem highPart_eq_top_iff
    {value : Int64}
    {shift top : Nat}
    (splits : Splits value shift top) :
    highPart value shift = 0x7fffffff ↔ value.toInt >>> shift = 0x7fffffff := by
  have lower := splits.lower
  have upper := splits.upper
  unfold highPart
  omega

/-- The split of a constant represents it. -/
theorem ofConstant_represents (value : Int64) :
    (ofConstant value).Represents value.toInt := by
  have splits := window_splits value
  unfold ofConstant
  generalize window value = place at splits
  obtain ⟨shift, top⟩ := place
  have topmost := highPart_eq_top_iff splits
  obtain ⟨reach, lower, upper, short⟩ := splits
  dsimp only at *
  have low := lowPart_lt value shift
  split
  · rename_i full
    obtain ⟨isTop, notLast⟩ := full
    rw [topmost] at isTop
    have near : shift ≤ 32 := by omega
    split
    · -- one place further up, the high part is far from the end of its range
      rename_i smaller
      have half : value.toInt >>> (shift + 1) = 0x3fffffff := by
        rw [Int.shiftRight_add, isTop]
        rfl
      have something : lowPart value (shift + 1) ≠ 0 := by
        intro nothing
        have inside : shift ≤ 64 := by omega
        have insideAbove : shift + 1 ≤ 64 := by omega
        have whole := shiftRight_add_lowPart value inside
        have wholeAbove := shiftRight_add_lowPart value insideAbove
        have positive : (0 : Int) < 2 ^ shift := Int.pow_pos (by decide)
        rw [half, nothing, pow_succ] at wholeAbove
        rw [isTop] at whole
        omega
      exact subtracting_represents (by omega) (by omega) (by omega) (by omega)
        something (by omega)
    · exact adding_represents reach lower upper (by omega)
  · rename_i notFull
    have kept : value.toInt >>> shift ≠ 0x7fffffff ∨ 32 ≤ shift := by
      rw [topmost] at notFull
      omega
    split
    · have something : lowPart value shift ≠ 0 := by omega
      have isGap := gap_eq something
      exact subtracting_represents reach lower upper kept something (by omega)
    · refine adding_represents reach lower upper ?_
      by_cases nothing : lowPart value shift = 0
      · omega
      · have isGap := gap_eq nothing
        omega

end Split

/-!
## The chosen steps
-/

/-- Steps that build constants stay in the signed 64-bit range. -/
theorem foldl_range
    {steps : List Step}
    (builds : ∀ step ∈ steps, step.Builds)
    {start : Int}
    (range : -0x8000000000000000 ≤ start ∧ start < 0x8000000000000000) :
    -0x8000000000000000 ≤ steps.foldl Step.apply start ∧
      steps.foldl Step.apply start < 0x8000000000000000 := by
  induction steps generalizing start with
  | nil =>
      exact range
  | cons step rest inductionHypothesis =>
      exact inductionHypothesis (fun later member => builds later (by simp [member]))
        (Step.apply_range (builds step (by simp)) start)

/-- The steps without the shifted form fit. -/
theorem directSteps_fit (value : Int64) :
    ∀ step ∈ directSteps value, step.Fits := by
  unfold directSteps
  split
  · rename_i small
    intro step member
    obtain rfl := List.mem_singleton.mp member
    exact small
  · exact (Split.ofConstant_represents value).steps_fit

/-- The steps without the shifted form are eight at most. -/
theorem directSteps_length (value : Int64) :
    (directSteps value).length ≤ 8 := by
  unfold directSteps
  split
  · exact Nat.le_add_left 1 7
  · exact (Split.ofConstant_represents value).steps_length

/-- The steps without the shifted form build the constant. -/
theorem foldl_directSteps (value : Int64) :
    (directSteps value).foldl Step.apply 0 = value.toInt := by
  have lower := value.le_toInt
  have upper := value.toInt_lt
  have congruent :
      (directSteps value).foldl Step.apply 0 ≡ value.toInt [ZMOD 0x10000000000000000] := by
    unfold directSteps
    split
    · refine (Step.apply_addi_modEq 0 value.toInt).trans ?_
      rw [Int.zero_add]
    · exact (Split.ofConstant_represents value).foldl_steps
  have range :=
    foldl_range (fun step member => (directSteps_fit value step member).builds)
      (show -0x8000000000000000 ≤ (0 : Int) ∧ (0 : Int) < 0x8000000000000000 by decide)
  unfold Int.ModEq at congruent
  omega

/-- A pattern moved up to the top bit stays a pattern. -/
theorem shiftLeft_leadingZeros_lt (value : Int64) :
    pattern value <<< leadingZeros value < 0x10000000000000000 := by
  have small : bitLength (pattern value) ≤ 64 := bitLength_le_of_lt value.toUInt64.toNat_lt
  have fits := lt_two_pow_bitLength (pattern value)
  have whole : bitLength (pattern value) + leadingZeros value = 64 := by
    unfold leadingZeros
    omega
  rw [Nat.shiftLeft_eq]
  calc
    pattern value * 2 ^ leadingZeros value
        < 2 ^ bitLength (pattern value) * 2 ^ leadingZeros value :=
          Nat.mul_lt_mul_of_pos_right fits (Nat.two_pow_pos _)
    _ = 0x10000000000000000 := by
          rw [← Nat.pow_add, whole]

/-- Only zero has all bits above its highest set bit. -/
theorem leadingZeros_le
    {value : Int64}
    (nonzero : pattern value ≠ 0) :
    leadingZeros value ≤ 63 := by
  unfold leadingZeros bitLength
  rw [if_neg nonzero]
  omega

/-- The unsigned number of a pattern is the pattern. -/
theorem pattern_ofNat
    {number : Nat}
    (small : number < 0x10000000000000000) :
    pattern (Int64.ofNat number) = number := by
  have same : (Int64.ofNat number).toUInt64 = UInt64.ofNat number := rfl
  rw [pattern, same, UInt64.toNat_ofNat']
  exact Nat.mod_eq_of_lt small

/-- The steps of the shifted form build a constant that is not negative. -/
theorem foldl_shiftedSteps
    {value : Int64}
    (nonnegative : 0 ≤ value.toInt)
    (nonzero : pattern value ≠ 0) :
    (shiftedSteps value).foldl Step.apply 0 = value.toInt := by
  have zeros := leadingZeros_le nonzero
  have small := shiftLeft_leadingZeros_lt value
  have upper := value.toInt_lt
  have amount : ((leadingZeros value : Int) % 64).toNat = leadingZeros value := by omega
  have moved :
      (Int64.ofNat (pattern value <<< leadingZeros value)).toInt % 0x10000000000000000 =
        (pattern value <<< leadingZeros value : Nat) := by
    rw [← pattern_eq, pattern_ofNat small]
  have back :
      ((pattern value <<< leadingZeros value : Nat) : Int) >>> leadingZeros value =
        pattern value := by
    have unshifted : pattern value <<< leadingZeros value >>> leadingZeros value =
        pattern value := by
      rw [Nat.shiftLeft_shiftRight]
    exact congrArg Nat.cast unshifted
  rw [shiftedSteps, List.foldl_append, foldl_directSteps, List.foldl_cons, List.foldl_nil,
    Step.apply]
  dsimp only
  rw [amount, moved, back, pattern_eq]
  have kept : value.toInt % 0x10000000000000000 = value.toInt := by omega
  rw [kept]
  exact Int.bmod_eq_of_le (by omega) (by omega)

/-- What it takes to choose the shifted form. -/
theorem prefersShifted_iff
    {value : Int64}
    {minSpan : Nat} :
    prefersShifted value minSpan = true ↔
      0 ≤ value.toInt ∧ ¬ FitsSigned 12 value.toInt ∧
        minSpan ≤ spanTop value - spanBottom value ∧
          (shiftedSteps value).length < (directSteps value).length := by
  simp [prefersShifted, and_assoc]

/-- The chosen steps fit, are eight at most, and build the constant. -/
theorem synthesisSteps_spec
    (value : Int64)
    (minSpan : Nat) :
    (∀ step ∈ synthesisSteps value minSpan, step.Fits) ∧
      (synthesisSteps value minSpan).length ≤ 8 ∧
        (synthesisSteps value minSpan).foldl Step.apply 0 = value.toInt := by
  have few := directSteps_length value
  unfold synthesisSteps
  split
  · rename_i prefers
    obtain ⟨nonnegative, large, -, shorter⟩ := prefersShifted_iff.mp prefers
    have isPattern := pattern_eq value
    have nonzero : pattern value ≠ 0 := by
      intro isZero
      have upper := value.toInt_lt
      have valueZero : value.toInt = 0 := by omega
      rw [valueZero] at large
      exact large (by decide)
    refine ⟨?_, by omega, foldl_shiftedSteps nonnegative nonzero⟩
    intro step member
    rcases List.mem_append.mp member with inDirect | last
    · exact directSteps_fit _ step inDirect
    · obtain rfl := List.mem_singleton.mp last
      have zeros := leadingZeros_le nonzero
      simp only [Step.Fits]
      omega
  · exact ⟨directSteps_fit value, few, foldl_directSteps value⟩

/-- Some step is always chosen. -/
theorem synthesisSteps_ne_nil
    (value : Int64)
    (minSpan : Nat) :
    synthesisSteps value minSpan ≠ [] := by
  intro nothing
  have built := (synthesisSteps_spec value minSpan).2.2
  rw [nothing, List.foldl_nil] at built
  have small : FitsSigned 12 value.toInt := by
    rw [← built]
    decide
  have notShifted : prefersShifted value minSpan = false := by
    rw [Bool.eq_false_iff]
    intro prefers
    exact (prefersShifted_iff.mp prefers).2.1 small
  rw [synthesisSteps, notShifted, if_neg Bool.false_ne_true, directSteps, if_pos small]
    at nothing
  cases nothing

/-- Synthesis always finds a sequence. -/
theorem exists_synthesize
    (value : Int64)
    (minSpan : Nat) :
    ∃ sequence,
      synthesize value minSpan = some sequence ∧ sequence.steps ≠ [] ∧
        (∀ step ∈ sequence.steps, step.Fits) ∧ sequence.value = value.toInt := by
  obtain ⟨fits, few, built⟩ := synthesisSteps_spec value minSpan
  refine ⟨⟨synthesisSteps value minSpan, few⟩, ?_, ?_, fits, built⟩
  · rw [synthesize, Sequence.ofSteps?, dif_pos few]
  · exact synthesisSteps_ne_nil value minSpan

/-- A signed number in a register is its pattern. -/
theorem ofInt_toInt (value : Int64) :
    UInt64.ofInt value.toInt = value.toUInt64 := by
  rw [Machine.ofInt_eq]
  exact congrArg UInt64.ofBitVec BitVec.ofInt_toInt

/--
Synthesis is exact: for every constant and every register but the zero register
there is a sequence, its steps fit their fields, its value is the constant, and
its words leave the constant in the register, whatever was there before.
-/
theorem synthesize_exact
    (value : Int64)
    (minSpan : Nat)
    (rd : Register)
    (garbage : UInt64)
    (notZero : rd.index ≠ 0)
    (small : rd.index < 32) :
    ∃ sequence words,
      synthesize value minSpan = some sequence ∧
        (∀ step ∈ sequence.steps, step.Fits) ∧
          Instruction.encodeAll (sequence.instructions rd) = .ok words ∧
            sequence.value = value.toInt ∧
              Machine.evaluate words rd.index garbage = .ok value.toUInt64 := by
  obtain ⟨sequence, found, nonempty, fits, isValue⟩ := exists_synthesize value minSpan
  obtain ⟨words, encoded⟩ := sequence.exists_encodeAll small fits
  refine ⟨sequence, words, found, fits, encoded, isValue, ?_⟩
  have zero : ((Machine.start #[]).store rd.index garbage).read 0 = 0 :=
    (Machine.read_store_of_ne _ garbage small (by decide) notZero.symm).trans rfl
  obtain ⟨after, executed, delivered⟩ :=
    Sequence.executeAll_of_encodeAll notZero
      (fun step member => (fits step member).builds) nonempty encoded zero
  rw [Machine.evaluate, if_neg notZero, executed, Except.map, delivered.value, isValue, ofInt_toInt]

/-- A constant of alternating bits in every byte, whose register was not empty. -/
theorem synthesize_exact_alternating :
    Register.t2.index ≠ 0 ∧ Register.t2.index < 32 ∧
      ∃ sequence words,
        synthesize (-0x55aa55aa55aa55ab) 32 = some sequence ∧
          (∀ step ∈ sequence.steps, step.Fits) ∧
            Instruction.encodeAll (sequence.instructions .t2) = .ok words ∧
              sequence.value = (-0x55aa55aa55aa55ab : Int64).toInt ∧
                Machine.evaluate words Register.t2.index 0xffffffffffffffff =
                  .ok (-0x55aa55aa55aa55ab : Int64).toUInt64 :=
  ⟨by decide, by decide,
    synthesize_exact (-0x55aa55aa55aa55ab) 32 .t2 0xffffffffffffffff (by decide) (by decide)⟩

end Constant

end Rv64Codegen
