import Rv64Codegen.Constant.Sequence

namespace Rv64Codegen.Constant

/-!
# Synthesis of constants

A constant that an `addi` cannot hold is written as

    constant = high * 2 ^ shift  (+ or -)  offset,    offset < 2 ^ shift

where `high` is a signed 32-bit number.  The high part takes `lui` and `addiw`,
and the offset is shifted in behind it, eleven bits at a time.  The shift is
chosen from the outermost places where the bits of the constant change.  A
non-negative constant is also tried shifted up to the top bit, with one `srli`
behind it, and the shorter of the two sequences is taken.
-/

/-- The number of bits that a natural number needs. -/
def bitLength (n : Nat) : Nat :=
  if n = 0 then
    0
  else
    n.log2 + 1

/-- The number of zero bits below the lowest set bit, among the given number of bits. -/
def trailingZeros : Nat → Nat → Nat
  | 0, _ =>
      0
  | bits + 1, n =>
      if n % 2 = 1 then
        0
      else
        trailingZeros bits (n / 2) + 1

/-- The unsigned number with the same 64 bits. -/
def pattern (value : Int64) : Nat :=
  value.toUInt64.toNat

/-- One more than the highest place where a bit differs from the sign. -/
def spanTop (value : Int64) : Nat :=
  if value.toInt < 0 then
    bitLength (-value.toInt - 1).toNat
  else
    bitLength value.toInt.toNat

/-- The lowest place where a bit differs from the lowest bit. -/
def spanBottom (value : Int64) : Nat :=
  if pattern value % 2 = 1 then
    trailingZeros 64 (0xffffffffffffffff - pattern value)
  else
    trailingZeros 64 (pattern value)

/--
A constant as a high part at a shift, with an offset that is added or
subtracted.
-/
structure Split where
  shift : Nat
  high : Nat
  offset : Nat
  subtract : Bool
  deriving Repr, DecidableEq

namespace Split

/-- The 32-bit pattern of what stands above a shift. -/
def highPart (value : Int64) (shift : Nat) : Nat :=
  ((value.toInt >>> shift) % 0x100000000).toNat

/-- What stands below a shift. -/
def lowPart (value : Int64) (shift : Nat) : Nat :=
  pattern value % (1 <<< shift)

/-- How much is missing below a shift to the next multiple. -/
def gap (value : Int64) (shift : Nat) : Nat :=
  ((1 <<< shift) - lowPart value shift) % (1 <<< shift)

/-- Add what stands below the shift. -/
def adding (value : Int64) (shift : Nat) : Split :=
  ⟨shift, highPart value shift, lowPart value shift, false⟩

/-- Go up to the next high part and subtract what is missing. -/
def subtracting (value : Int64) (shift : Nat) : Split :=
  ⟨shift, (highPart value shift + 1) % 0x100000000, gap value shift, true⟩

/--
The lowest place of the high part and the place above its top: all of a 32-bit
constant, the 31 bits above the lowest change, or the 31 bits below the highest.
-/
def window (value : Int64) : Nat × Nat :=
  let top := spanTop value
  let bottom := spanBottom value
  if top < 32 then
    (0, 31)
  else if top - bottom < 31 then
    (bottom, bottom + 31)
  else
    (top - 31, top)

/--
The split of a constant.  The smaller of offset and gap is taken.  A high part
that would change its sign by going up is moved one place further up instead,
when that leaves a smaller gap.
-/
def ofConstant (value : Int64) : Split :=
  let (shift, top) := window value
  if highPart value shift = 0x7fffffff ∧ top ≠ 63 then
    if gap value (shift + 1) < lowPart value shift then
      subtracting value (shift + 1)
    else
      adding value shift
  else if gap value shift < lowPart value shift then
    subtracting value shift
  else
    adding value shift

/-- The steps that load the high part, rounding the upper twenty bits. -/
def highSteps (split : Split) : List Step :=
  let lower := split.high % 0x1000
  let carry := if 0x800 ≤ lower then 1 else 0
  let upper := (split.high / 0x1000 + carry) % 0x100000
  (if upper = 0 then [] else [⟨.lui, signExtend 20 upper⟩]) ++
    (if lower = 0 then [] else [⟨.addiw, signExtend 12 lower⟩])

/-- Where the offset is being read: the next chunk and the shift not yet done. -/
structure Cursor where
  low : Nat
  width : Nat
  pending : Nat
  deriving Repr, DecidableEq

/-- The chunk of an offset under a cursor. -/
def Cursor.chunk (cursor : Cursor) (offset : Nat) : Nat :=
  (offset >>> cursor.low) % (1 <<< cursor.width)

/-- Move a cursor down until its chunk fills eleven bits or reaches the end. -/
def Cursor.widen (cursor : Cursor) (offset : Nat) : Cursor :=
  let room := min cursor.low (11 - min (bitLength (cursor.chunk offset)) 11)
  { cursor with
    low := cursor.low - room
    pending := cursor.pending + room }

/-- Move a cursor below the chunk it stands on. -/
def Cursor.advance (cursor : Cursor) : Cursor where
  low := cursor.low - min cursor.low 11
  width := cursor.width - (11 - cursor.low)
  pending := cursor.pending + min cursor.low 11

/-- The shift that is still to be done when the offset is used up. -/
def Cursor.finalSteps (cursor : Cursor) : List Step :=
  if cursor.pending = 0 then
    []
  else
    [⟨.slli, cursor.pending⟩]

/-- The two steps that shift in a chunk. -/
def chunkSteps
    (split : Split)
    (cursor : Cursor) :
    List Step :=
  let chunk : Int := cursor.chunk split.offset
  [⟨.slli, cursor.pending⟩, ⟨.addi, if split.subtract then -chunk else chunk⟩]

/--
The steps for the chunk under the cursor and the cursor behind it; an empty
chunk takes no step and leaves its shift to be done later.
-/
def takeChunk
    (split : Split)
    (cursor : Cursor) :
    List Step × Cursor :=
  if cursor.chunk split.offset = 0 then
    ([], cursor)
  else
    let wide := cursor.widen split.offset
    (split.chunkSteps wide, { wide with pending := 0 })

/-- Taking a chunk never moves the cursor up. -/
theorem takeChunk_low_le
    (split : Split)
    (cursor : Cursor) :
    (split.takeChunk cursor).2.low ≤ cursor.low := by
  unfold takeChunk
  split
  · exact Nat.le_refl _
  · exact Nat.sub_le _ _

/-- The steps that shift in the offset from the cursor down, most significant first. -/
def offsetStepsFrom
    (split : Split)
    (cursor : Cursor) :
    List Step :=
  if (split.takeChunk cursor).2.low = 0 then
    (split.takeChunk cursor).1 ++ (split.takeChunk cursor).2.finalSteps
  else
    (split.takeChunk cursor).1 ++
      split.offsetStepsFrom (split.takeChunk cursor).2.advance
  termination_by cursor.low
  decreasing_by
    have notAbove := takeChunk_low_le split cursor
    simp only [Cursor.advance]
    omega

/-- The steps that shift in the whole offset. -/
def offsetSteps (split : Split) : List Step :=
  split.offsetStepsFrom {
    low := split.shift - 11
    width := min split.shift 11
    pending := min split.shift 11 }

/-- All steps of a split. -/
def steps (split : Split) : List Step :=
  split.highSteps ++ split.offsetSteps

end Split

/-- The steps of a constant without the shifted form. -/
def directSteps (value : Int64) : List Step :=
  if FitsSigned 12 value.toInt then
    [⟨.addi, value.toInt⟩]
  else
    (Split.ofConstant value).steps

/-- The number of zero bits above the highest set bit. -/
def leadingZeros (value : Int64) : Nat :=
  64 - bitLength (pattern value)

/--
The steps of the shifted form: the constant moved up to the top bit, and an
`srli` that moves it back.
-/
def shiftedSteps (value : Int64) : List Step :=
  let zeros := leadingZeros value
  directSteps (Int64.ofNat (pattern value <<< zeros)) ++ [⟨.srli, zeros⟩]

/--
Whether the shifted form is taken: the constant is not negative, its bits change
over a span of at least `minSpan` places, and the form saves a step.
-/
def prefersShifted (value : Int64) (minSpan : Nat) : Bool :=
  decide (0 ≤ value.toInt) &&
    decide (¬ FitsSigned 12 value.toInt) &&
    decide (minSpan ≤ spanTop value - spanBottom value) &&
    decide ((shiftedSteps value).length < (directSteps value).length)

/-- The steps chosen for a constant. -/
def synthesisSteps (value : Int64) (minSpan : Nat) : List Step :=
  if prefersShifted value minSpan then
    shiftedSteps value
  else
    directSteps value

/-- The sequence chosen for a constant. -/
def synthesize (value : Int64) (minSpan : Nat) : Option Sequence :=
  Sequence.ofSteps? (synthesisSteps value minSpan)

end Rv64Codegen.Constant
