import Rv64Codegen.Error
import Rv64Codegen.Isa.Bytes

namespace Rv64Codegen

/-!
# Data pools

The read-only bytes that stand behind the code.  Bytes are reserved at aligned
offsets and filled in later.  An 8-byte constant that is already in the pool is
not stored again, unless a write has touched its slot since.

Ends of reservations are machine words and wrap.  A reservation whose end has wrapped
is not refused; it cuts the pool.
-/

/-- Whether a number is a power of two. -/
def isPowerOfTwo (n : Nat) : Bool :=
  1 <<< n.log2 == n

/-- The least multiple of `align` that is not below `n`. -/
def nextMultiple (n align : Nat) : Nat :=
  (n + (align - 1)) / align * align

/-- Reserved bytes, the slots of shared constants and the largest alignment. -/
structure DataPool where
  bytes : Array UInt8
  constants : List (UInt64 × Nat)
  largestAlign : Nat
  deriving Repr, DecidableEq

namespace DataPool

/-- The pool without bytes. -/
def empty : DataPool :=
  ⟨#[], [], 0⟩

/-- The largest offset that a pool can have. -/
def maxOffset : Nat :=
  0xffffffff

/-- The largest alignment asked for so far, at least one. -/
def alignment (pool : DataPool) : Nat :=
  max pool.largestAlign 1

/-- Bytes cut to a number of bytes, or filled up with zeros. -/
def resize (bytes : Array UInt8) (count : Nat) : Array UInt8 :=
  bytes.extract 0 count ++ Array.replicate (count - bytes.size) 0

/--
Reserve zero bytes at the next offset with the given alignment; the answer is
that offset.
-/
def reserve
    (pool : DataPool)
    (count align : Nat) :
    Except EmissionError (Nat × DataPool) :=
  let offset := nextMultiple pool.bytes.size align
  let stop := (offset + count) % UInt64.size
  if ¬ isPowerOfTwo align then
    .error (.badAlignment align)
  else if maxOffset < offset ∨ maxOffset < stop then
    .error (.resourceLimitExceeded "data pool bytes" maxOffset)
  else
    .ok (offset, {
      pool with
      bytes := resize pool.bytes stop
      largestAlign := max pool.largestAlign align })

/-- Bytes with some of them replaced from an offset on. -/
def overwrite
    (bytes : Array UInt8)
    (offset : Nat)
    (data : Array UInt8) :
    Array UInt8 :=
  bytes.extract 0 offset ++ data ++
    bytes.extract (offset + data.size) bytes.size

/-- Whether the slot of a constant keeps clear of written bytes. -/
def keepsClear (slot offset count : Nat) : Bool :=
  decide (count = 0) || decide (slot + 8 ≤ offset) || decide (offset + count ≤ slot)

/-- Replace reserved bytes; constants whose slot is touched are not shared any more. -/
def write
    (pool : DataPool)
    (offset : Nat)
    (data : Array UInt8) :
    Except EmissionError DataPool :=
  if offset + data.size ≤ pool.bytes.size then
    .ok {
      pool with
      bytes := overwrite pool.bytes offset data
      constants := pool.constants.filter fun entry =>
        keepsClear entry.2 offset data.size }
  else
    .error (.dataOutOfBounds offset data.size)

/-- The slot of a constant, shared with an earlier one of the same value. -/
def intern
    (pool : DataPool)
    (value : UInt64) :
    Except EmissionError (Nat × DataPool) :=
  match pool.constants.lookup value with
  | some slot =>
      .ok (slot, pool)
  | none => do
      let (slot, reserved) ← pool.reserve 8 8
      let written ← reserved.write slot (littleEndianBytes 8 value.toNat).toArray
      pure (slot, { written with constants := (value, slot) :: written.constants })

end DataPool

end Rv64Codegen
