import Rv64Codegen.Isa.Bytes
import Rv64Codegen.Isa.Word

namespace Rv64Codegen

/-!
# Word buffers

The words of one descriptor.  The longest descriptor is a call through an
address built in eight steps, nine words in all, and a buffer holds no more.
-/

/-- The words of one descriptor, nine at most. -/
structure WordBuffer where
  words : List Word
  length_le : words.length ≤ 9 := by decide
  deriving Repr, DecidableEq

namespace WordBuffer

/-- The buffer without words. -/
def empty : WordBuffer :=
  { words := [] }

/-- A list of words as a buffer, unless it is too long. -/
def ofWords? (words : List Word) : Option WordBuffer :=
  if fits : words.length ≤ 9 then
    some ⟨words, fits⟩
  else
    none

/-- Append one word; a full buffer has no room for it. -/
def push? (buffer : WordBuffer) (word : Word) : Option WordBuffer :=
  ofWords? (buffer.words ++ [word])

/--
Append words in order as long as there is room; the flag tells whether all of
them found room.
-/
def extend (buffer : WordBuffer) : List Word → Bool × WordBuffer
  | [] =>
      (true, buffer)
  | word :: rest =>
      match buffer.push? word with
      | none =>
          (false, buffer)
      | some longer =>
          longer.extend rest

/-- The number of bytes that the words take. -/
def byteLength (buffer : WordBuffer) : Nat :=
  buffer.words.length * 4

end WordBuffer

namespace Word

/-- The four bytes of a word, least significant first. -/
def bytes (word : Word) : List UInt8 :=
  littleEndianBytes 4 word.toNat

/-- A list of words as text. -/
def listText (words : List Word) : String :=
  "[" ++ ", ".intercalate (words.map fun word => Text.paddedHex 8 word.toNat) ++ "]"

end Word

/-- The bytes of a buffer's words in order. -/
def WordBuffer.bytes (buffer : WordBuffer) : List UInt8 :=
  buffer.words.flatMap Word.bytes

end Rv64Codegen
