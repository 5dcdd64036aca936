namespace Rv64Codegen

/-!
# Registers

A register is a register file together with a number.  Numbers above 31 can be
written down, because a front end may ask for them, but no instruction word has
room for them; the word assembler is the one place that refuses them.
-/

/-- The two register files of the machine. -/
inductive RegisterFile where
  | int
  | float
  deriving Repr, DecidableEq, Ord

/-- A physical register: its file and its number in that file. -/
structure Register where
  file : RegisterFile
  number : UInt8
  deriving Repr, DecidableEq, Ord

namespace Register

/-- The integer register with the given number. -/
def x (number : UInt8) : Register :=
  ⟨.int, number⟩

/-- The floating-point register with the given number. -/
def f (number : UInt8) : Register :=
  ⟨.float, number⟩

/-- The hard-wired zero register. -/
def zero : Register :=
  x 0

/-- The return-address register. -/
def ra : Register :=
  x 1

/-- The third temporary, which calls use to hold an address. -/
def t2 : Register :=
  x 7

/-- The seventh temporary, which floating-point pool loads use as a base. -/
def t6 : Register :=
  x 31

/-- The number that an instruction word carries for the register. -/
def index (register : Register) : Nat :=
  register.number.toNat

/-- Whether the register belongs to the floating-point file. -/
def isFloat (register : Register) : Bool :=
  register.file == .float

/-- Whether the register is the hard-wired zero register. -/
def isZero (register : Register) : Bool :=
  register.file == .int && register.number == 0

/-- The calling-convention names of the integer registers, by number. -/
def intNames : List String :=
  ["zero", "ra", "sp", "gp", "tp", "t0", "t1", "t2",
    "s0", "s1", "a0", "a1", "a2", "a3", "a4", "a5",
    "a6", "a7", "s2", "s3", "s4", "s5", "s6", "s7",
    "s8", "s9", "s10", "s11", "t3", "t4", "t5", "t6"]

/-- The calling-convention names of the floating-point registers, by number. -/
def floatNames : List String :=
  ["ft0", "ft1", "ft2", "ft3", "ft4", "ft5", "ft6", "ft7",
    "fs0", "fs1", "fa0", "fa1", "fa2", "fa3", "fa4", "fa5",
    "fa6", "fa7", "fs2", "fs3", "fs4", "fs5", "fs6", "fs7",
    "fs8", "fs9", "fs10", "fs11", "ft8", "ft9", "ft10", "ft11"]

/--
The calling-convention name of the register; a number that has none is written
after the letter of its file.
-/
def text (register : Register) : String :=
  match register.file with
  | .int =>
      intNames[register.index]?.getD ("x" ++ toString register.index)
  | .float =>
      floatNames[register.index]?.getD ("f" ++ toString register.index)

end Register

end Rv64Codegen
