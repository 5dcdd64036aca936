import Rv64Codegen.Isa.Bytes
import Rv64Codegen.Isa.Word

namespace Rv64Codegen

/-!
# A small machine

An interpreter for the integer part of RV64 that finished code uses: upper
immediates, jumps, branches, register and immediate arithmetic with the
word-sized forms, and 32-bit and 64-bit loads from a read-only image.  Every
instruction is first turned into its effect, a value for the destination
register and the next program counter; a trap has no effect at all.
-/

/-- Why the machine cannot go on. -/
inductive Trap where
  /-- The word is no instruction of this machine. -/
  | unsupported (word : Word)
  /-- A load reads outside the image. -/
  | fault (address : UInt64)
  /-- The program counter is outside the image. -/
  | pcOutOfRange (address : UInt64)
  deriving Repr, DecidableEq

/-- Registers, program counter and a read-only image at address zero. -/
structure Machine where
  x : Vector UInt64 32
  pc : UInt64
  image : Array UInt8

namespace Machine

/-- A machine with all registers zero, about to run an image from its start. -/
def start (image : Array UInt8) : Machine where
  x := Vector.replicate 32 0
  pc := 0
  image := image

/-- The contents of a register; numbers count modulo 32. -/
def read (machine : Machine) (number : Nat) : UInt64 :=
  machine.x.get ⟨number % 32, Nat.mod_lt _ (by decide)⟩

/-- Store into the register array; numbers count modulo 32. -/
def store
    (machine : Machine)
    (number : Nat)
    (value : UInt64) :
    Machine :=
  { machine with
    x := machine.x.set (number % 32) value (Nat.mod_lt _ (by decide)) }

/-- Write a register; the zero register takes no value. -/
def write
    (machine : Machine)
    (number : Nat)
    (value : UInt64) :
    Machine :=
  if number = 0 then
    machine
  else
    machine.store number value

/-- Load from the image. -/
def load
    (machine : Machine)
    (address : UInt64)
    (count : Nat) :
    Except Trap UInt64 :=
  match readBytes? machine.image address.toNat count with
  | some value =>
      .ok (UInt64.ofNat value)
  | none =>
      .error (.fault address)

/-- The word at the program counter. -/
def fetch (machine : Machine) : Except Trap Word :=
  match readBytes? machine.image machine.pc.toNat 4 with
  | some value =>
      .ok (UInt32.ofNat value)
  | none =>
      .error (.pcOutOfRange machine.pc)

/-- What an instruction does: a value for its destination, and where to go on. -/
structure Effect where
  value : Option UInt64
  next : UInt64
  deriving Repr, DecidableEq

/-- A 32-bit result as a register holds it. -/
def extendWord (value : UInt32) : UInt64 :=
  value.toInt32.toInt64.toUInt64

/-- Whether a branch is taken; `none` if there is no such condition. -/
def branchTaken? (funct3 : Nat) (left right : UInt64) : Option Bool :=
  match funct3 with
  | 0 => some (decide (left = right))
  | 1 => some (decide (left ≠ right))
  | 4 => some (decide (left.toInt64 < right.toInt64))
  | 5 => some (decide (right.toInt64 ≤ left.toInt64))
  | 6 => some (decide (left < right))
  | 7 => some (decide (right ≤ left))
  | _ => none

/-- The result of an operation with an immediate. -/
def immediateResult? (word : Word) (source : UInt64) : Option UInt64 :=
  let imm := UInt64.ofInt word.immI
  let amount := word.bits 20 6
  match word.funct3, word.bits 26 6 with
  | 0, _ => some (source + imm)
  | 1, 0 => some (source <<< UInt64.ofNat amount)
  | 2, _ => some (if source.toInt64 < imm.toInt64 then 1 else 0)
  | 3, _ => some (if source < imm then 1 else 0)
  | 4, _ => some (source ^^^ imm)
  | 5, 0 => some (source >>> UInt64.ofNat amount)
  | 5, 0x10 => some (source.toInt64 >>> Int64.ofNat amount).toUInt64
  | 6, _ => some (source ||| imm)
  | 7, _ => some (source &&& imm)
  | _, _ => none

/-- The result of a word-sized operation with an immediate. -/
def immediateWordResult? (word : Word) (source : UInt32) : Option UInt32 :=
  let amount := word.bits 20 5
  match word.funct3, word.funct7 with
  | 0, _ => some (source + UInt32.ofInt word.immI)
  | 1, 0x00 => some (source <<< UInt32.ofNat amount)
  | 5, 0x00 => some (source >>> UInt32.ofNat amount)
  | 5, 0x20 => some (source.toInt32 >>> Int32.ofNat amount).toUInt32
  | _, _ => none

/-- The result of an operation on two registers. -/
def registerResult? (word : Word) (left right : UInt64) : Option UInt64 :=
  let amount := right.toNat % 64
  match word.funct3, word.funct7 with
  | 0, 0x00 => some (left + right)
  | 0, 0x20 => some (left - right)
  | 0, 0x01 => some (left * right)
  | 1, 0x00 => some (left <<< UInt64.ofNat amount)
  | 2, 0x00 => some (if left.toInt64 < right.toInt64 then 1 else 0)
  | 3, 0x00 => some (if left < right then 1 else 0)
  | 4, 0x00 => some (left ^^^ right)
  | 5, 0x00 => some (left >>> UInt64.ofNat amount)
  | 5, 0x20 => some (left.toInt64 >>> Int64.ofNat amount).toUInt64
  | 6, 0x00 => some (left ||| right)
  | 7, 0x00 => some (left &&& right)
  | _, _ => none

/-- The result of a word-sized operation on two registers. -/
def registerWordResult? (word : Word) (left right : UInt32) : Option UInt32 :=
  let amount := right.toNat % 32
  match word.funct3, word.funct7 with
  | 0, 0x00 => some (left + right)
  | 0, 0x20 => some (left - right)
  | 1, 0x00 => some (left <<< UInt32.ofNat amount)
  | 5, 0x00 => some (left >>> UInt32.ofNat amount)
  | 5, 0x20 => some (left.toInt32 >>> Int32.ofNat amount).toUInt32
  | _, _ => none

/-- Regard a missing result as a word that is no instruction. -/
def supported (word : Word) : Option α → Except Trap α
  | some value =>
      .ok value
  | none =>
      .error (.unsupported word)

/-- The value that a load brings, widened as its opcode says. -/
def loadResult
    (machine : Machine)
    (word : Word)
    (address : UInt64) :
    Except Trap UInt64 :=
  match word.funct3 with
  | 2 => (machine.load address 4).map fun value => extendWord value.toUInt32
  | 3 => machine.load address 8
  | 6 => machine.load address 4
  | _ => .error (.unsupported word)

/-- The effect of a word at the current program counter. -/
def effect (machine : Machine) (word : Word) : Except Trap Effect :=
  let left := machine.read word.rs1
  let right := machine.read word.rs2
  let following := machine.pc + 4
  match Opcode.Major.ofCode? word.opcode with
  | some .lui =>
      .ok ⟨some (UInt64.ofInt (word.immU * 0x1000)), following⟩
  | some .auipc =>
      .ok ⟨some (machine.pc + UInt64.ofInt (word.immU * 0x1000)), following⟩
  | some .jal =>
      .ok ⟨some following, machine.pc + UInt64.ofInt word.immJ⟩
  | some .jalr =>
      if word.funct3 = 0 then
        let target := left + UInt64.ofInt word.immI
        .ok ⟨some following, target - target % 2⟩
      else
        .error (.unsupported word)
  | some .branch => do
      let taken ← supported word (branchTaken? word.funct3 left right)
      if taken then
        pure ⟨none, machine.pc + UInt64.ofInt word.immB⟩
      else
        pure ⟨none, following⟩
  | some .load => do
      let value ← machine.loadResult word (left + UInt64.ofInt word.immI)
      pure ⟨some value, following⟩
  | some .opImm => do
      let value ← supported word (immediateResult? word left)
      pure ⟨some value, following⟩
  | some .opImm32 => do
      let value ← supported word (immediateWordResult? word left.toUInt32)
      pure ⟨some (extendWord value), following⟩
  | some .op => do
      let value ← supported word (registerResult? word left right)
      pure ⟨some value, following⟩
  | some .op32 => do
      let value ← supported word
        (registerWordResult? word left.toUInt32 right.toUInt32)
      pure ⟨some (extendWord value), following⟩
  | _ =>
      .error (.unsupported word)

/-- Carry out an effect on a destination register. -/
def commit
    (machine : Machine)
    (rd : Nat)
    (effect : Effect) :
    Machine :=
  let written :=
    match effect.value with
    | some value => machine.write rd value
    | none => machine
  { written with pc := effect.next }

/-- Execute a word at the current program counter, without fetching it. -/
def execute (machine : Machine) (word : Word) : Except Trap Machine :=
  (machine.effect word).map (machine.commit word.rd)

/-- Fetch and execute one instruction. -/
def step (machine : Machine) : Except Trap Machine :=
  machine.fetch.bind machine.execute

/--
Run until the program counter is at `stop`, for at most the given number of
instructions.  The answer counts the instructions, starting from `done`; the
machine is the one that the last completed instruction left.
-/
def runFrom
    (done : Nat)
    (stop : UInt64) :
    Nat → Machine → Except Trap Nat × Machine
  | 0, machine =>
      (.ok done, machine)
  | limit + 1, machine =>
      if machine.pc = stop then
        (.ok done, machine)
      else
        match machine.step with
        | .error trap =>
            (.error trap, machine)
        | .ok next =>
            runFrom (done + 1) stop limit next

/-- Run until the program counter is at `stop`, for at most `limit` instructions. -/
def runUntil
    (machine : Machine)
    (stop : UInt64)
    (limit : Nat) :
    Except Trap Nat × Machine :=
  runFrom 0 stop limit machine

/-- Execute words one after the other, without fetching them. -/
def executeAll (machine : Machine) : List Word → Except Trap Machine
  | [] =>
      .ok machine
  | word :: rest =>
      match machine.execute word with
      | .error trap =>
          .error trap
      | .ok next =>
          next.executeAll rest

/--
The value that words leave in a register which held `garbage` before.  Register
zero starts as zero, and any other number is taken modulo 32.
-/
def evaluate
    (words : List Word)
    (rd : Nat)
    (garbage : UInt64) :
    Except Trap UInt64 :=
  let fresh := start #[]
  let prepared := if rd = 0 then fresh else fresh.store rd garbage
  (prepared.executeAll words).map fun machine => machine.read rd

end Machine

end Rv64Codegen
