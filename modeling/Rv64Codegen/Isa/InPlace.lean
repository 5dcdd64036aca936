import Rv64Codegen.Isa.Machine

namespace Rv64Codegen

/-!
# The machine in place

The machine as its callers hold it: every call changes it in place.  An
instruction writes its destination register as soon as it has the value and moves
the program counter last.  A trap ends a call where it has come to, and nothing
takes back what was changed until then.
-/

/-- A computation that changes a machine in place. -/
abbrev InPlace := ExceptT Trap (StateM Machine)

namespace InPlace

/-- The outcome of a computation on a machine, and the machine that it leaves. -/
def on
    (computation : InPlace α)
    (machine : Machine) :
    Except Trap α × Machine :=
  computation.run.run machine

/-- Write a register; the zero register takes no value. -/
def setRegister (number : Nat) (value : UInt64) : InPlace Unit :=
  modify fun machine => machine.write number value

/-- Move the program counter. -/
def setPc (address : UInt64) : InPlace Unit :=
  modify fun machine => { machine with pc := address }

/-- What a word does before the program counter moves; the answer is where it moves. -/
def operate (word : Word) : InPlace UInt64 := do
  let machine ← get
  let left := machine.read word.rs1
  let right := machine.read word.rs2
  let following := machine.pc + 4
  match Opcode.Major.ofCode? word.opcode with
  | some .lui =>
      setRegister word.rd (UInt64.ofInt (word.immU * 0x1000))
      pure following
  | some .auipc =>
      setRegister word.rd (machine.pc + UInt64.ofInt (word.immU * 0x1000))
      pure following
  | some .jal =>
      setRegister word.rd following
      pure ((← get).pc + UInt64.ofInt word.immJ)
  | some .jalr =>
      if word.funct3 = 0 then
        -- The target is read before the link is written: both may be one register.
        let target := left + UInt64.ofInt word.immI
        setRegister word.rd following
        pure (target - target % 2)
      else
        throw (.unsupported word)
  | some .branch =>
      let taken ← ofExcept (Machine.supported word
        (Machine.branchTaken? word.funct3 left right))
      if taken then
        pure (machine.pc + UInt64.ofInt word.immB)
      else
        pure following
  | some .load =>
      let value ← ofExcept (machine.loadResult word (left + UInt64.ofInt word.immI))
      setRegister word.rd value
      pure following
  | some .opImm =>
      let value ← ofExcept (Machine.supported word (Machine.immediateResult? word left))
      setRegister word.rd value
      pure following
  | some .opImm32 =>
      let value ← ofExcept (Machine.supported word
        (Machine.immediateWordResult? word left.toUInt32))
      setRegister word.rd (Machine.extendWord value)
      pure following
  | some .op =>
      let value ← ofExcept (Machine.supported word
        (Machine.registerResult? word left right))
      setRegister word.rd value
      pure following
  | some .op32 =>
      let value ← ofExcept (Machine.supported word
        (Machine.registerWordResult? word left.toUInt32 right.toUInt32))
      setRegister word.rd (Machine.extendWord value)
      pure following
  | _ =>
      throw (.unsupported word)

/-- Execute a word at the current program counter, without fetching it. -/
def execute (word : Word) : InPlace Unit := do
  let next ← operate word
  setPc next

/-- Fetch and execute one instruction. -/
def step : InPlace Unit := do
  let word ← ofExcept (← get).fetch
  execute word

/--
Run until the program counter is at `stop`, for at most the given number of
instructions.  The answer counts the instructions, starting from `done`.
-/
def runFrom
    (done : Nat)
    (stop : UInt64) :
    Nat → InPlace Nat
  | 0 =>
      pure done
  | limit + 1 => do
      if (← get).pc = stop then
        pure done
      else
        step
        runFrom (done + 1) stop limit

/-- Run until the program counter is at `stop`, for at most `limit` instructions. -/
def runUntil (stop : UInt64) (limit : Nat) : InPlace Nat :=
  runFrom 0 stop limit

end InPlace

namespace Machine

/-- What a caller can ask of a machine. -/
inductive Call where
  | step
  | execute (word : Word)
  | runUntil (stop : UInt64) (limit : Nat)
  deriving Repr, DecidableEq

/-- A call as a computation.  Only a run has an answer, the number of its instructions. -/
def Call.computation : Call → InPlace (Option Nat)
  | .step => do
      InPlace.step
      pure none
  | .execute word => do
      InPlace.execute word
      pure none
  | .runUntil stop limit => do
      let count ← InPlace.runUntil stop limit
      pure (some count)

/-- Carry out a call. -/
def perform
    (machine : Machine)
    (call : Call) :
    Except Trap (Option Nat) × Machine :=
  call.computation.on machine

end Machine

end Rv64Codegen
