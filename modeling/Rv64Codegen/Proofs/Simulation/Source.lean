import Rv64Codegen.Proofs.Output.Jump
import Rv64Codegen.Session.Command

namespace Rv64Codegen

/-!
# The source machine

What a front end means by its commands, without offsets, forms or words: a list
of statements and a machine that executes them one by one.  The machine knows
where labels are bound by the number of statements in front of them.  Only the
value that a jump links is an offset of finished code.
-/

/-- What one descriptor means to the front end. -/
inductive Statement where
  /-- An instruction with a result. -/
  | plain (instruction : Instruction)
  /-- A register receives a constant. -/
  | constant (rd : Register) (value : Int64)
  /-- A control transfer. -/
  | jump (kind : JumpKind) (target : JumpTarget)
  deriving Repr, DecidableEq

/-- Registers by their numbers. -/
abbrev Registers := Nat → UInt64

/-- Write a register; the zero register takes no value. -/
def Registers.write
    (registers : Registers)
    (rd : Nat)
    (value : UInt64) :
    Registers :=
  fun number => if number = rd ∧ rd ≠ 0 then value else registers number

/--
The destination and the result of an instruction that the machine can execute
and that is neither a load nor a control transfer.
-/
def Instruction.result?
    (registers : Registers) :
    Instruction → Option (Nat × UInt64)
  | .r op rd rs1 rs2 =>
      (op.registerMeaning? (registers rs1.index).toBitVec
        (registers rs2.index).toBitVec).map fun result => (rd.index, ⟨result⟩)
  | .i op rd rs1 imm =>
      (op.immediateMeaning? (registers rs1.index).toBitVec imm).map
        fun result => (rd.index, ⟨result⟩)
  | .u .lui rd imm =>
      some (rd.index, UInt64.ofInt (imm * 0x1000))
  | _ =>
      none

/-- The numbers of the registers that a statement names. -/
def Statement.registers : Statement → List Nat
  | .plain (.r _ rd rs1 rs2) =>
      [rd.index, rs1.index, rs2.index]
  | .plain (.i _ rd rs1 _) =>
      [rd.index, rs1.index]
  | .plain (.u _ rd _) =>
      [rd.index]
  | .plain _ =>
      []
  | .constant rd _ =>
      [rd.index]
  | .jump (.conditional _ rs1 rs2) _ =>
      [rs1.index, rs2.index]
  | .jump (.jal rd) _ =>
      [rd.index]

/-- The statement of a checked instruction, if the source machine has it. -/
def plainStatement? : Except EmissionError Operation → Option (Option Statement)
  | .ok (.instruction instruction) =>
      if (instruction.result? fun _ => 0).isSome then
        some (some (.plain instruction))
      else
        none
  | _ =>
      none

/--
The statement that a command appends, if it appends any; `none` for commands that
the source machine does not have.
-/
def Command.statement? : Command → Option (Option Statement)
  | .register op rd rs1 rs2 =>
      plainStatement? (Request.register op rd rs1 rs2)
  | .immediate op rd rs1 imm =>
      plainStatement? (Request.immediate op rd rs1 imm)
  | .shift op rd rs1 amount =>
      plainStatement? (Request.shift op rd rs1 amount)
  | .upper op rd imm =>
      plainStatement? (Request.upper op rd imm)
  | .move rd rs width =>
      plainStatement? (Request.move rd rs width)
  | .branch op rs1 rs2 label =>
      some (some (.jump (.conditional op rs1 rs2) (.label label)))
  | .branchRelative op rs1 rs2 count =>
      some (some (.jump (.conditional op rs1 rs2) (.relative count)))
  | .jal rd label =>
      some (some (.jump (.jal rd) (.label label)))
  | .jump label =>
      some (some (.jump (.jal .zero) (.label label)))
  | .loadConstant rd value =>
      some (some (.constant rd value))
  | .store .. =>
      none
  | .call .. =>
      none
  | .dataLoad .. =>
      none
  | .labelAddress .. =>
      none
  | .relocatedAddress .. =>
      none
  | _ =>
      some none

/-- A program of the source machine. -/
structure Source where
  statements : Array Statement
  /-- For every label the number of statements in front of it, once it is bound. -/
  positions : Array (Option Nat)

namespace Source

/-- The program without statements. -/
def empty : Source where
  statements := #[]
  positions := #[]

/-- Append a statement, if there is any. -/
def append
    (source : Source) :
    Option (Option Statement) → Source
  | some (some statement) =>
      { source with statements := source.statements.push statement }
  | _ =>
      source

/-- Append the meaning of a command. -/
def extend
    (source : Source)
    (command : Command) :
    Source :=
  match command with
  | .newLabel =>
      { source with positions := source.positions.push none }
  | .bindLabel label =>
      { source with
        positions :=
          source.positions.modify label.index fun _ => some source.statements.size }
  | other =>
      source.append other.statement?

/-- Registers and the number of the next statement. -/
structure State where
  registers : Registers
  next : Nat

/-- The statement that a jump goes to; relative targets count from the next statement. -/
def destination?
    (source : Source)
    (index : Nat) :
    JumpTarget → Option Nat
  | .label label =>
      source.positions[label.index]?.join
  | .relative count =>
      if 0 ≤ (index : Int) + 1 + count then
        some ((index : Int) + 1 + count).toNat
      else
        none

/--
Execute the next statement.  `offset` gives the place of every statement in
finished code, which is what jumps link.
-/
def step
    (source : Source)
    (offset : Nat → Nat)
    (state : State) :
    Option State :=
  match source.statements[state.next]? with
  | none =>
      none
  | some (.plain instruction) =>
      (instruction.result? state.registers).map fun result =>
        ⟨state.registers.write result.1 result.2, state.next + 1⟩
  | some (.constant rd value) =>
      some ⟨state.registers.write rd.index value.toUInt64, state.next + 1⟩
  | some (.jump kind target) =>
      let linked :=
        state.registers.write kind.link (UInt64.ofNat (offset (state.next + 1)))
      if kind.taken state.registers then
        (source.destination? state.next target).map fun place => ⟨linked, place⟩
      else
        some ⟨linked, state.next + 1⟩

/-- Execute a number of statements. -/
def run
    (source : Source)
    (offset : Nat → Nat) :
    Nat → State → Option State
  | 0, state =>
      some state
  | count + 1, state =>
      (source.step offset state).bind (source.run offset count)

end Source

namespace Session

/-- Whether a command leaves the pool slots alone that have been loaded from so far. -/
def spares (session : Session) : Command → Bool
  | .writeData offset data =>
      session.layout.descriptors.all fun descriptor =>
        match descriptor.operation with
        | .dataLoad _ _ _ slot =>
            DataPool.keepsClear slot offset data.size
        | _ =>
            true
  | _ =>
      true

/--
Whether commands build a program of the source machine: all of them succeed, the
source machine has all of them, and no pool slot is overwritten after a constant
has been loaded from it.
-/
def builds (session : Session) : List Command → Bool
  | [] =>
      true
  | command :: rest =>
      (session.perform command).1.isOk && command.statement?.isSome &&
        session.spares command && (session.perform command).2.builds rest

end Session

end Rv64Codegen
