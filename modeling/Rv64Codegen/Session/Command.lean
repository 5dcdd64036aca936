import Rv64Codegen.Session.Basic

namespace Rv64Codegen

/-!
# Commands

Everything that a front end can ask of a session, as data.  `Session.perform`
carries out one command and `Session.run` a list of them; a command that fails
does not stop the ones behind it.  `Session.notices` tells what a command
reports.
-/

/-- A request of the front end. -/
inductive Command where
  | newLabel
  | bindLabel (label : LabelId)
  | newGroup
  | setRegion (region : Region)
  | register (op : Opcode) (rd rs1 rs2 : Register)
  | immediate (op : Opcode) (rd rs1 : Register) (imm : Int)
  | shift (op : Opcode) (rd rs1 : Register) (amount : Nat)
  | store (op : Opcode) (rs2 rs1 : Register) (imm : Int)
  | upper (op : Opcode) (rd : Register) (imm : Int)
  | move (rd rs : Register) (width : MoveWidth)
  | branch (op : Opcode) (rs1 rs2 : Register) (label : LabelId)
  | branchRelative (op : Opcode) (rs1 rs2 : Register) (count : Int)
  | jal (rd : Register) (label : LabelId)
  | jump (label : LabelId)
  | keepLong (jump : JumpId)
  | loadConstant (rd : Register) (value : Int64)
  | call (link : Register) (target : CallTarget)
  | dataLoad (op : Opcode) (rd : Register) (slot : Nat)
  | labelAddress (rd : Register) (label : LabelId)
  | relocatedAddress
      (rd : Register) (target : RelocationTarget) (kind : RelocationKind) (addend : Int64)
  | reserveData (count align : Nat)
  | writeData (offset : Nat) (data : Array UInt8)
  | dataConstant (value : UInt64)
  | relax
  deriving Repr, DecidableEq

/-- The answer to a command. -/
inductive Reply where
  | done
  | label (label : LabelId)
  | group (group : GroupId)
  | jump (jump : JumpId)
  | offset (offset : Nat)
  | stats (stats : RelaxStats)
  deriving Repr, DecidableEq

namespace Session

/-- Put an answer into the form that all commands share. -/
def answer
    (reply : α → Reply)
    (outcome : Except Failure α × Session) :
    Except Failure Reply × Session :=
  (outcome.1.map reply, outcome.2)

/-- Carry out a command. -/
def perform (session : Session) : Command → Except Failure Reply × Session
  | .newLabel =>
      let (label, next) := session.newLabel
      (.ok (.label label), next)
  | .bindLabel label =>
      answer .group (session.bindLabel label)
  | .newGroup =>
      let (group, next) := session.newGroup
      (.ok (.group group), next)
  | .setRegion region =>
      (.ok .done, session.setRegion region)
  | .register op rd rs1 rs2 =>
      answer (fun _ => .done) (session.appendChecked (Request.register op rd rs1 rs2))
  | .immediate op rd rs1 imm =>
      answer (fun _ => .done) (session.appendChecked (Request.immediate op rd rs1 imm))
  | .shift op rd rs1 amount =>
      answer (fun _ => .done) (session.appendChecked (Request.shift op rd rs1 amount))
  | .store op rs2 rs1 imm =>
      answer (fun _ => .done) (session.appendChecked (Request.store op rs2 rs1 imm))
  | .upper op rd imm =>
      answer (fun _ => .done) (session.appendChecked (Request.upper op rd imm))
  | .move rd rs width =>
      answer (fun _ => .done) (session.appendChecked (Request.move rd rs width))
  | .branch op rs1 rs2 label =>
      answer .jump (session.appendJumpChecked (Request.branch op rs1 rs2) (.label label))
  | .branchRelative op rs1 rs2 count =>
      answer .jump (session.appendJumpChecked (Request.branch op rs1 rs2) (.relative count))
  | .jal rd label =>
      answer .jump (session.appendJumpChecked (Request.jal rd) (.label label))
  | .jump label =>
      answer .jump (session.appendJumpChecked (Request.jal .zero) (.label label))
  | .keepLong id =>
      (.ok .done, session.keepLong id)
  | .loadConstant rd value =>
      answer (fun _ => .done) (session.loadConstant rd value)
  | .call link target =>
      answer (fun _ => .done) (session.call link target)
  | .dataLoad op rd slot =>
      answer (fun _ => .done) (session.appendChecked (session.pooledLoad op rd slot))
  | .labelAddress rd label =>
      answer (fun _ => .done) (session.appendChecked (session.labelAddress rd label))
  | .relocatedAddress rd target kind addend =>
      answer (fun _ => .done)
        (session.appendChecked (Request.relocatedAddress rd target kind addend))
  | .reserveData count align =>
      answer .offset (session.reserveData count align)
  | .writeData offset data =>
      answer (fun _ => .done) (session.writeData offset data)
  | .dataConstant value =>
      answer .offset (session.dataConstant value)
  | .relax =>
      answer .stats session.relax

/-- Carry out commands one after the other, whether they succeed or fail. -/
def run (session : Session) (commands : List Command) : Session :=
  commands.foldl (fun state command => (state.perform command).2) session

/-- What a session reports while it carries out a command. -/
def notices (session : Session) : Command → List Notice
  | .loadConstant rd value =>
      match Request.constantDestination rd with
      | .error _ =>
          []
      | .ok () =>
          Constant.planNotices value session.config.constants session.reachesPool
  | .call link (.absolute address) =>
      match Request.requireFile .jalr "link" link .int with
      | .error _ =>
          []
      | .ok () =>
          Constant.planNotices address.toInt64 session.config.constants session.reachesPool
  | .relax =>
      (session.layout.relax session.config).notices.toList
  | _ =>
      []

/-- What a session reports while it is finished. -/
def finishNotices (session : Session) : List Notice :=
  (session.layout.relax session.config).notices.toList ++
    match session.finish with
    | .ok emitted =>
        [emitted.notice]
    | .error _ =>
        []

end Session

end Rv64Codegen
