import Rv64Codegen.Constant.Plan
import Rv64Codegen.Output.Writer
import Rv64Codegen.Session.Request

namespace Rv64Codegen

/-!
# Sessions

A session collects one function: its layout, its data pool and the part of the
function that is being written.  Every operation gives an answer or a failure,
and either way the session that stays behind.
-/

/-- The parts of a function; only the body can reach the data pool. -/
inductive Region where
  | body
  | prolog
  | epilog
  deriving Repr, DecidableEq

/-- A function that is being written. -/
structure Session where
  config : Config
  layout : Layout
  pool : DataPool
  region : Region
  deriving Repr, DecidableEq

namespace Session

/-- A session in which nothing has been written. -/
def start (config : Config) : Session where
  config := config
  layout := .empty
  pool := .empty
  region := .body

/-- Whether the current part of the function can reach the data pool. -/
def reachesPool (session : Session) : Bool :=
  session.region == .body

/-- A refusal that leaves the session as it is. -/
def refuse
    (session : Session)
    (cause : EmissionError) :
    Except Failure α × Session :=
  (.error (.refused cause), session)

/-- Whether an operation breaks the code: the limit lets it grow past all offsets. -/
def breaks
    (session : Session)
    (operation : Operation) :
    Bool :=
  let size := session.layout.codeSize + operation.initialSize
  decide (size ≤ session.config.maxCodeBytes) && decide (offsetRange ≤ size)

/-- Append an operation, unless the code would grow past its limit. -/
def append
    (session : Session)
    (operation : Operation) :
    Except Failure Unit × Session :=
  let descriptor := Descriptor.ofOperation operation
  if session.breaks operation then
    (.error .broken, session)
  else if session.config.maxCodeBytes < session.layout.codeSize + descriptor.size then
    session.refuse (.resourceLimitExceeded "code bytes" session.config.maxCodeBytes)
  else
    (.ok (), { session with layout := session.layout.push descriptor })

/-- Append an operation whose checks have been made. -/
def appendChecked
    (session : Session)
    (checked : Except EmissionError Operation) :
    Except Failure Unit × Session :=
  match checked with
  | .error cause =>
      session.refuse cause
  | .ok operation =>
      session.append operation

/-- Append a jump and enter it into the jump list. -/
def appendJump
    (session : Session)
    (kind : JumpKind)
    (target : JumpTarget) :
    Except Failure JumpId × Session :=
  let id : JumpId := ⟨session.layout.jumps.size⟩
  let jump := Jump.fresh kind target session.layout.current
    session.layout.descriptors.size session.layout.currentSize
  match session.append (.jump id) with
  | (.error failure, same) =>
      (.error failure, same)
  | (.ok (), longer) =>
      (.ok id, { longer with layout := longer.layout.pushJump jump })

/-- Append a jump whose checks have been made. -/
def appendJumpChecked
    (session : Session)
    (checked : Except EmissionError JumpKind)
    (target : JumpTarget) :
    Except Failure JumpId × Session :=
  match checked with
  | .error cause =>
      session.refuse cause
  | .ok kind =>
      session.appendJump kind target

/-- Create a label. -/
def newLabel (session : Session) : LabelId × Session :=
  (⟨session.layout.labels.size⟩, { session with layout := session.layout.addLabel })

/-- Start a new group. -/
def newGroup (session : Session) : GroupId × Session :=
  let layout := session.layout.openGroup
  (layout.current, { session with layout := layout })

/-- Bind a label here: to the current group if it is empty, else to a new one. -/
def bindLabel
    (session : Session)
    (label : LabelId) :
    Except Failure GroupId × Session :=
  match session.layout.labels[label.index]? with
  | none =>
      session.refuse (.unresolvedTarget label)
  | some (some group) =>
      session.refuse (.duplicateLabel label group)
  | some none =>
      let layout :=
        if session.layout.currentCount = 0 then
          session.layout
        else
          session.layout.openGroup
      (.ok layout.current,
        { session with layout := layout.bindLabel label layout.current })

/-- Go on with another part of the function. -/
def setRegion (session : Session) (region : Region) : Session :=
  { session with region := region }

/-- Ask for the far form of a jump; a number without a jump is ignored. -/
def keepLong (session : Session) (id : JumpId) : Session :=
  { session with
    layout := {
      session.layout with
      jumps := session.layout.jumps.modify id.index ({ · with keepLong := true }) } }

/-- Append an operation that uses the pool slot of a constant. -/
def appendPooled
    (session : Session)
    (value : UInt64)
    (operation : Nat → Operation) :
    Except Failure Unit × Session :=
  match session.pool.intern value with
  | .error cause =>
      session.refuse cause
  | .ok (slot, pool) =>
      if session.breaks (operation slot) then
        (.error .broken, session)
      else
        { session with pool := pool }.append (operation slot)

/-- Load a constant, from the data pool if its sequence is too long. -/
def loadConstant
    (session : Session)
    (rd : Register)
    (value : Int64) :
    Except Failure Unit × Session :=
  match Request.constantDestination rd with
  | .error cause =>
      session.refuse cause
  | .ok () =>
      match Constant.plan value session.config.constants session.reachesPool with
      | .error failure =>
          (.error failure, session)
      | .ok (.inline sequence) =>
          session.append (.loadConstant rd sequence)
      | .ok .pool =>
          session.appendPooled value.toUInt64 fun slot => .dataLoad .ld rd rd slot

/-- Call an address that is known. -/
def callAbsolute
    (session : Session)
    (link : Register)
    (address : UInt64) :
    Except Failure Unit × Session :=
  let scratch := session.config.callScratch
  match Constant.plan address.toInt64 session.config.constants session.reachesPool with
  | .error failure =>
      (.error failure, session)
  | .ok (.inline sequence) =>
      session.append (.call (.absolute link scratch sequence))
  | .ok .pool =>
      session.appendPooled address fun slot => .call (.pooled link scratch slot)

/-- A call through a register. -/
def indirectCall
    (link base : Register)
    (offset : Int) :
    Except EmissionError Operation := do
  Request.requireFile .jalr "base" base .int
  let _ ← (Instruction.i .jalr link base offset).encode
  pure (.call (.indirect link base offset))

/-- Call a target; `link` receives the return address. -/
def call
    (session : Session)
    (link : Register)
    (target : CallTarget) :
    Except Failure Unit × Session :=
  match Request.requireFile .jalr "link" link .int with
  | .error cause =>
      session.refuse cause
  | .ok () =>
      match target with
      | .register base offset =>
          session.appendChecked (indirectCall link base offset)
      | .relocated target addend =>
          session.append
            (.call (.relocated link session.config.callScratch target addend))
      | .absolute address =>
          session.callAbsolute link address

/-- A load of pool bytes that are already reserved. -/
def pooledLoad
    (session : Session)
    (op : Opcode)
    (rd : Register)
    (slot : Nat) :
    Except EmissionError Operation := do
  match op.loadWidth? with
  | none =>
      throw (.invalidOperand op "not a load")
  | some width =>
      if session.reachesPool then
        Request.requireFile op "rd" rd op.operandFiles.rd
        if rd.isZero then
          throw (.invalidOperand op "pool load into zero")
        else if session.pool.bytes.size < slot + width then
          throw (.dataOutOfBounds slot width)
        else
          let base := if rd.isFloat then session.config.reservedScratch else rd
          pure (.dataLoad op rd base slot)
      else
        throw (.invalidOperand op
          "the data pool is not reachable from prolog/epilog code")

/-- The address of a label that exists, bound or not. -/
def labelAddress
    (session : Session)
    (rd : Register)
    (label : LabelId) :
    Except EmissionError Operation := do
  Request.requireFile .auipc "rd" rd .int
  if label.index < session.layout.labels.size then
    pure (.labelAddress rd label)
  else
    throw (.unresolvedTarget label)

/-- Reserve bytes in the data pool. -/
def reserveData
    (session : Session)
    (count align : Nat) :
    Except Failure Nat × Session :=
  match session.pool.reserve count align with
  | .error cause =>
      session.refuse cause
  | .ok (offset, pool) =>
      (.ok offset, { session with pool := pool })

/-- Fill reserved bytes of the data pool. -/
def writeData
    (session : Session)
    (offset : Nat)
    (data : Array UInt8) :
    Except Failure Unit × Session :=
  match session.pool.write offset data with
  | .error cause =>
      session.refuse cause
  | .ok pool =>
      (.ok (), { session with pool := pool })

/-- Store a shared constant in the data pool. -/
def dataConstant
    (session : Session)
    (value : UInt64) :
    Except Failure Nat × Session :=
  match session.pool.intern value with
  | .error cause =>
      session.refuse cause
  | .ok (slot, pool) =>
      (.ok slot, { session with pool := pool })

/-- Relax all jumps; what was done before a failure stays. -/
def relax (session : Session) : Except Failure RelaxStats × Session :=
  let run := session.layout.relax session.config
  (run.result, { session with layout := run.layout })

/-- Relax and encode a function. -/
def finish (session : Session) : Except Failure EmittedCode :=
  match session.relax with
  | (.error failure, _) =>
      .error failure
  | (.ok stats, relaxed) =>
      relaxed.layout.write relaxed.pool relaxed.config stats

end Session

end Rv64Codegen
