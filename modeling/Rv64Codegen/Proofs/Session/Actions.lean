import Rv64Codegen.Proofs.DataPool.Integrity
import Rv64Codegen.Proofs.Program.WellFormed
import Rv64Codegen.Session.Command

namespace Rv64Codegen.Session

/-!
# What commands come down to

Most commands check their operands and then append an operation, a jump or a
constant, or they put a call to the data pool.  Commands that come down to the same
kind of action differ in what they check and append, and in nothing else, so that
what all of them have in common is proved once for each kind.
-/

/-!
## Appending
-/

/-- The failure of a command that finds no room in the code. -/
def codeIsFull (session : Session) : Failure :=
  .refused (.resourceLimitExceeded "code bytes" session.config.maxCodeBytes)

/-- The limit and the offsets of the code leave room for an operation. -/
structure HasRoom (session : Session) (operation : Operation) : Prop where
  limit : session.layout.codeSize + operation.initialSize ≤ session.config.maxCodeBytes
  fits : session.layout.codeSize + operation.initialSize < offsetRange

theorem breaks_iff
    {session : Session}
    {operation : Operation} :
    session.breaks operation = true ↔
      session.layout.codeSize + operation.initialSize ≤ session.config.maxCodeBytes ∧
        offsetRange ≤ session.layout.codeSize + operation.initialSize := by
  unfold breaks
  rw [Bool.and_eq_true, decide_eq_true_eq, decide_eq_true_eq]

theorem append_of_room
    {session : Session}
    {operation : Operation}
    (room : session.HasRoom operation) :
    session.append operation =
      (.ok (),
        { session with layout := session.layout.push (Descriptor.ofOperation operation) }) := by
  have unbroken : ¬ session.breaks operation = true := fun breaks =>
    Nat.not_lt_of_le (breaks_iff.mp breaks).2 room.fits
  unfold append
  dsimp only [Descriptor.ofOperation]
  rw [if_neg unbroken, if_neg (Nat.not_lt_of_le room.limit)]

theorem append_of_breaks
    {session : Session}
    {operation : Operation}
    (breaks : session.breaks operation = true) :
    session.append operation = (.error .broken, session) :=
  if_pos breaks

/-- Without room nothing is appended; the code is full, unless its offsets end there. -/
theorem append_of_noRoom
    {session : Session}
    {operation : Operation}
    (noRoom : ¬ session.HasRoom operation)
    (unbroken : ¬ session.breaks operation = true) :
    session.append operation = (.error session.codeIsFull, session) := by
  have full :
      session.config.maxCodeBytes < session.layout.codeSize + operation.initialSize := by
    refine Nat.lt_of_not_le fun limit => ?_
    refine noRoom ⟨limit, Nat.lt_of_not_le fun beyond => ?_⟩
    exact unbroken (breaks_iff.mpr ⟨limit, beyond⟩)
  unfold append
  dsimp only [Descriptor.ofOperation]
  rw [if_neg unbroken, if_pos full]
  rfl

/-- An operation is appended, or the session stays as it is. -/
theorem append_cases
    (session : Session)
    (operation : Operation) :
    (∃ failure, session.append operation = (.error failure, session)) ∨
      session.HasRoom operation ∧
        session.append operation =
          (.ok (),
            { session with
              layout := session.layout.push (Descriptor.ofOperation operation) }) := by
  by_cases room : session.HasRoom operation
  · exact Or.inr ⟨room, append_of_room room⟩
  · by_cases breaks : session.breaks operation = true
    · exact Or.inl ⟨_, append_of_breaks breaks⟩
    · exact Or.inl ⟨_, append_of_noRoom room breaks⟩

theorem appendChecked_cases
    (session : Session)
    (checked : Except EmissionError Operation) :
    (∃ failure, session.appendChecked checked = (.error failure, session)) ∨
      ∃ operation,
        checked = .ok operation ∧ session.HasRoom operation ∧
          session.appendChecked checked =
            (.ok (),
              { session with
                layout := session.layout.push (Descriptor.ofOperation operation) }) := by
  cases checked with
  | error cause =>
      exact Or.inl ⟨_, rfl⟩
  | ok operation =>
      rcases session.append_cases operation with fails | ⟨room, appends⟩
      · exact Or.inl fails
      · exact Or.inr ⟨operation, rfl, room, appends⟩

/-- A jump is appended and entered into the jump list, or the session stays as it is. -/
theorem appendJumpChecked_cases
    (session : Session)
    (checked : Except EmissionError JumpKind)
    (target : JumpTarget) :
    (∃ failure, session.appendJumpChecked checked target = (.error failure, session)) ∨
      ∃ kind,
        checked = .ok kind ∧ session.HasRoom (.jump ⟨session.layout.jumps.size⟩) ∧
          session.appendJumpChecked checked target =
            (.ok ⟨session.layout.jumps.size⟩,
              { session with layout := session.layout.pushFresh kind target }) := by
  cases checked with
  | error cause =>
      exact Or.inl ⟨_, rfl⟩
  | ok kind =>
      unfold appendJumpChecked appendJump
      dsimp only
      rcases session.append_cases (.jump ⟨session.layout.jumps.size⟩) with
        ⟨failure, fails⟩ | ⟨room, appends⟩
      · rw [fails]
        exact Or.inl ⟨failure, rfl⟩
      · rw [appends]
        exact Or.inr ⟨kind, rfl, room, rfl⟩

/-- What becomes of an operation on the pool slot of a constant. -/
inductive Pooled
    (session : Session)
    (value : UInt64)
    (operation : Nat → Operation) :
    Except Failure Unit × Session → Prop where
  | refused
      {cause : EmissionError}
      (refuses : session.pool.intern value = .error cause) :
      Pooled session value operation (.error (.refused cause), session)
  | appended
      {slot : Nat}
      {pool : DataPool}
      (interns : session.pool.intern value = .ok (slot, pool))
      (room : session.HasRoom (operation slot)) :
      Pooled session value operation
        (.ok (),
          { session with
            layout := session.layout.push (Descriptor.ofOperation (operation slot))
            pool := pool })
  /-- The constant has come to the pool before the code turns out to be full. -/
  | full
      {slot : Nat}
      {pool : DataPool}
      (interns : session.pool.intern value = .ok (slot, pool)) :
      Pooled session value operation (.error session.codeIsFull, { session with pool := pool })
  | broken :
      Pooled session value operation (.error .broken, session)

theorem pooled_appendPooled
    (session : Session)
    (value : UInt64)
    (operation : Nat → Operation) :
    session.Pooled value operation (session.appendPooled value operation) := by
  unfold appendPooled
  cases interns : session.pool.intern value with
  | error cause =>
      exact .refused interns
  | ok pair =>
      obtain ⟨slot, pool⟩ := pair
      dsimp only
      by_cases breaks : session.breaks (operation slot) = true
      · rw [if_pos breaks]
        exact .broken
      · rw [if_neg breaks]
        by_cases room : session.HasRoom (operation slot)
        · have roomNext : ({ session with pool := pool } : Session).HasRoom (operation slot) :=
            ⟨room.limit, room.fits⟩
          rw [append_of_room roomNext]
          exact .appended interns room
        · have noRoomNext :
              ¬ ({ session with pool := pool } : Session).HasRoom (operation slot) :=
            fun next => room ⟨next.limit, next.fits⟩
          rw [append_of_noRoom noRoomNext breaks]
          exact .full interns

/-!
## Constants
-/

/-- Append an operation on a constant, which is a sequence or stands in the data pool. -/
def appendConstant
    (session : Session)
    (value : UInt64)
    (inline : Sequence → Operation)
    (pooled : Nat → Operation) :
    Except Failure Unit × Session :=
  match Constant.plan value.toInt64 session.config.constants session.reachesPool with
  | .error failure =>
      (.error failure, session)
  | .ok (.inline sequence) =>
      session.append (inline sequence)
  | .ok .pool =>
      session.appendPooled value pooled

/-- Append an operation on a constant whose checks have been made. -/
def appendConstantChecked
    (session : Session)
    (checked : Except EmissionError Unit)
    (value : UInt64)
    (inline : Sequence → Operation)
    (pooled : Nat → Operation) :
    Except Failure Unit × Session :=
  match checked with
  | .error cause =>
      session.refuse cause
  | .ok () =>
      session.appendConstant value inline pooled

variable
  {session : Session}

theorem loadConstant_eq
    (rd : Register)
    (value : Int64) :
    session.loadConstant rd value =
      match Request.constantDestination rd with
      | .error cause => session.refuse cause
      | .ok () =>
          session.appendConstant value.toUInt64 (.loadConstant rd) (.dataLoad .ld rd rd) := by
  unfold loadConstant appendConstant
  rewrite [value.toInt64_toUInt64]
  rfl

theorem callAbsolute_eq
    (link : Register)
    (address : UInt64) :
    session.callAbsolute link address =
      session.appendConstant address
        (fun sequence => .call (.absolute link session.config.callScratch sequence))
        fun slot => .call (.pooled link session.config.callScratch slot) :=
  rfl

/-!
## Actions
-/

/-- What a session does for a command, with the checks on the operands made. -/
inductive Action where
  | newLabel
  | bindLabel (label : LabelId)
  | newGroup
  | setRegion (region : Region)
  | keepLong (id : JumpId)
  | operation (checked : Except EmissionError Operation)
  | jump (checked : Except EmissionError JumpKind) (target : JumpTarget)
  | constant
      (checked : Except EmissionError Unit)
      (value : UInt64)
      (inline : Sequence → Operation)
      (pooled : Nat → Operation)
  | pool (call : DataPool.Call)
  | relax

/-- The action that a command asks for. -/
def action (session : Session) : Command → Action
  | .newLabel => .newLabel
  | .bindLabel label => .bindLabel label
  | .newGroup => .newGroup
  | .setRegion region => .setRegion region
  | .register op rd rs1 rs2 => .operation (Request.register op rd rs1 rs2)
  | .immediate op rd rs1 imm => .operation (Request.immediate op rd rs1 imm)
  | .shift op rd rs1 amount => .operation (Request.shift op rd rs1 amount)
  | .store op rs2 rs1 imm => .operation (Request.store op rs2 rs1 imm)
  | .upper op rd imm => .operation (Request.upper op rd imm)
  | .move rd rs width => .operation (Request.move rd rs width)
  | .branch op rs1 rs2 label => .jump (Request.branch op rs1 rs2) (.label label)
  | .branchRelative op rs1 rs2 count => .jump (Request.branch op rs1 rs2) (.relative count)
  | .jal rd label => .jump (Request.jal rd) (.label label)
  | .jump label => .jump (Request.jal .zero) (.label label)
  | .keepLong id => .keepLong id
  | .loadConstant rd value =>
      .constant (Request.constantDestination rd) value.toUInt64
        (.loadConstant rd) (.dataLoad .ld rd rd)
  -- The link is checked first, and a constant is planned only after that.
  | .call link (.register base offset) =>
      .operation do
        Request.requireFile .jalr "link" link .int
        indirectCall link base offset
  | .call link (.relocated target addend) =>
      .operation do
        Request.requireFile .jalr "link" link .int
        pure (.call (.relocated link session.config.callScratch target addend))
  | .call link (.absolute address) =>
      .constant (Request.requireFile .jalr "link" link .int) address
        (fun sequence => .call (.absolute link session.config.callScratch sequence))
        fun slot => .call (.pooled link session.config.callScratch slot)
  | .dataLoad op rd slot => .operation (session.pooledLoad op rd slot)
  | .labelAddress rd label => .operation (session.labelAddress rd label)
  | .relocatedAddress rd target kind addend =>
      .operation (Request.relocatedAddress rd target kind addend)
  | .reserveData count align => .pool (.reserve count align)
  | .writeData offset data => .pool (.write offset data)
  | .dataConstant value => .pool (.intern value)
  | .relax => .relax

/-- The command that asks for an action, where there is only one. -/
def Action.command? : Action → Option Command
  | .newLabel => some .newLabel
  | .bindLabel label => some (.bindLabel label)
  | .newGroup => some .newGroup
  | .setRegion region => some (.setRegion region)
  | .keepLong id => some (.keepLong id)
  | .relax => some .relax
  | _ => none

theorem eq_of_command?
    {command other : Command}
    (isOther : (session.action command).command? = some other) :
    command = other := by
  cases command with
  | call link target =>
      cases target <;> cases isOther
  | _ =>
      cases isOther <;> rfl

/-- The reply to a call of the data pool. -/
def poolReply : Option Nat → Reply
  | some offset => .offset offset
  | none => .done

/-- Carry out an action. -/
def act (session : Session) : Action → Except Failure Reply × Session
  | .newLabel =>
      let (label, next) := session.newLabel
      (.ok (.label label), next)
  | .bindLabel label =>
      answer .group (session.bindLabel label)
  | .newGroup =>
      let (group, next) := session.newGroup
      (.ok (.group group), next)
  | .setRegion region =>
      (.ok .done, session.setRegion region)
  | .keepLong id =>
      (.ok .done, session.keepLong id)
  | .operation checked =>
      answer (fun _ => .done) (session.appendChecked checked)
  | .jump checked target =>
      answer .jump (session.appendJumpChecked checked target)
  | .constant checked value inline pooled =>
      answer (fun _ => .done) (session.appendConstantChecked checked value inline pooled)
  | .pool call =>
      let (result, pool) := session.pool.perform call
      (Failure.ofRefusal (result.map poolReply), { session with pool := pool })
  | .relax =>
      answer .stats session.relax

/-- The link of a call is checked in front of its target. -/
theorem call_eq_act
    (link : Register)
    (target : CallTarget) :
    answer (fun _ => .done) (session.call link target) =
      session.act (session.action (.call link target)) := by
  cases target with
  | register base offset =>
      rw [call, action, act]
      cases Request.requireFile .jalr "link" link .int <;> rfl
  | relocated symbol addend =>
      rw [call, action, act]
      cases Request.requireFile .jalr "link" link .int <;> rfl
  | absolute address =>
      rfl

/-- A session carries out a command by its action. -/
theorem perform_eq_act
    (session : Session)
    (command : Command) :
    session.perform command = session.act (session.action command) := by
  cases command with
  | loadConstant rd value =>
      rw [perform, loadConstant_eq]
      rfl
  | call link target =>
      exact call_eq_act link target
  | reserveData count align =>
      rw [perform, action, act, reserveData, DataPool.perform]
      cases session.pool.reserve count align <;> rfl
  | writeData offset data =>
      rw [perform, action, act, writeData, DataPool.perform]
      cases session.pool.write offset data <;> rfl
  | dataConstant value =>
      rw [perform, action, act, dataConstant, DataPool.perform_intern]
      cases session.pool.intern value <;> rfl
  | _ =>
      rfl

end Rv64Codegen.Session
