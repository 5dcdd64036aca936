import Rv64Codegen.Proofs.Session.Changes

namespace Rv64Codegen

/-!
# What a refused command leaves behind

Every command checks what it is asked for before it changes the session, with one
exception.  A constant that is loaded from the data pool, by itself or for a call,
enters the pool before the room for its instructions is checked.  When the code is
full, the command is refused and the constant stays in the pool.  Relaxation, which
keeps what it has done before a failure, is not considered here.
-/

/-- The constant that a command may take from the data pool. -/
def Command.constant? : Command → Option UInt64
  | .loadConstant _ value => some value.toUInt64
  | .call _ (.absolute address) => some address
  | _ => none

namespace Session

/-- A command whose constant belongs into the data pool finds no room in the code. -/
structure Strands
    (session : Session)
    (command : Command)
    (failure : Failure)
    (value : UInt64) :
    Prop where
  constant : command.constant? = some value
  pooled :
    Constant.plan value.toInt64 session.config.constants session.reachesPool = .ok .pool
  full : failure = session.codeIsFull

/-- A failure leaves the session as it is. -/
def Unharmed
    (session : Session)
    (outcome : Except Failure α × Session) :
    Prop :=
  ∀ failure, outcome.1 = .error failure → outcome.2 = session

variable
  {session : Session}

/-!
## Operations that check first
-/

theorem unharmed_refuse (cause : EmissionError) :
    session.Unharmed (session.refuse cause : Except Failure α × Session) := by
  intro failure _
  rfl

theorem unharmed_append (operation : Operation) :
    session.Unharmed (session.append operation) := by
  intro failure fails
  rcases session.append_cases operation with ⟨cause, same⟩ | ⟨-, appends⟩
  · rw [same]
  · rw [appends] at fails
    cases fails

theorem unharmed_appendChecked (checked : Except EmissionError Operation) :
    session.Unharmed (session.appendChecked checked) := by
  intro failure fails
  rcases session.appendChecked_cases checked with ⟨cause, same⟩ | ⟨operation, -, -, appends⟩
  · rw [same]
  · rw [appends] at fails
    cases fails

theorem unharmed_appendJumpChecked
    (checked : Except EmissionError JumpKind)
    (target : JumpTarget) :
    session.Unharmed (session.appendJumpChecked checked target) := by
  intro failure fails
  rcases session.appendJumpChecked_cases checked target with
    ⟨cause, same⟩ | ⟨kind, -, -, appends⟩
  · rw [same]
  · rw [appends] at fails
    cases fails

theorem unharmed_bindLabel (label : LabelId) :
    session.Unharmed (session.bindLabel label) := by
  unfold bindLabel
  split
  · exact unharmed_refuse _
  · exact unharmed_refuse _
  · intro failure fails
    cases fails

theorem unharmed_reserveData (count align : Nat) :
    session.Unharmed (session.reserveData count align) := by
  unfold reserveData
  split
  · exact unharmed_refuse _
  · intro failure fails
    cases fails

theorem unharmed_writeData
    (offset : Nat)
    (data : Array UInt8) :
    session.Unharmed (session.writeData offset data) := by
  unfold writeData
  split
  · exact unharmed_refuse _
  · intro failure fails
    cases fails

theorem unharmed_dataConstant (value : UInt64) :
    session.Unharmed (session.dataConstant value) := by
  unfold dataConstant
  split
  · exact unharmed_refuse _
  · intro failure fails
    cases fails

/-- A command fails exactly when its operation does. -/
theorem answer_eq_error_iff
    {reply : α → Reply}
    {outcome : Except Failure α × Session}
    {failure : Failure} :
    (answer reply outcome).1 = .error failure ↔ outcome.1 = .error failure := by
  obtain ⟨result, after⟩ := outcome
  cases result with
  | error cause =>
      simp [answer, Except.map]
  | ok value =>
      simp [answer, Except.map]

theorem isOk_answer
    (reply : α → Reply)
    (outcome : Except Failure α × Session) :
    (answer reply outcome).1.isOk = outcome.1.isOk := by
  rcases outcome with ⟨result, after⟩
  cases result <;> rfl

theorem Unharmed.answer
    {outcome : Except Failure α × Session}
    (unharmed : session.Unharmed outcome)
    (reply : α → Reply) :
    session.Unharmed (Session.answer reply outcome) := by
  intro failure fails
  exact unharmed failure (answer_eq_error_iff.mp fails)

/-!
## Constants for the data pool
-/

/-- The data pool never complains about the code. -/
theorem intern_ne_codeIsFull
    {pool : DataPool}
    {value : UInt64}
    {cause : EmissionError}
    (fails : pool.intern value = .error cause) :
    .refused cause ≠ session.codeIsFull := by
  intro isFull
  cases isFull
  unfold DataPool.intern at fails
  split at fails
  · cases fails
  · rcases bind_eq_error_iff.mp fails with reserving | ⟨⟨slot, reserved⟩, -, storing⟩
    · unfold DataPool.reserve at reserving
      dsimp only at reserving
      split at reserving
      · cases reserving
      · split at reserving
        · simp at reserving
        · cases reserving
    · rcases bind_eq_error_iff.mp storing with writing | ⟨written, -, done⟩
      · unfold DataPool.write at writing
        split at writing
        · cases writing
        · cases writing
      · cases done

/-- A constant stays in the pool when there is no room for its instructions. -/
theorem appendPooled_eq_error
    {value : UInt64}
    {operation : Nat → Operation}
    {failure : Failure}
    (fails : (session.appendPooled value operation).1 = .error failure) :
    (failure = session.codeIsFull ∧
        ∃ slot pool,
          session.pool.intern value = .ok (slot, pool) ∧
            (session.appendPooled value operation).2 = { session with pool := pool }) ∨
      (failure ≠ session.codeIsFull ∧ (session.appendPooled value operation).2 = session) := by
  have becomes := session.pooled_appendPooled value operation
  generalize session.appendPooled value operation = outcome at fails becomes ⊢
  cases becomes with
  | refused refuses =>
      cases fails
      exact Or.inr ⟨intern_ne_codeIsFull refuses, rfl⟩
  | appended =>
      cases fails
  | full interns =>
      cases fails
      exact Or.inl ⟨rfl, _, _, interns, rfl⟩
  | broken =>
      cases fails
      exact Or.inr ⟨nofun, rfl⟩

/-- A destination that is refused is not a lack of room. -/
theorem constantDestination_ne_codeIsFull
    {rd : Register}
    {cause : EmissionError}
    (refused : Request.constantDestination rd = .error cause) :
    .refused cause ≠ session.codeIsFull := by
  intro isFull
  cases isFull
  unfold Request.constantDestination at refused
  rcases bind_eq_error_iff.mp refused with file | ⟨-, -, zero⟩
  · unfold Request.requireFile at file
    split at file
    · cases file
    · cases file
  · split at zero
    · cases zero
    · cases zero

/-- A refused command has left its constant in the pool, or nothing at all. -/
def Leaves
    (session : Session)
    (command : Command)
    (failure : Failure)
    (after : Session) :
    Prop :=
  (∃ value slot pool,
    session.Strands command failure value ∧
      session.pool.intern value = .ok (slot, pool) ∧ after = { session with pool := pool }) ∨
    ((∀ value, ¬session.Strands command failure value) ∧ after = session)

theorem appendConstant_leaves
    {command : Command}
    {value : UInt64}
    (isConstant : command.constant? = some value)
    {inline : Sequence → Operation}
    {pooled : Nat → Operation}
    {failure : Failure}
    (fails : (session.appendConstant value inline pooled).1 = .error failure) :
    session.Leaves command failure (session.appendConstant value inline pooled).2 := by
  have planned {other : UInt64} (strands : session.Strands command failure other) :
      Constant.plan value.toInt64 session.config.constants session.reachesPool = .ok .pool := by
    cases isConstant.symm.trans strands.constant
    exact strands.pooled
  unfold appendConstant at fails ⊢
  split at fails
  · rename_i cause refused
    refine Or.inr ⟨fun other strands => ?_, rfl⟩
    cases refused.symm.trans (planned strands)
  · rename_i sequence isInline
    refine Or.inr ⟨fun other strands => ?_, unharmed_append _ failure fails⟩
    cases isInline.symm.trans (planned strands)
  · rename_i isPooled
    rcases appendPooled_eq_error fails with
      ⟨isFull, slot, pool, interned, after⟩ | ⟨notFull, after⟩
    · exact Or.inl ⟨value, slot, pool, ⟨isConstant, isPooled, isFull⟩, interned, after⟩
    · exact Or.inr ⟨fun other strands => notFull strands.full, after⟩

theorem loadConstant_leaves
    {rd : Register}
    {value : Int64}
    {failure : Failure}
    (fails : (session.loadConstant rd value).1 = .error failure) :
    session.Leaves (.loadConstant rd value) failure (session.loadConstant rd value).2 := by
  rw [loadConstant_eq] at fails ⊢
  split at fails
  · rename_i cause refused
    cases fails
    exact Or.inr ⟨fun other strands =>
      constantDestination_ne_codeIsFull refused strands.full, rfl⟩
  · exact appendConstant_leaves rfl fails

theorem call_leaves
    {link : Register}
    {target : CallTarget}
    {failure : Failure}
    (fails : (session.call link target).1 = .error failure) :
    session.Leaves (.call link target) failure (session.call link target).2 := by
  unfold call at fails ⊢
  split at fails
  · rename_i cause refused
    cases fails
    refine Or.inr ⟨fun other strands => ?_, rfl⟩
    have isFull := strands.full
    unfold Request.requireFile at refused
    split at refused
    · cases refused
    · cases refused
      cases isFull
  · cases target with
    | register base offset =>
        refine Or.inr ⟨fun other strands => ?_, unharmed_appendChecked _ failure fails⟩
        cases strands.constant
    | relocated symbol addend =>
        refine Or.inr ⟨fun other strands => ?_, unharmed_append _ failure fails⟩
        cases strands.constant
    | absolute address =>
        change (session.callAbsolute link address).1 = .error failure at fails
        show session.Leaves _ failure (session.callAbsolute link address).2
        rw [callAbsolute_eq] at fails ⊢
        exact appendConstant_leaves rfl fails

/-!
## Commands
-/

/--
A command that is refused, relaxation apart, leaves the session as it was, unless
the code has no room for a constant that belongs into the data pool: then the
constant stays in the pool, and all else is as it was.
-/
theorem refused_command_leaves
    (session : Session)
    (command : Command)
    (notRelax : command ≠ .relax)
    {failure : Failure}
    (fails : (session.perform command).1 = .error failure) :
    (∃ value slot pool,
      session.Strands command failure value ∧
        session.pool.intern value = .ok (slot, pool) ∧
          (session.perform command).2 = { session with pool := pool }) ∨
      ((∀ value, ¬session.Strands command failure value) ∧
        (session.perform command).2 = session) := by
  have unharmed
      (checks : session.Unharmed (session.perform command))
      (noConstant : command.constant? = none) :
      session.Leaves command failure (session.perform command).2 := by
    refine Or.inr ⟨fun value strands => ?_, checks failure fails⟩
    cases noConstant.symm.trans strands.constant
  cases command with
  | newLabel =>
      cases fails
  | bindLabel label =>
      exact unharmed ((unharmed_bindLabel label).answer _) rfl
  | newGroup =>
      cases fails
  | setRegion region =>
      cases fails
  | register op rd rs1 rs2 =>
      exact unharmed ((unharmed_appendChecked _).answer _) rfl
  | immediate op rd rs1 imm =>
      exact unharmed ((unharmed_appendChecked _).answer _) rfl
  | shift op rd rs1 amount =>
      exact unharmed ((unharmed_appendChecked _).answer _) rfl
  | store op rs2 rs1 imm =>
      exact unharmed ((unharmed_appendChecked _).answer _) rfl
  | upper op rd imm =>
      exact unharmed ((unharmed_appendChecked _).answer _) rfl
  | move rd rs width =>
      exact unharmed ((unharmed_appendChecked _).answer _) rfl
  | branch op rs1 rs2 label =>
      exact unharmed ((unharmed_appendJumpChecked _ _).answer _) rfl
  | branchRelative op rs1 rs2 count =>
      exact unharmed ((unharmed_appendJumpChecked _ _).answer _) rfl
  | jal rd label =>
      exact unharmed ((unharmed_appendJumpChecked _ _).answer _) rfl
  | jump label =>
      exact unharmed ((unharmed_appendJumpChecked _ _).answer _) rfl
  | keepLong id =>
      cases fails
  | loadConstant rd value =>
      exact loadConstant_leaves (answer_eq_error_iff.mp fails)
  | call link target =>
      exact call_leaves (answer_eq_error_iff.mp fails)
  | dataLoad op rd slot =>
      exact unharmed ((unharmed_appendChecked _).answer _) rfl
  | labelAddress rd label =>
      exact unharmed ((unharmed_appendChecked _).answer _) rfl
  | relocatedAddress rd target kind addend =>
      exact unharmed ((unharmed_appendChecked _).answer _) rfl
  | reserveData count align =>
      exact unharmed ((unharmed_reserveData count align).answer _) rfl
  | writeData offset data =>
      exact unharmed ((unharmed_writeData offset data).answer _) rfl
  | dataConstant value =>
      exact unharmed ((unharmed_dataConstant value).answer _) rfl
  | relax =>
      exact absurd rfl notRelax

/-- In full code, a jump is refused without a trace, and a call leaves its address in the pool. -/
theorem refused_command_leaves_fullCode :
    let session := (start { maxCodeBytes := 4 }).run [.register .add (.x 10) (.x 11) (.x 12)]
    let call : Command := .call .ra (.absolute 0x123456789abcdef1)
    Command.jump ⟨0⟩ ≠ .relax ∧ call ≠ .relax ∧
      (session.perform (.jump ⟨0⟩)).1 = .error session.codeIsFull ∧
        (session.perform (.jump ⟨0⟩)).2 = session ∧
          (session.perform call).1 = .error session.codeIsFull ∧
            ∃ slot pool,
              session.pool.intern 0x123456789abcdef1 = .ok (slot, pool) ∧
                (session.perform call).2 = { session with pool := pool } := by
  intro session call
  have refusesJump : (session.perform (.jump ⟨0⟩)).1 = .error session.codeIsFull := by
    decide +kernel
  have refusesCall : (session.perform call).1 = .error session.codeIsFull := by
    decide +kernel
  refine ⟨by decide, by decide, refusesJump, ?_, refusesCall, ?_⟩
  · rcases refused_command_leaves session (.jump ⟨0⟩) (by decide) refusesJump with
      ⟨value, slot, pool, strands, -⟩ | ⟨-, same⟩
    · cases strands.constant
    · exact same
  · rcases refused_command_leaves session call (by decide) refusesCall with
      ⟨value, slot, pool, strands, interned, after⟩ | ⟨notStranded, -⟩
    · cases strands.constant
      exact ⟨slot, pool, interned, after⟩
    · have strands : session.Strands call session.codeIsFull 0x123456789abcdef1 :=
        ⟨rfl, by decide +kernel, rfl⟩
      exact absurd strands (notStranded _)

/-- A constant that is too long for the code and finds no room stays in the pool. -/
theorem refused_constant_stays_in_pool :
    let session := start { maxCodeBytes := 4 }
    let outcome := session.perform (.loadConstant (.x 10) 0x123456789abcdef1)
    outcome.1 = .error session.codeIsFull ∧ outcome.2.layout = session.layout ∧
      outcome.2.pool.bytes = #[0xf1, 0xde, 0xbc, 0x9a, 0x78, 0x56, 0x34, 0x12] ∧
        outcome.2.pool.constants = [(0x123456789abcdef1, 0)] ∧
          outcome.2.pool.largestAlign = 8 ∧ outcome.2 ≠ session := by
  decide +kernel

end Session

end Rv64Codegen
