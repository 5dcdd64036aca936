import Rv64Codegen.Proofs.DataPool.Integrity
import Rv64Codegen.Proofs.Session.Refusals

namespace Rv64Codegen.Session

/-!
# What commands ask of the data pool

A command puts at most one call to the data pool, and nothing else changes the
pool.  The pool of a session is therefore what its calls make of an empty one, and
all that holds of pools after any calls holds of the pool of any session.
-/

/-- Whether a computation has been broken off. -/
def isBroken : Except Failure α → Bool
  | .error .broken =>
      true
  | _ =>
      false

/-- Whether a constant is taken from the data pool. -/
def pools (session : Session) (value : UInt64) : Bool :=
  match Constant.plan value.toInt64 session.config.constants session.reachesPool with
  | .ok .pool =>
      true
  | _ =>
      false

/--
The call that a command has for the data pool.  A constant comes to the pool when its
command has passed its own checks, before there is room for it in the code.
-/
def poolRequest? (session : Session) : Command → Option DataPool.Call
  | .reserveData count align =>
      some (.reserve count align)
  | .writeData offset data =>
      some (.write offset data)
  | .dataConstant value =>
      some (.intern value)
  | .loadConstant rd value =>
      if (Request.constantDestination rd).isOk && session.pools value.toUInt64 then
        some (.intern value.toUInt64)
      else
        none
  | .call link (.absolute address) =>
      if (Request.requireFile .jalr "link" link .int).isOk && session.pools address then
        some (.intern address)
      else
        none
  | _ =>
      none

/-- The call that a command puts to the data pool; a command that breaks puts none. -/
def poolCall? (session : Session) (command : Command) : Option DataPool.Call :=
  bif isBroken (session.perform command).1 then
    none
  else
    session.poolRequest? command

/-- The calls that commands put to the data pool, one command after the other. -/
def poolCalls (session : Session) : List Command → List DataPool.Call
  | [] =>
      []
  | command :: rest =>
      (session.poolCall? command).toList ++ (session.perform command).2.poolCalls rest

variable
  {session : Session}

@[simp] theorem isBroken_answer
    (reply : α → Reply)
    (outcome : Except Failure α × Session) :
    isBroken (answer reply outcome).1 = isBroken outcome.1 := by
  rcases outcome with ⟨(cause | _) | _, after⟩
  · rfl
  · rfl
  · rfl

/-- A constant changes the pool only when it is taken from there, and its command does not break. -/
theorem appendConstant_pool
    (session : Session)
    (value : UInt64)
    (inline : Sequence → Operation)
    (pooled : Nat → Operation) :
    (session.appendConstant value inline pooled).2.pool =
      if isBroken (session.appendConstant value inline pooled).1 = false ∧
          session.pools value = true then
        (session.pool.perform (.intern value)).2
      else
        session.pool := by
  unfold appendConstant pools
  cases Constant.plan value.toInt64 session.config.constants session.reachesPool with
  | error failure =>
      simp
  | ok plan =>
      cases plan with
      | inline sequence =>
          simp [append_pool]
      | pool =>
          rw [DataPool.perform_intern]
          have becomes := session.pooled_appendPooled value pooled
          dsimp only
          generalize session.appendPooled value pooled = outcome at becomes ⊢
          cases becomes with
          | refused refuses =>
              simp [refuses, DataPool.settle]
          | appended interns =>
              simp [interns, DataPool.settle, isBroken]
          | full interns =>
              simp [interns, DataPool.settle, isBroken, codeIsFull]
          | broken =>
              simp [isBroken]

/-- The action of a command tells what it has for the pool. -/
theorem poolRequest?_eq
    (session : Session)
    (command : Command) :
    session.poolRequest? command =
      match session.action command with
      | .pool call =>
          some call
      | .constant checked value _ _ =>
          if checked.isOk && session.pools value then some (.intern value) else none
      | _ =>
          none := by
  cases command with
  | call link target =>
      cases target <;> rfl
  | _ =>
      rfl

/-- A call of the pool is answered, be it with a refusal. -/
theorem isBroken_ofRefusal (result : Except EmissionError α) :
    isBroken (Failure.ofRefusal result) = false := by
  cases result <;> rfl

/-- A command changes the pool as its call does. -/
theorem pool_perform
    (session : Session)
    (command : Command) :
    (session.perform command).2.pool = session.pool.run (session.poolCall? command).toList := by
  have nothing {result : Except Failure Reply} :
      session.pool = session.pool.run (bif isBroken result then none else none).toList := by
    rw [Bool.cond_self]
    rfl
  rw [poolCall?, perform_eq_act, poolRequest?_eq]
  cases session.action command with
  | bindLabel label =>
      exact (bindLabel_pool _ _).trans nothing
  | operation checked =>
      exact (appendChecked_pool _ _).trans nothing
  | jump checked target =>
      exact (appendJumpChecked_pool _ _ _).trans nothing
  | constant checked value inline pooled =>
      cases checked with
      | error cause =>
          exact nothing
      | ok passed =>
          refine (appendConstant_pool session value inline pooled).trans ?_
          show _ = session.pool.run
            (bif isBroken (answer (fun _ => Reply.done)
                (session.appendConstant value inline pooled)).1 then
              none
            else
              if session.pools value then some (.intern value) else none).toList
          rw [isBroken_answer]
          cases isBroken (session.appendConstant value inline pooled).1 with
          | true =>
              rfl
          | false =>
              cases session.pools value <;> rfl
  | pool call =>
      show _ = session.pool.run
        (bif isBroken (Failure.ofRefusal ((session.pool.perform call).1.map poolReply)) then
          none
        else
          some call).toList
      rw [isBroken_ofRefusal]
      rfl
  | _ =>
      exact nothing

/-- What holds of a pool holds after a command, if the call of the command keeps it. -/
theorem of_pool_perform
    (property : DataPool → Prop)
    {command : Command}
    (holds : property session.pool)
    (kept :
      ∀ call,
        session.poolCall? command = some call → property (session.pool.perform call).2) :
    property (session.perform command).2.pool := by
  rw [pool_perform]
  cases isCall : session.poolCall? command with
  | none =>
      exact holds
  | some call =>
      exact kept call isCall

/-- A command that comes down to a call of the pool puts this call. -/
theorem poolCall?_of_action
    {command : Command}
    {call : DataPool.Call}
    (isAction : session.action command = .pool call) :
    session.poolCall? command = some call := by
  rw [poolCall?, perform_eq_act, poolRequest?_eq, isAction]
  show (bif isBroken (Failure.ofRefusal ((session.pool.perform call).1.map poolReply)) then
    none
  else
    some call) = some call
  rw [isBroken_ofRefusal]
  rfl

/-- Only a command that writes data puts a write to the pool. -/
theorem eq_writeData_of_poolCall?
    {command : Command}
    {offset : Nat}
    {data : Array UInt8}
    (isCall : session.poolCall? command = some (.write offset data)) :
    command = .writeData offset data := by
  unfold poolCall? at isCall
  cases broken : isBroken (session.perform command).1 with
  | true =>
      rw [broken] at isCall
      cases isCall
  | false =>
      rw [broken, cond_false] at isCall
      unfold poolRequest? at isCall
      split at isCall
      · cases isCall
      · cases isCall
        rfl
      · cases isCall
      · split at isCall <;> cases isCall
      · split at isCall <;> cases isCall
      · cases isCall

theorem pool_run
    (session : Session)
    (commands : List Command) :
    (session.run commands).pool = session.pool.run (session.poolCalls commands) := by
  induction commands generalizing session with
  | nil =>
      rfl
  | cons command rest inductionHypothesis =>
      rw [poolCalls, DataPool.run_append, ← pool_perform]
      exact inductionHypothesis (session.perform command).2

theorem poolCalls_append
    (session : Session)
    (front back : List Command) :
    session.poolCalls (front ++ back) =
      session.poolCalls front ++ (session.run front).poolCalls back := by
  induction front generalizing session with
  | nil =>
      rfl
  | cons command rest inductionHypothesis =>
      rw [List.cons_append, poolCalls, poolCalls, inductionHypothesis, List.append_assoc]
      rfl

/-- Whether some reservation among commands wraps. -/
def wrapsPool (session : Session) (commands : List Command) : Bool :=
  session.pool.wraps (session.poolCalls commands)

theorem wrapsPool_append
    (session : Session)
    (front back : List Command) :
    session.wrapsPool (front ++ back) =
      (session.wrapsPool front || (session.run front).wrapsPool back) := by
  rw [wrapsPool, poolCalls_append, DataPool.wraps_append, ← pool_run]
  rfl

theorem wrapsPool_cons_eq_false_iff
    {command : Command}
    {rest : List Command} :
    session.wrapsPool (command :: rest) = false ↔
      (∀ call, session.poolCall? command = some call → call.wraps session.pool = false) ∧
        (session.perform command).2.wrapsPool rest = false := by
  rw [← List.singleton_append, wrapsPool_append, Bool.or_eq_false_iff, wrapsPool, poolCalls]
  refine and_congr ?_ Iff.rfl
  cases session.poolCall? command with
  | none =>
      exact iff_of_true rfl nofun
  | some call =>
      show (call.wraps session.pool || false) = false ↔ _
      simp

/-- A number stays in its slot, unless a command writes over it or a reservation wraps. -/
theorem holdsAt_perform
    {command : Command}
    (sound : session.pool.Sound)
    (unwrapped :
      ∀ call, session.poolCall? command = some call → call.wraps session.pool = false)
    {slot : Nat}
    {value : UInt64}
    (clear :
      ∀ offset data,
        command = .writeData offset data →
          (session.pool.write offset data).isOk = true →
            DataPool.keepsClear slot offset data.size = true)
    (holds : session.pool.HoldsAt slot value) :
    (session.perform command).2.pool.HoldsAt slot value := by
  refine of_pool_perform (·.HoldsAt slot value) holds ?_
  intro call isCall
  refine (session.pool.step_perform call).holdsAt (unwrapped call isCall) sound ?_ holds
  rintro offset data rfl
  exact clear offset data (eq_writeData_of_poolCall? isCall)

theorem intact_perform
    {command : Command}
    (intact : session.pool.Intact)
    (unwrapped :
      ∀ call, session.poolCall? command = some call → call.wraps session.pool = false) :
    (session.perform command).2.pool.Intact :=
  of_pool_perform (·.Intact) intact fun call isCall => intact.perform (unwrapped call isCall)

end Rv64Codegen.Session
