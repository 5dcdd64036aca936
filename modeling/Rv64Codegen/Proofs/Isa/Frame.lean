import Rv64Codegen.Isa.InPlace
import Rv64Codegen.Proofs.Isa.Decoding
import Rv64Codegen.Proofs.Isa.Meaning
import Rv64Codegen.Proofs.Outcome

namespace Rv64Codegen

/-!
# What calls leave of a machine

An instruction in place writes a register before it moves the program counter, and
it may trap.  All its traps come before its first write, so it does in place what the
machine does as a whole: it changes the destination and the program counter, or
nothing.  Steps, runs and sequences of calls inherit this.
-/

namespace Machine

@[simp] theorem write_pc
    (machine : Machine)
    (number : Nat)
    (value : UInt64) :
    (machine.write number value).pc = machine.pc := by
  unfold write
  split <;> rfl

end Machine

/-!
## In place and as a whole
-/

namespace InPlace

/-- What a caller holds after a change that is made as a whole or not at all. -/
def settled (machine : Machine) : Except Trap Machine → Except Trap Unit × Machine
  | .ok after =>
      (.ok (), after)
  | .error trap =>
      (.error trap, machine)

/-- A success means that the change was made. -/
theorem settled_eq_ok_iff
    {machine after : Machine}
    {change : Except Trap Machine} :
    settled machine change = (.ok (), after) ↔ change = .ok after := by
  cases change <;> simp [settled]

/-- A trap means that nothing was changed. -/
theorem settled_eq_error_iff
    {machine after : Machine}
    {change : Except Trap Machine}
    {trap : Trap} :
    settled machine change = (.error trap, after) ↔
      change = .error trap ∧ after = machine := by
  cases change <;> simp [settled, eq_comm]

/-- A computation goes on from the machine that its first part leaves. -/
theorem on_bind
    (first : InPlace α)
    (next : α → InPlace β)
    (machine : Machine) :
    (first >>= next).on machine =
      match first.on machine with
      | (.ok value, middle) => (next value).on middle
      | (.error trap, middle) => (.error trap, middle) := by
  simp only [on, ExceptT.run_bind, StateT.run_bind]
  rcases first.run.run machine with ⟨_ | _, middle⟩ <;> rfl

/-- A computation that looks at the machine first sees the machine that it is on. -/
theorem on_get_bind
    (next : Machine → InPlace α)
    (machine : Machine) :
    (get >>= next).on machine = (next machine).on machine :=
  rfl

/-- A result from elsewhere leaves the machine alone. -/
theorem on_ofExcept
    (result : Except Trap α)
    (machine : Machine) :
    (ofExcept result : InPlace α).on machine = (result, machine) := by
  cases result <;> rfl

/-- A computation with another answer leaves the same machine. -/
theorem on_bind_pure
    (computation : InPlace α)
    (answer : α → β)
    (machine : Machine) :
    (computation >>= fun value => pure (answer value)).on machine =
      ((computation.on machine).1.map answer, (computation.on machine).2) := by
  rw [on_bind]
  rcases computation.on machine with ⟨_ | _, after⟩ <;> rfl

/--
Ahead of the move of the program counter, a computation follows an effect if the
move completes it to the whole effect, and a trap finds the machine unchanged.
-/
def Follows
    (computation : InPlace UInt64)
    (machine : Machine)
    (rd : Nat)
    (effect : Except Trap Machine.Effect) :
    Prop :=
  (computation >>= setPc).on machine =
    settled machine (effect.map (machine.commit rd))

/-- Without a write, only the program counter moves. -/
theorem follows_pure
    (machine : Machine)
    (rd : Nat)
    (next : UInt64) :
    Follows (pure next) machine rd (.ok ⟨none, next⟩) :=
  rfl

/-- The write of a result comes first, then the program counter moves. -/
theorem follows_setRegister
    (machine : Machine)
    (rd : Nat)
    (value next : UInt64) :
    Follows (do setRegister rd value; pure next) machine rd (.ok ⟨some value, next⟩) :=
  rfl

/-- The write of a link does not move the program counter that the target is relative to. -/
theorem follows_link
    (machine : Machine)
    (rd : Nat)
    (link offset : UInt64) :
    Follows (do setRegister rd link; pure ((← get).pc + offset)) machine rd
      (.ok ⟨some link, machine.pc + offset⟩) := by
  show (Except.ok (),
    { machine.write rd link with pc := (machine.write rd link).pc + offset }) = _
  rw [Machine.write_pc]
  rfl

/-- A word that is no instruction has changed nothing so far. -/
theorem follows_throw
    (machine : Machine)
    (rd : Nat)
    (trap : Trap) :
    Follows (throw trap) machine rd (.error trap) :=
  rfl

/-- What depends on a result that may be missing follows if it does from each result. -/
theorem follows_bind
    {machine : Machine}
    {rd : Nat}
    {rest : α → InPlace UInt64}
    {effect : α → Except Trap Machine.Effect}
    (result : Except Trap α)
    (follows : ∀ value, Follows (rest value) machine rd (effect value)) :
    Follows (do rest (← ofExcept result)) machine rd (do effect (← result)) := by
  cases result with
  | error trap =>
      rfl
  | ok value =>
      exact follows value

/-- The part of an instruction ahead of the move follows the effect of the word. -/
theorem follows_operate
    (word : Word)
    (machine : Machine) :
    Follows (operate word) machine word.rd (machine.effect word) := by
  -- Both read their operands from the same machine, and then split by major opcode.
  unfold Follows operate Machine.effect
  rw [bind_assoc, on_get_bind]
  show Follows _ machine word.rd _
  cases Opcode.Major.ofCode? word.opcode with
  | none =>
      exact follows_throw ..
  | some major =>
      cases major with
      | lui | auipc =>
          exact follows_setRegister ..
      | jal =>
          exact follows_link ..
      | jalr =>
          dsimp only
          split
          · exact follows_setRegister ..
          · exact follows_throw ..
      | branch =>
          apply follows_bind
          intro taken
          cases taken <;> exact follows_pure ..
      | load | opImm | opImm32 | op | op32 =>
          apply follows_bind
          intro value
          exact follows_setRegister ..
      | _ =>
          exact follows_throw ..

/-- Executing a word in place executes it as a whole, or changes nothing. -/
theorem on_execute
    (word : Word)
    (machine : Machine) :
    (execute word).on machine = settled machine (machine.execute word) :=
  follows_operate word machine

/-- A step in place is a step as a whole, or changes nothing. -/
theorem on_step (machine : Machine) :
    step.on machine = settled machine machine.step := by
  rw [step, on_get_bind, on_bind, on_ofExcept, Machine.step]
  cases machine.fetch with
  | error trap =>
      rfl
  | ok word =>
      exact on_execute word machine

/-- A run in place leaves the machine where the run of the machine ends. -/
theorem on_runFrom
    (done : Nat)
    (stop : UInt64)
    (limit : Nat)
    (machine : Machine) :
    (runFrom done stop limit).on machine = Machine.runFrom done stop limit machine := by
  induction limit generalizing done machine with
  | zero =>
      rfl
  | succ limit inductionHypothesis =>
      rw [runFrom, on_get_bind, Machine.runFrom]
      split
      · rfl
      · rw [on_bind, on_step]
        cases machine.step with
        | error trap =>
            rfl
        | ok next =>
            exact inductionHypothesis (done + 1) next

end InPlace

namespace Machine

/-!
## One instruction
-/

/--
Machines that differ in the program counter and in one register at most, which is
not register zero.
-/
structure Framed
    (before after : Machine)
    (rd : Nat) :
    Prop where
  image : after.image = before.image
  others : ∀ number, number < 32 → number ≠ rd → after.read number = before.read number
  zero : after.read 0 = before.read 0

/-- An effect stays within its frame. -/
theorem framed_commit
    (machine : Machine)
    {rd : Nat}
    (small : rd < 32)
    (effect : Effect) :
    machine.Framed (machine.commit rd effect) rd := by
  obtain ⟨value, next⟩ := effect
  cases value with
  | none =>
      exact ⟨rfl, fun _ _ _ => rfl, rfl⟩
  | some value =>
      refine ⟨commit_image .., ?_, ?_⟩
      · intro number numberSmall other
        rw [read_commit_some machine value next small numberSmall,
          if_neg fun written => other written.1]
      · rw [read_commit_some machine value next small (by decide),
          if_neg fun written => written.2 written.1.symm]

theorem framed_of_execute
    {machine after : Machine}
    {word : Word}
    (executed : machine.execute word = .ok after) :
    machine.Framed after word.rd := by
  obtain ⟨effect, -, rfl⟩ := map_eq_ok_iff.mp executed
  exact machine.framed_commit word.fields_small.2.1 effect

/-- A step stays within the frame of the word that it fetches. -/
theorem framed_of_step
    {machine after : Machine}
    (stepped : machine.step = .ok after) :
    ∃ word, machine.fetch = .ok word ∧ machine.Framed after word.rd := by
  obtain ⟨word, fetched, executed⟩ := bind_eq_ok_iff.mp stepped
  exact ⟨word, fetched, framed_of_execute executed⟩

/-!
## Runs
-/

/-- Single steps in place, as many as counted, none of them from the address `stop`. -/
inductive StepsAwayFrom (stop : UInt64) : Nat → Machine → Machine → Prop where
  | none (machine : Machine) :
      StepsAwayFrom stop 0 machine machine
  | more
      {count : Nat}
      {machine next after : Machine}
      (away : machine.pc ≠ stop)
      (stepped : InPlace.step.on machine = (.ok (), next))
      (rest : StepsAwayFrom stop count next after) :
      StepsAwayFrom stop (count + 1) machine after

/-- Steps keep register zero, whatever it holds. -/
theorem StepsAwayFrom.read_zero
    {stop : UInt64}
    {count : Nat}
    {machine after : Machine}
    (steps : StepsAwayFrom stop count machine after) :
    after.read 0 = machine.read 0 := by
  induction steps with
  | none machine =>
      rfl
  | more away stepped rest inductionHypothesis =>
      rw [InPlace.on_step, InPlace.settled_eq_ok_iff] at stepped
      obtain ⟨word, -, framed⟩ := framed_of_step stepped
      exact inductionHypothesis.trans framed.zero

/--
How a run ends that counts from `done` on.  It has made its steps and is at the
address or out of instructions, or the step after those that it has made traps.
-/
inductive RunEnds
    (done : Nat)
    (stop : UInt64)
    (limit : Nat)
    (machine : Machine) :
    Except Trap Nat × Machine → Prop where
  | finished
      {count total : Nat}
      {after : Machine}
      (steps : StepsAwayFrom stop count machine after)
      (counted : total = done + count)
      (within : count ≤ limit)
      (ended : after.pc = stop ∨ count = limit) :
      RunEnds done stop limit machine (.ok total, after)
  | trapped
      {count : Nat}
      {trap : Trap}
      {after : Machine}
      (steps : StepsAwayFrom stop count machine after)
      (within : count < limit)
      (away : after.pc ≠ stop)
      (traps : InPlace.step.on after = (.error trap, after)) :
      RunEnds done stop limit machine (.error trap, after)

/-- A run that goes on behind a step ends as one that began before it. -/
theorem RunEnds.of_step
    {done : Nat}
    {stop : UInt64}
    {limit : Nat}
    {machine next : Machine}
    {outcome : Except Trap Nat × Machine}
    (away : machine.pc ≠ stop)
    (stepped : InPlace.step.on machine = (.ok (), next))
    (ends : RunEnds (done + 1) stop limit next outcome) :
    RunEnds done stop (limit + 1) machine outcome := by
  cases ends with
  | finished steps counted within ended =>
      exact .finished (.more away stepped steps) (by omega) (by omega)
        (ended.imp_right (congrArg (· + 1)))
  | trapped steps within awayAfter traps =>
      exact .trapped (.more away stepped steps) (by omega) awayAfter traps

theorem runEnds_runFrom
    (done : Nat)
    (stop : UInt64)
    (limit : Nat)
    (machine : Machine) :
    RunEnds done stop limit machine (runFrom done stop limit machine) := by
  induction limit generalizing done machine with
  | zero =>
      exact .finished (.none machine) rfl (Nat.le_refl 0) (Or.inr rfl)
  | succ limit inductionHypothesis =>
      rw [runFrom]
      split
      · rename_i atStop
        exact .finished (.none machine) rfl (Nat.zero_le _) (Or.inl atStop)
      · rename_i away
        have here := InPlace.on_step machine
        cases stepped : machine.step with
        | error trap =>
            rw [stepped] at here
            exact .trapped (.none machine) (Nat.succ_pos limit) away here
        | ok next =>
            rw [stepped] at here
            exact .of_step away here (inductionHypothesis (done + 1) next)

/-- Every run in place ends in one of these ways. -/
theorem runEnds_runUntil
    (stop : UInt64)
    (limit : Nat)
    (machine : Machine) :
    RunEnds 0 stop limit machine ((InPlace.runUntil stop limit).on machine) := by
  rw [InPlace.runUntil, InPlace.on_runFrom]
  exact runEnds_runFrom 0 stop limit machine

/-- Whatever a run answers, it keeps register zero. -/
theorem RunEnds.read_zero
    {done : Nat}
    {stop : UInt64}
    {limit : Nat}
    {machine : Machine}
    {outcome : Except Trap Nat × Machine}
    (ends : RunEnds done stop limit machine outcome) :
    outcome.2.read 0 = machine.read 0 := by
  cases ends with
  | finished steps counted within ended =>
      exact steps.read_zero
  | trapped steps within away traps =>
      exact steps.read_zero

/-!
## Sequences of calls
-/

/-- The machine before the first call and after each of them, also of those that trap. -/
def states (machine : Machine) : List Call → List Machine
  | [] =>
      [machine]
  | call :: rest =>
      machine :: (machine.perform call).2.states rest

/-- A change that is made as a whole or not at all keeps register zero if the change does. -/
theorem read_zero_settled
    {machine : Machine}
    {change : Except Trap Machine}
    (keeps : ∀ after, change = .ok after → after.read 0 = machine.read 0) :
    (InPlace.settled machine change).2.read 0 = machine.read 0 := by
  cases change with
  | error trap =>
      rfl
  | ok after =>
      exact keeps after rfl

/-- A call keeps register zero, whether it succeeds or traps. -/
theorem read_zero_perform
    (machine : Machine)
    (call : Call) :
    (machine.perform call).2.read 0 = machine.read 0 := by
  cases call with
  | step =>
      rw [perform, Call.computation, InPlace.on_bind_pure, InPlace.on_step]
      apply read_zero_settled
      intro after stepped
      obtain ⟨word, -, framed⟩ := framed_of_step stepped
      exact framed.zero
  | execute word =>
      rw [perform, Call.computation, InPlace.on_bind_pure, InPlace.on_execute]
      apply read_zero_settled
      intro after executed
      exact (framed_of_execute executed).zero
  | runUntil stop limit =>
      rw [perform, Call.computation, InPlace.on_bind_pure]
      exact (runEnds_runUntil stop limit machine).read_zero

/-- Calls keep register zero throughout. -/
theorem read_zero_of_mem_states
    {machine state : Machine}
    {calls : List Call}
    (visited : state ∈ machine.states calls) :
    state.read 0 = machine.read 0 := by
  induction calls generalizing machine with
  | nil =>
      rw [List.mem_singleton.mp visited]
  | cons call rest inductionHypothesis =>
      rcases List.mem_cons.mp visited with rfl | later
      · rfl
      · exact (inductionHypothesis later).trans (read_zero_perform machine call)

/--
Traps are atomic and instructions stay within their frame.  A word or a step that traps
leaves registers, program counter and image as they are; one that does not leaves the
image, register zero and all registers but the decoded destination.  Register zero
therefore stays zero through any sequence of calls, also between the instructions of a
run.  A run that answers a count has made that many single steps within its limit, each
away from the address to stop at, and ended there or at its limit; a run that traps has
made fewer, and the next step traps where it ended.
-/
theorem calls_framed (machine : Machine) :
    (∀ (word : Word) (trap : Trap) (after : Machine),
        (InPlace.execute word).on machine = (.error trap, after) → after = machine) ∧
      (∀ (trap : Trap) (after : Machine),
        InPlace.step.on machine = (.error trap, after) → after = machine) ∧
      (∀ (word : Word) (after : Machine),
        (InPlace.execute word).on machine = (.ok (), after) →
          machine.Framed after word.rd) ∧
      (∀ after : Machine,
        InPlace.step.on machine = (.ok (), after) →
          ∃ word, machine.fetch = .ok word ∧ machine.Framed after word.rd) ∧
      (machine.read 0 = 0 →
        ∀ (calls : List Call), ∀ state ∈ machine.states calls,
          state.read 0 = 0 ∧
            ∀ (stop : UInt64) (count : Nat) (middle : Machine),
              StepsAwayFrom stop count state middle → middle.read 0 = 0) ∧
      (∀ (stop : UInt64) (limit count : Nat) (after : Machine),
        (InPlace.runUntil stop limit).on machine = (.ok count, after) →
          StepsAwayFrom stop count machine after ∧ count ≤ limit ∧
            (after.pc = stop ∨ count = limit)) ∧
      ∀ (stop : UInt64) (limit : Nat) (trap : Trap) (after : Machine),
        (InPlace.runUntil stop limit).on machine = (.error trap, after) →
          ∃ count, count < limit ∧ StepsAwayFrom stop count machine after ∧
            after.pc ≠ stop ∧ InPlace.step.on after = (.error trap, after) := by
  refine ⟨?_, ?_, ?_, ?_, ?_, ?_, ?_⟩
  · intro word trap after trapped
    rw [InPlace.on_execute] at trapped
    exact (InPlace.settled_eq_error_iff.mp trapped).2
  · intro trap after trapped
    rw [InPlace.on_step] at trapped
    exact (InPlace.settled_eq_error_iff.mp trapped).2
  · intro word after executed
    rw [InPlace.on_execute] at executed
    exact framed_of_execute (InPlace.settled_eq_ok_iff.mp executed)
  · intro after stepped
    rw [InPlace.on_step] at stepped
    exact framed_of_step (InPlace.settled_eq_ok_iff.mp stepped)
  · intro zero calls state visited
    have stateZero := (read_zero_of_mem_states visited).trans zero
    exact ⟨stateZero, fun _ _ _ steps => steps.read_zero.trans stateZero⟩
  · intro stop limit count after ran
    have ends := runEnds_runUntil stop limit machine
    rw [ran] at ends
    cases ends with
    | finished steps counted within ended =>
        rw [Nat.zero_add] at counted
        subst counted
        exact ⟨steps, within, ended⟩
  · intro stop limit trap after ran
    have ends := runEnds_runUntil stop limit machine
    rw [ran] at ends
    cases ends with
    | trapped steps within away traps =>
        exact ⟨_, within, steps, away, traps⟩

/-- A machine whose code writes to register zero, links, and loads from behind its end. -/
def faultBehindLink : Machine :=
  Machine.start
    #[0x13, 0x00, 0x50, 0x00, 0xef, 0x00, 0x80, 0x00, 0x00, 0x00, 0x00, 0x00,
      0x83, 0xb0, 0x80, 0x00]

/-- The same machine in front of the load. -/
def faultAhead : Machine :=
  { faultBehindLink with x := faultBehindLink.x.set 1 8, pc := 12 }

/--
A run comes to the load and ends there, or goes on and traps.  The link stays where it
is, the step that faults changes nothing, and another link goes on from there.
-/
theorem calls_framed_faultBehindLink :
    (InPlace.runUntil 12 5).on faultBehindLink = (.ok 2, faultAhead) ∧
      StepsAwayFrom 12 2 faultBehindLink faultAhead ∧ faultAhead.pc = 12 ∧
      (InPlace.runUntil 100 5).on faultBehindLink = (.error (.fault 16), faultAhead) ∧
      (∃ count, count < 5 ∧ StepsAwayFrom 100 count faultBehindLink faultAhead ∧
        faultAhead.pc ≠ 100 ∧ InPlace.step.on faultAhead = (.error (.fault 16), faultAhead)) ∧
      (∀ after, InPlace.step.on faultAhead = (.error (.fault 16), after) → after = faultAhead) ∧
      (∃ after, (InPlace.execute 0x008000ef).on faultAhead = (.ok (), after) ∧
        after.read 1 = 16 ∧ faultAhead.Framed after 1) ∧
      ∀ state ∈ faultBehindLink.states [.runUntil 100 5, .step, .execute 0x00500013],
        state.read 0 = 0 := by
  have stops : (InPlace.runUntil 12 5).on faultBehindLink = (.ok 2, faultAhead) := rfl
  have faults :
      (InPlace.runUntil 100 5).on faultBehindLink = (.error (.fault 16), faultAhead) := rfl
  obtain ⟨-, -, -, -, zeroes, counts, traps⟩ := calls_framed faultBehindLink
  obtain ⟨-, untouched, framed, -⟩ := calls_framed faultAhead
  refine ⟨stops, (counts 12 5 2 faultAhead stops).1, rfl, faults,
    traps 100 5 (.fault 16) faultAhead faults, ?_, ?_, ?_⟩
  · exact untouched (.fault 16)
  · exact ⟨_, rfl, rfl, framed 0x008000ef _ rfl⟩
  · intro state visited
    exact (zeroes rfl _ state visited).1

end Machine

end Rv64Codegen
