import Rv64Codegen.Proofs.Output.Values
import Rv64Codegen.Proofs.Simulation.Tracking

namespace Rv64Codegen

/-!
# Finished code runs as its source

The machine follows the source machine: for every statement it executes the words
of the statement's descriptor and stands at the descriptor of the next statement,
with the same registers except for the scratch register of far jumps.
-/

/-!
## Results of instructions
-/

namespace Instruction

/-- A result depends on the registers that the instruction names, and on no others. -/
theorem result?_congr
    {instruction : Instruction}
    {first second : Registers}
    (same :
      ∀ number ∈ (Statement.plain instruction).registers, first number = second number) :
    instruction.result? first = instruction.result? second := by
  cases instruction with
  | r op rd rs1 rs2 =>
      rw [result?, result?, same rs1.index (by simp [Statement.registers]),
        same rs2.index (by simp [Statement.registers])]
  | i op rd rs1 imm =>
      rw [result?, result?, same rs1.index (by simp [Statement.registers])]
  | u op rd imm =>
      cases op <;> rfl
  | s op rs2 rs1 imm =>
      rfl
  | b op rs1 rs2 offset =>
      rfl
  | j op rd offset =>
      rfl

/-- The registers of an instruction with a result and a word have numbers below 32. -/
theorem registers_lt
    {instruction : Instruction}
    {registers : Registers}
    {result : Nat × UInt64}
    (encodable : instruction.Encodable)
    (isResult : instruction.result? registers = some result) :
    ∀ number ∈ (Statement.plain instruction).registers, number < 32 := by
  intro number member
  cases instruction with
  | r op rd rs1 rs2 =>
      obtain ⟨bits, meaning, -⟩ := Option.map_eq_some_iff.mp isResult
      have twoSources : op.fixedFields.fixedRs2 = none := by
        cases op <;> simp_all [Opcode.registerMeaning?, Opcode.fixedFields,
          Opcode.FixedFields.binary]
      obtain ⟨-, rdSmall, rs1Small, rs2Small⟩ := encodable
      rw [twoSources] at rs2Small
      simp only [Statement.registers, List.mem_cons, List.not_mem_nil, or_false] at member
      rcases member with rfl | rfl | rfl
      · exact rdSmall
      · exact rs1Small
      · exact rs2Small
  | i op rd rs1 imm =>
      obtain ⟨-, -, rdSmall, rs1Small⟩ := encodable
      simp only [Statement.registers, List.mem_cons, List.not_mem_nil, or_false] at member
      rcases member with rfl | rfl
      · exact rdSmall
      · exact rs1Small
  | u op rd imm =>
      obtain rfl := List.mem_singleton.mp member
      exact encodable.2.2
  | s op rs2 rs1 imm =>
      cases isResult
  | b op rs1 rs2 offset =>
      cases isResult
  | j op rd offset =>
      cases isResult

/-- The word of an instruction with a result writes it. -/
theorem execute_of_result?
    {instruction : Instruction}
    {machine : Machine}
    {word : Word}
    {rd : Nat}
    {value : UInt64}
    (encoded : instruction.encode = .ok word)
    (result : instruction.result? machine.read = some (rd, value)) :
    rd < 32 ∧
      machine.execute word = .ok (machine.commit rd ⟨some value, machine.pc + 4⟩) := by
  have encodable := (encode_eq_ok_iff.mp encoded).1
  cases instruction with
  | r op destination rs1 rs2 =>
      obtain ⟨bits, meaning, isResult⟩ := Option.map_eq_some_iff.mp result
      cases isResult
      exact ⟨encodable.2.1, Machine.execute_register encoded meaning⟩
  | i op destination rs1 imm =>
      obtain ⟨bits, meaning, isResult⟩ := Option.map_eq_some_iff.mp result
      cases isResult
      exact ⟨encodable.2.2.1, Machine.execute_immediate encoded meaning⟩
  | u op destination imm =>
      cases op <;> cases result
      exact ⟨encodable.2.2, Machine.execute_lui encoded⟩
  | s op rs2 rs1 imm =>
      cases result
  | b op rs1 rs2 offset =>
      cases result
  | j op destination offset =>
      cases result

end Instruction

/-!
## One statement
-/

namespace Source

open Layout Machine

/-- The machine stands where the source machine does, with the same registers. -/
structure Matches
    (layout : Layout)
    (scratch : Register)
    (emitted : EmittedCode)
    (state : State)
    (machine : Machine) :
    Prop where
  inside : state.next ≤ layout.descriptors.size
  image : machine.image = emitted.image
  pc : machine.pc = UInt64.ofNat (startOf layout.descriptors state.next)
  zero : state.registers 0 = 0
  registers :
    ∀ number, number < 32 → number ≠ scratch.index →
      machine.read number = state.registers number

/-- The machine has moved on by a number of bytes and written a register. -/
structure Writes
    (before after : Machine)
    (rd : Nat)
    (value : UInt64)
    (bytes : Nat) :
    Prop where
  registers :
    ∀ number, number < 32 →
      after.read number = if number = rd ∧ rd ≠ 0 then value else before.read number
  pc : after.pc = before.pc + UInt64.ofNat bytes
  image : after.image = before.image

theorem writes_commit
    (machine : Machine)
    {rd : Nat}
    (small : rd < 32)
    (value : UInt64) :
    Writes machine (machine.commit rd ⟨some value, machine.pc + 4⟩) rd value 4 where
  registers := fun _ numberSmall => read_commit_some machine value _ small numberSmall
  pc := rfl
  image := commit_image ..

theorem writes_of_delivers
    {before after : Machine}
    {rd : Nat}
    {value : UInt64}
    {bytes : Nat}
    (notZero : rd ≠ 0)
    (delivers : before.Delivers after rd value bytes) :
    Writes before after rd value bytes where
  registers := by
    intro number small
    by_cases isDestination : number = rd
    · rw [if_pos ⟨isDestination, notZero⟩, isDestination]
      exact delivers.value
    · rw [if_neg fun both => isDestination both.1]
      exact delivers.others number small isDestination
  pc := delivers.pc
  image := delivers.image

theorem Registers.write_zero
    {registers : Registers}
    (zero : registers 0 = 0)
    (rd : Nat)
    (value : UInt64) :
    registers.write rd value 0 = 0 := by
  rw [Registers.write, if_neg]
  · exact zero
  · rintro ⟨isZero, notZero⟩
    exact notZero isZero.symm

variable
  {layout : Layout}
  {pool : DataPool}
  {scratch : Register}
  {emitted : EmittedCode}
  {state : State}
  {machine : Machine}

/-- After a statement that writes a register both stand at the next statement. -/
theorem Matches.advance
    (matching : Matches layout scratch emitted state machine)
    {descriptor : Descriptor}
    (found : layout.descriptors[state.next]? = some descriptor)
    {after : Machine}
    {rd : Nat}
    {value : UInt64}
    (writes : Writes machine after rd value descriptor.size) :
    Matches layout scratch emitted ⟨state.registers.write rd value, state.next + 1⟩ after where
  inside := (Array.getElem?_eq_some_iff.mp found).1
  image := writes.image.trans matching.image
  pc := by
    rw [writes.pc, matching.pc, startOf_succ found, UInt64.ofNat_add]
  zero := Registers.write_zero matching.zero rd value
  registers := by
    intro number small notScratch
    rw [writes.registers number small, matching.registers number small notScratch]
    rfl

/-- Registers other than the scratch register are read as the source has them. -/
theorem Matches.read_eq
    (matching : Matches layout scratch emitted state machine)
    {statement : Statement}
    (unnamed : scratch.index ∉ statement.registers)
    (small : ∀ number ∈ statement.registers, number < 32)
    {number : Nat}
    (member : number ∈ statement.registers) :
    machine.read number = state.registers number := by
  refine matching.registers number (small number member) ?_
  rintro rfl
  exact unnamed member

/-- Everything that the words of a descriptor need in order to be executed. -/
theorem Matches.stands
    (matching : Matches layout scratch emitted state machine)
    (finished : layout.Finished pool scratch emitted)
    (bounded : emitted.code.size < UInt64.size)
    {descriptor : Descriptor}
    (found : layout.descriptors[state.next]? = some descriptor) :
    ∃ instructions words,
      (Placement.of layout emitted.dataOffset scratch).expand
          (startOf layout.descriptors state.next) descriptor.operation = .ok instructions ∧
        Instruction.encodeAll instructions = .ok words ∧
          4 * words.length = descriptor.size ∧
            WordsAt machine.image machine.pc.toNat words := by
  obtain ⟨instructions, words, expanded, encoded, size, inside, stand⟩ :=
    finished.wordsAt found
  have small : startOf layout.descriptors state.next < UInt64.size := by omega
  have isPc : machine.pc.toNat = startOf layout.descriptors state.next := by
    rw [matching.pc, UInt64.toNat_ofNat_of_lt' small]
  refine ⟨instructions, words, expanded, encoded, size, ?_⟩
  rw [isPc, matching.image]
  exact stand

/-- An instruction with a result. -/
theorem Matches.plain
    (matching : Matches layout scratch emitted state machine)
    (finished : layout.Finished pool scratch emitted)
    (bounded : emitted.code.size < UInt64.size)
    {instruction : Instruction}
    {size : Nat}
    (found : layout.descriptors[state.next]? = some ⟨.instruction instruction, size⟩)
    (unnamed : scratch.index ∉ (Statement.plain instruction).registers)
    {result : Nat × UInt64}
    (isResult : instruction.result? state.registers = some result) :
    ∃ count after,
      stepMany count machine = .ok after ∧
        Matches layout scratch emitted
          ⟨state.registers.write result.1 result.2, state.next + 1⟩ after := by
  obtain ⟨_, _, expanded, encoded, isSize, stand⟩ :=
    matching.stands finished bounded found
  cases expanded
  obtain ⟨word, _, encodedHere, encodedNone, rfl⟩ :=
    Instruction.encodeAll_cons_eq_ok_iff.mp encoded
  cases encodedNone
  have small :=
    Instruction.registers_lt (Instruction.encode_eq_ok_iff.mp encodedHere).1 isResult
  have sameResult : instruction.result? machine.read = some result := by
    rw [← isResult]
    exact Instruction.result?_congr fun number member =>
      matching.read_eq unnamed small member
  obtain ⟨rdSmall, executed⟩ := Instruction.execute_of_result? encodedHere sameResult
  refine ⟨1, _, stepMany_succ stand executed 0, ?_⟩
  refine matching.advance found ?_
  obtain rfl : size = 4 := isSize.symm
  exact writes_commit machine rdSmall result.2

/-- A constant that is built in place. -/
theorem Matches.inlineConstant
    (matching : Matches layout scratch emitted state machine)
    (finished : layout.Finished pool scratch emitted)
    (bounded : emitted.code.size < UInt64.size)
    (usable : scratch.index ≠ 0)
    {rd : Register}
    {value : Int64}
    {sequence : Sequence}
    {minSpan size : Nat}
    (found : layout.descriptors[state.next]? = some ⟨.loadConstant rd sequence, size⟩)
    (notZero : rd.index ≠ 0)
    (synthesized : Constant.synthesize value minSpan = some sequence) :
    ∃ count after,
      stepMany count machine = .ok after ∧
        Matches layout scratch emitted
          ⟨state.registers.write rd.index value.toUInt64, state.next + 1⟩ after := by
  have zero : machine.read 0 = 0 := by
    rw [matching.registers 0 (by decide) usable.symm]
    exact matching.zero
  have image := matching.image.trans (EmittedCode.image_eq finished.before)
  obtain ⟨after, steps, delivers⟩ :=
    finished.delivers_constant bounded found notZero synthesized image matching.pc zero
  exact ⟨_, after, steps, matching.advance found (writes_of_delivers notZero delivers)⟩

/-- A constant that is loaded from the data pool. -/
theorem Matches.pooledConstant
    (matching : Matches layout scratch emitted state machine)
    (finished : layout.Finished pool scratch emitted)
    (bounded : emitted.code.size < UInt64.size)
    {rd : Register}
    {value : UInt64}
    {slot size : Nat}
    (found : layout.descriptors[state.next]? = some ⟨.dataLoad .ld rd rd slot, size⟩)
    (notZero : rd.index ≠ 0)
    (holds : pool.HoldsAt slot value) :
    ∃ count after,
      stepMany count machine = .ok after ∧
        Matches layout scratch emitted
          ⟨state.registers.write rd.index value, state.next + 1⟩ after := by
  obtain ⟨after, steps, delivers⟩ :=
    finished.delivers_dataLoad bounded found notZero rfl rfl holds matching.image matching.pc
  rw [show (⟨BitVec.ofNat 64 value.toNat⟩ : UInt64) = value from UInt64.ofNat_toNat] at delivers
  exact ⟨_, after, steps, matching.advance found (writes_of_delivers notZero delivers)⟩

/-- The place that a jump goes to is the statement that the source goes to. -/
theorem destination?_eq
    {source : Source}
    {session : Session}
    (tracks : source.Tracks session)
    (wellFormed : session.layout.WellFormed)
    {id place : Nat}
    {jump : Jump}
    {resolved : Resolved}
    (found : session.layout.jumps[id]? = some jump)
    (isResolved : jump.resolved = some resolved)
    (aims : session.layout.Aims jump place resolved) :
    source.destination? jump.descriptor jump.target = some place := by
  obtain ⟨-, ⟨own, foundOwn, lower, -⟩, -, -, -, resolves⟩ := wellFormed.holds id jump found
  cases resolved with
  | group target =>
      obtain ⟨label, asked, isBound⟩ := resolves _ isResolved
      obtain ⟨group, foundGroup, rfl⟩ := aims
      obtain ⟨again, foundAgain, position⟩ := tracks.labels label target isBound
      rw [foundGroup] at foundAgain
      cases foundAgain
      rw [asked]
      exact position
  | inGroup position =>
      obtain ⟨count, again, asked, foundAgain, counted, -⟩ := resolves _ isResolved
      obtain ⟨same, foundSame, rfl⟩ := aims
      rw [foundOwn] at foundAgain foundSame
      cases foundAgain
      cases foundSame
      rw [asked, destination?]
      have isPlace :
          (jump.descriptor : Int) + 1 + count = (own.first + position : Nat) := by
        omega
      rw [isPlace, if_pos (Int.natCast_nonneg _), Int.toNat_natCast]

/-- A jump. -/
theorem Matches.jump
    (matching : Matches layout scratch emitted state machine)
    (finished : layout.Finished pool scratch emitted)
    (wellFormed : layout.WellFormed)
    (bounded : emitted.code.size < UInt64.size)
    (usable : scratch.index ≠ 0)
    {id : Nat}
    {jump : Jump}
    (found : layout.jumps[id]? = some jump)
    (isHere : jump.descriptor = state.next)
    {target : JumpTarget}
    (unnamed : scratch.index ∉ (Statement.jump jump.kind target).registers) :
    ∃ resolved place,
      jump.resolved = some resolved ∧ layout.Aims jump place resolved ∧
        ∃ count after,
          stepMany count machine = .ok after ∧
            Matches layout scratch emitted
              ⟨state.registers.write jump.kind.link
                  (UInt64.ofNat (startOf layout.descriptors (state.next + 1))),
                if jump.kind.taken state.registers then place else state.next + 1⟩
              after := by
  obtain ⟨resolved, place, isResolved, aims, inPlace, executes⟩ :=
    finished.exists_executes wellFormed bounded found
  obtain ⟨described, -, sound, -, -, -⟩ := wellFormed.holds id jump found
  rw [isHere] at described executes
  have usesScratch (number : Nat) (uses : jump.scratch? scratch = some number) :
      number = scratch.index := by
    unfold Jump.scratch? at uses
    split at uses
    · exact (Option.some.inj uses).symm
    · cases uses
  obtain ⟨count, after, -, -, steps, transfers⟩ :=
    executes machine matching.image matching.pc
      fun number uses => usesScratch number uses ▸ usable
  have following :
      startOf layout.descriptors state.next + jump.size =
        startOf layout.descriptors (state.next + 1) :=
    (startOf_succ described).symm
  -- The condition reads registers that the statement names, and never the scratch register.
  have sameTaken : jump.kind.taken machine.read = jump.kind.taken state.registers := by
    cases isKind : jump.kind with
    | conditional op rs1 rs2 =>
        rw [isKind] at unnamed sound
        obtain ⟨-, -, -, rs1Small, rs2Small⟩ := sound
        have read {number : Nat} (member : number ∈ [rs1.index, rs2.index]) :
            machine.read number = state.registers number := by
          refine matching.read_eq unnamed ?_ member
          intro other named
          simp only [Statement.registers, List.mem_cons, List.not_mem_nil, or_false] at named
          rcases named with rfl | rfl
          · exact rs1Small
          · exact rs2Small
        rw [JumpKind.taken, JumpKind.taken, read (by simp), read (by simp)]
    | jal rd =>
        rfl
  rw [following, sameTaken] at transfers
  refine ⟨resolved, place, isResolved, aims, count, after, steps, ?_⟩
  obtain ⟨inside, -⟩ := Array.getElem?_eq_some_iff.mp described
  refine ⟨?_, transfers.image.trans matching.image, ?_,
    Registers.write_zero matching.zero _ _, ?_⟩
  · dsimp only
    split
    · exact inPlace
    · exact inside
  · rw [transfers.pc]
    dsimp only
    split <;> rfl
  · intro number small notScratch
    dsimp only [Registers.write]
    split
    · rename_i isLink
      rw [isLink.1]
      exact transfers.linked isLink.2
    · rename_i notLink
      rw [transfers.others number small, matching.registers number small notScratch]
      · intro notZero isLink
        exact notLink ⟨isLink, notZero⟩
      · intro uses
        exact notScratch (usesScratch number uses)

/-!
## Runs
-/

section

variable
  {source : Source}
  {session : Session}
  {offset : Nat → Nat}

/-- A jump statement is a jump of the jump list that stands at its descriptor. -/
theorem Tracks.exists_jump
    (tracks : source.Tracks session)
    (wellFormed : session.layout.WellFormed)
    {index : Nat}
    {kind : JumpKind}
    {target : JumpTarget}
    (found : source.statements[index]? = some (.jump kind target)) :
    ∃ (id : Nat) (jump : Jump),
      session.layout.jumps[id]? = some jump ∧ jump.descriptor = index ∧
        jump.kind = kind ∧ jump.target = target := by
  obtain ⟨⟨operation, size⟩, foundDescriptor, id, jump, isJump, foundJump, isKind, isTarget⟩ :=
    tracks.renders index _ found
  obtain rfl : operation = .jump id := isJump
  obtain ⟨listed, foundListed, isHere⟩ := wellFormed.listed index id size foundDescriptor
  rw [foundJump] at foundListed
  cases foundListed
  exact ⟨id.index, jump, foundJump, isHere, isKind, isTarget⟩

/-- The machine follows one step of the source machine. -/
theorem Matches.step
    (matching : Matches session.layout scratch emitted state machine)
    (tracks : source.Tracks session)
    (wellFormed : session.layout.WellFormed)
    (finished : session.layout.Finished session.pool scratch emitted)
    (bounded : emitted.code.size < UInt64.size)
    (usable : scratch.index ≠ 0)
    (unnamed : ∀ statement ∈ source.statements, scratch.index ∉ statement.registers)
    (isOffset :
      ∀ index, index ≤ session.layout.descriptors.size →
        offset index = startOf session.layout.descriptors index)
    {next : State}
    (steps : source.step offset state = some next) :
    ∃ count after,
      stepMany count machine = .ok after ∧
        Matches session.layout scratch emitted next after := by
  unfold Source.step at steps
  cases found : source.statements[state.next]? with
  | none =>
      rw [found] at steps
      cases steps
  | some statement =>
      rw [found] at steps
      have free := unnamed statement (Array.mem_of_getElem? found)
      obtain ⟨⟨operation, size⟩, foundDescriptor, renders⟩ :=
        tracks.renders state.next statement found
      cases statement with
      | plain instruction =>
          obtain ⟨result, isResult, rfl⟩ := Option.map_eq_some_iff.mp steps
          obtain rfl : operation = .instruction instruction := renders.1
          exact matching.plain finished bounded foundDescriptor free isResult
      | constant rd value =>
          cases steps
          obtain ⟨notZero, ⟨sequence, minSpan, isInline, synthesized⟩ | ⟨slot, isLoad, holds⟩⟩ :=
            renders
          · obtain rfl : operation = _ := isInline
            exact matching.inlineConstant finished bounded usable foundDescriptor notZero
              synthesized
          · obtain rfl : operation = _ := isLoad
            exact matching.pooledConstant finished bounded foundDescriptor notZero holds
      | jump kind target =>
          obtain ⟨id, jump, foundJump, isHere, rfl, rfl⟩ := tracks.exists_jump wellFormed found
          obtain ⟨resolved, place, isResolved, aims, count, after, runs, matchingAfter⟩ :=
            matching.jump finished wellFormed bounded usable foundJump isHere free
          have destination := destination?_eq tracks wellFormed foundJump isResolved aims
          rw [isHere] at destination
          obtain ⟨inside, -⟩ := Array.getElem?_eq_some_iff.mp foundDescriptor
          refine ⟨count, after, runs, ?_⟩
          dsimp only at steps
          rw [destination, isOffset (state.next + 1) inside] at steps
          cases isTaken : jump.kind.taken state.registers with
          | true =>
              rw [isTaken] at steps matchingAfter
              cases steps
              exact matchingAfter
          | false =>
              rw [isTaken] at steps matchingAfter
              cases steps
              exact matchingAfter

/-- The machine follows any number of steps of the source machine. -/
theorem Matches.run
    (matching : Matches session.layout scratch emitted state machine)
    (tracks : source.Tracks session)
    (wellFormed : session.layout.WellFormed)
    (finished : session.layout.Finished session.pool scratch emitted)
    (bounded : emitted.code.size < UInt64.size)
    (usable : scratch.index ≠ 0)
    (unnamed : ∀ statement ∈ source.statements, scratch.index ∉ statement.registers)
    (isOffset :
      ∀ index, index ≤ session.layout.descriptors.size →
        offset index = startOf session.layout.descriptors index)
    {steps : Nat}
    {final : State}
    (runs : source.run offset steps state = some final) :
    ∃ count after,
      stepMany count machine = .ok after ∧
        Matches session.layout scratch emitted final after := by
  induction steps generalizing state machine with
  | zero =>
      cases runs
      exact ⟨0, machine, rfl, matching⟩
  | succ steps inductionHypothesis =>
      obtain ⟨next, stepsOnce, runsOn⟩ := Option.bind_eq_some_iff.mp runs
      obtain ⟨first, middle, reachesMiddle, matchingMiddle⟩ :=
        matching.step tracks wellFormed finished bounded usable unnamed isOffset stepsOnce
      obtain ⟨second, after, reachesAfter, matchingAfter⟩ :=
        inductionHypothesis matchingMiddle runsOn
      exact ⟨first + second, after, stepMany_trans reachesMiddle reachesAfter, matchingAfter⟩

end

end Source

namespace Session

end Session

end Rv64Codegen
