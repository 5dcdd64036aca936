import Rv64Codegen.Proofs.Constant.Synthesis
import Rv64Codegen.Proofs.Output.Landing

namespace Rv64Codegen

/-!
# Values at run time

A constant is built by a sequence or loaded from the data pool, and pool bytes and
labels are reached by a pair that adds a distance to the program counter.  The words
of such a descriptor bring the value into their register and nowhere else.  A call
to a known address brings the address into its scratch register and goes there.
Only loads read the data pool; all other words do not depend on its bytes.
-/

namespace Machine

variable
  {machine : Machine}
  {pc : Nat}
  {words : List Word}

/-- The sequence of a constant brings it into the register. -/
theorem delivers_sequence
    {rd : Register}
    {value : Int64}
    {minSpan : Nat}
    {sequence : Sequence}
    (notZero : rd.index ≠ 0)
    (synthesized : Constant.synthesize value minSpan = some sequence)
    (encoded : Instruction.encodeAll (sequence.instructions rd) = .ok words)
    (stand : WordsAt machine.image pc words)
    (atPc : machine.pc = UInt64.ofNat pc)
    (small : pc + 4 * words.length < UInt64.size)
    (zero : machine.read 0 = 0) :
    ∃ after,
      stepMany words.length machine = .ok after ∧
        machine.Delivers after rd.index value.toUInt64 (4 * words.length) := by
  have pcSmall : pc < UInt64.size := by omega
  have isPc : machine.pc.toNat = pc := by
    rw [atPc, UInt64.toNat_ofNat_of_lt' pcSmall]
  obtain ⟨same, isSame, nonempty, fits, isValue⟩ := Constant.exists_synthesize value minSpan
  obtain rfl := Option.some.inj (synthesized.symm.trans isSame)
  have builds : ∀ step ∈ sequence.steps, step.Builds :=
    fun step member => (fits step member).builds
  obtain ⟨after, executed, delivers⟩ :=
    Sequence.executeAll_of_encodeAll notZero builds nonempty encoded zero
  have size : sequence.byteSize = 4 * words.length := by
    rw [Instruction.length_of_encodeAll encoded, Sequence.length_instructions, Nat.mul_comm]
    rfl
  rw [isValue, Constant.ofInt_toInt, size] at delivers
  refine ⟨after, ?_, delivers⟩
  exact stepMany_of_executeAll (Sequence.straight_of_encodeAll builds encoded)
    (wordsAt_pc atPc pcSmall stand) (by rw [isPc]; exact small) executed

theorem length_of_throughPair
    {base : Register}
    {distance : Int}
    {second : Int → Instruction}
    {instructions : List Instruction}
    (expanded : Placement.throughPair base distance second = .ok instructions)
    (encoded : Instruction.encodeAll instructions = .ok words) :
    words.length = 2 := by
  obtain ⟨⟨high, low⟩, -, isPair⟩ := bind_eq_ok_iff.mp expanded
  cases isPair
  exact Instruction.length_of_encodeAll encoded

/-- A pair reaches its target: its first word leaves all but the lowest bits of it. -/
theorem exists_pair
    {base : Register}
    {target : Nat}
    {second : Int → Instruction}
    {instructions : List Instruction}
    (expanded :
      Placement.throughPair base ((target : Int) - pc) second = .ok instructions)
    (encoded : Instruction.encodeAll instructions = .ok words)
    (stand : WordsAt machine.image pc words)
    (atPc : machine.pc = UInt64.ofNat pc)
    (small : pc + 4 < UInt64.size)
    (usable : base.index ≠ 0) :
    PcRelative.Reachable ((target : Int) - pc) ∧
      ∃ low word middle upper,
        (second low).encode = .ok word ∧ stepMany 1 machine = .ok middle ∧
          machine.Delivers middle base.index upper 4 ∧
            upper + UInt64.ofInt low = UInt64.ofNat target ∧
              WordsAt middle.image middle.pc.toNat [word] := by
  obtain ⟨⟨high, low⟩, splits, isPair⟩ := bind_eq_ok_iff.mp expanded
  cases isPair
  obtain ⟨parts, reachable⟩ := PcRelative.split_eq_ok splits
  obtain ⟨first, _, encodedFirst, encodedRest, rfl⟩ :=
    Instruction.encodeAll_cons_eq_ok_iff.mp encoded
  obtain ⟨word, _, encodedSecond, encodedNone, rfl⟩ :=
    Instruction.encodeAll_cons_eq_ok_iff.mp encodedRest
  cases encodedNone
  obtain ⟨middle, upper, steps, delivers, whole, -, standSecond⟩ :=
    exists_base encodedFirst parts stand atPc small usable
  exact ⟨reachable, low, word, middle, upper, encodedSecond, steps, delivers, whole, standSecond⟩

/-- A pair that ends in a load brings the bytes at its target. -/
theorem delivers_load
    {op : Opcode}
    {rd : Register}
    {target width number : Nat}
    {result : BitVec 64}
    {instructions : List Instruction}
    (expanded :
      Placement.throughPair rd ((target : Int) - pc) (fun low => .i op rd rd low) =
        .ok instructions)
    (encoded : Instruction.encodeAll instructions = .ok words)
    (stand : WordsAt machine.image pc words)
    (atPc : machine.pc = UInt64.ofNat pc)
    (small : pc + 4 < UInt64.size)
    (notZero : rd.index ≠ 0)
    (targetSmall : PcRelative.Reachable ((target : Int) - pc) → target < UInt64.size)
    (isWidth : op.loadWidth? = some width)
    (meaning : op.loadMeaning? number = some result)
    (reads : readBytes? machine.image target width = some number) :
    ∃ after,
      stepMany 2 machine = .ok after ∧ machine.Delivers after rd.index ⟨result⟩ 8 := by
  obtain ⟨reachable, low, word, middle, upper, encodedLoad, steps, delivers, whole, standLoad⟩ :=
    exists_pair expanded encoded stand atPc small notZero
  have rdSmall : rd.index < 32 := (Instruction.encode_eq_ok_iff.mp encodedLoad).1.2.2.1
  have readsThere :
      readBytes? middle.image (middle.read rd.index + UInt64.ofInt low).toNat width =
        some number := by
    rw [delivers.value, whole, UInt64.toNat_ofNat_of_lt' (targetSmall reachable),
      delivers.image]
    exact reads
  have stepsLoad :=
    stepMany_succ standLoad (execute_load encodedLoad isWidth meaning readsThere) 0
  exact ⟨_, stepMany_trans steps stepsLoad,
    delivers.trans (delivers_commit middle _ notZero rdSmall)⟩

end Machine

/-!
## Descriptors
-/

namespace Layout.Finished

open Machine

variable
  {layout : Layout}
  {pool : DataPool}
  {scratch : Register}
  {emitted : EmittedCode}
  {index size : Nat}
  {machine : Machine}

/-- A slot that a pair reaches has a small address. -/
theorem slot_lt
    (finished : layout.Finished pool scratch emitted)
    {place slot : Nat}
    (inside : place ≤ layout.descriptors.size)
    (filled : slot < pool.bytes.size)
    (reachable :
      PcRelative.Reachable
        (((emitted.dataOffset + slot : Nat) : Int) - startOf layout.descriptors place)) :
    emitted.dataOffset + slot < UInt64.size := by
  have notEmpty : pool.bytes.isEmpty = false := by
    rw [Array.isEmpty, decide_eq_false_iff_not]
    omega
  have dataSmall := finished.small notEmpty
  have codeBefore := finished.before
  have here := finished.startOf_le_size inside
  have upper := (PcRelative.reachable_iff.mp reachable).2
  unfold UInt64.size
  omega

/-- A constant that is built in place; no byte behind the code matters. -/
theorem delivers_constant
    (finished : layout.Finished pool scratch emitted)
    (bounded : emitted.code.size < UInt64.size)
    {rd : Register}
    {value : Int64}
    {sequence : Sequence}
    {minSpan : Nat}
    (found : layout.descriptors[index]? = some ⟨.loadConstant rd sequence, size⟩)
    (notZero : rd.index ≠ 0)
    (synthesized : Constant.synthesize value minSpan = some sequence)
    {more : Array UInt8}
    (image : machine.image = emitted.code ++ more)
    (atPc : machine.pc = UInt64.ofNat (startOf layout.descriptors index))
    (zero : machine.read 0 = 0) :
    ∃ after,
      stepMany (size / 4) machine = .ok after ∧
        machine.Delivers after rd.index value.toUInt64 size := by
  obtain ⟨_, words, expanded, encoded, isSize, inside, stand⟩ := finished.wordsAt_code found
  cases expanded
  obtain rfl : 4 * words.length = size := isSize
  rw [Nat.mul_div_cancel_left _ (by decide)]
  refine delivers_sequence notZero synthesized encoded ?_ atPc ?_ zero
  · rw [image]
    exact stand more
  · exact Nat.lt_of_le_of_lt inside bounded

/-- A pair at the start of a descriptor that loads from a slot of the data pool. -/
theorem delivers_slot
    (finished : layout.Finished pool scratch emitted)
    (inside : index ≤ layout.descriptors.size)
    {op : Opcode}
    {rd : Register}
    {slot width number : Nat}
    {result : BitVec 64}
    {instructions : List Instruction}
    {words : List Word}
    (expanded :
      Placement.throughPair rd
          ((Placement.of layout emitted.dataOffset scratch).slotDistance
            (startOf layout.descriptors index) slot)
          (fun low => .i op rd rd low) = .ok instructions)
    (encoded : Instruction.encodeAll instructions = .ok words)
    (stand : WordsAt machine.image (startOf layout.descriptors index) words)
    (small : startOf layout.descriptors index + 4 < UInt64.size)
    (notZero : rd.index ≠ 0)
    (isWidth : op.loadWidth? = some width)
    (meaning : op.loadMeaning? number = some result)
    (reads : readBytes? pool.bytes slot width = some number)
    (image : machine.image = emitted.image)
    (atPc : machine.pc = UInt64.ofNat (startOf layout.descriptors index)) :
    ∃ after,
      stepMany 2 machine = .ok after ∧ machine.Delivers after rd.index ⟨result⟩ 8 := by
  have filled : slot < pool.bytes.size := by
    have slotInside := inside_of_readBytes? reads
    have positive : 0 < width := by
      cases op <;> cases isWidth <;> decide
    omega
  refine delivers_load expanded encoded stand atPc small notZero ?_ isWidth meaning ?_
  · exact finished.slot_lt inside filled
  · rw [image]
    exact finished.readBytes?_data reads

/-- A load from the data pool, with its address in the destination. -/
theorem delivers_dataLoad
    (finished : layout.Finished pool scratch emitted)
    (bounded : emitted.code.size < UInt64.size)
    {op : Opcode}
    {rd : Register}
    {slot width number : Nat}
    {result : BitVec 64}
    (found : layout.descriptors[index]? = some ⟨.dataLoad op rd rd slot, size⟩)
    (notZero : rd.index ≠ 0)
    (isWidth : op.loadWidth? = some width)
    (meaning : op.loadMeaning? number = some result)
    (reads : readBytes? pool.bytes slot width = some number)
    (image : machine.image = emitted.image)
    (atPc : machine.pc = UInt64.ofNat (startOf layout.descriptors index)) :
    ∃ after,
      stepMany (size / 4) machine = .ok after ∧
        machine.Delivers after rd.index ⟨result⟩ size := by
  obtain ⟨instructions, words, expanded, encoded, isSize, inside, stand⟩ := finished.wordsAt found
  have pair := Failure.ofRefusal_eq_ok_iff.mp expanded
  obtain ⟨isInside, -⟩ := Array.getElem?_eq_some_iff.mp found
  rw [length_of_throughPair pair encoded] at isSize
  obtain rfl : 4 * 2 = size := isSize
  rw [← image] at stand
  dsimp only at inside
  exact finished.delivers_slot (Nat.le_of_lt isInside) pair encoded stand (by omega) notZero
    isWidth meaning reads image atPc

end Layout.Finished

end Rv64Codegen
