import Rv64Codegen.Proofs.Output.Encodable
import Rv64Codegen.Proofs.Relaxation.FixedPoint
import Rv64Codegen.Proofs.Session.Changes

namespace Rv64Codegen.Session

/-!
# Sessions that are ready to be finished

As long as no relaxation fails, everything in a session stays in place, its code
stays within the limit, and every operation in it has passed its checks.  Then
every operation has words in exactly the size that was set aside for it, except
for the address of a label that is not bound.
-/

variable
  {extent : Nat → Prop}

/-- What has passed its checks passes them in every later session. -/
theorem Admits.mono
    {before after : Session}
    {operation : Operation}
    (admits : before.Admits extent operation)
    (labels : before.layout.labels.size ≤ after.layout.labels.size) :
    after.Admits extent operation := by
  cases operation with
  | call shape =>
      cases shape <;> exact admits
  | labelAddress rd label =>
      exact Nat.lt_of_lt_of_le admits labels
  | _ =>
      exact admits

/-- A session in which nothing stands in the way of the writer. -/
structure Ready (session : Session) (extent : Nat → Prop) : Prop where
  wellFormed : session.layout.WellFormed
  located : session.layout.Located
  within : session.layout.codeSize ≤ session.config.maxCodeBytes
  admitted :
    ∀ (index : Nat) (descriptor : Descriptor),
      session.layout.descriptors[index]? = some descriptor →
        (∀ id, descriptor.operation ≠ .jump id) →
          session.Admits extent descriptor.operation ∧
            ∀ register ∈ descriptor.operation.registers, register.index < 32

namespace Ready

variable
  {session : Session}

/-- A change that leaves the descriptors alone keeps a session ready. -/
theorem congr
    (ready : session.Ready extent)
    {after : Session}
    (wellFormed : after.layout.WellFormed)
    (located : after.layout.Located)
    (config : after.config = session.config)
    (descriptors : after.layout.descriptors = session.layout.descriptors)
    (labels : session.layout.labels.size ≤ after.layout.labels.size) :
    after.Ready extent where
  wellFormed := wellFormed
  located := located
  within := by
    rw [config, ready.located.codeSize_congr ready.wellFormed located wellFormed descriptors]
    exact ready.within
  admitted := by
    intro index descriptor found notJump
    rw [descriptors] at found
    obtain ⟨admits, registers⟩ := ready.admitted index descriptor found notJump
    exact ⟨admits.mono labels, registers⟩

/-- One more descriptor that has found room keeps a session ready, if it is a jump or admitted. -/
theorem extend
    (ready : session.Ready extent)
    {after : Layout}
    {operation : Operation}
    (wellFormed : after.WellFormed)
    (located : after.Located)
    (descriptors :
      after.descriptors = session.layout.descriptors.push (Descriptor.ofOperation operation))
    (labels : after.labels = session.layout.labels)
    (room : session.layout.codeSize + operation.initialSize ≤ session.config.maxCodeBytes)
    (admitted :
      (∀ id, operation ≠ .jump id) →
        session.Admits extent operation ∧
          ∀ register ∈ operation.registers, register.index < 32) :
    { session with layout := after }.Ready extent := by
  have sameLabels : session.layout.labels.size ≤ after.labels.size :=
    Nat.le_of_eq (congrArg Array.size labels).symm
  refine ⟨wellFormed, located, ?_, ?_⟩
  · have size := ready.located.codeSize_push ready.wellFormed located wellFormed descriptors
    exact Nat.le_trans (Nat.le_of_eq size) room
  · intro index descriptor found plain
    change after.descriptors[index]? = some descriptor at found
    rw [descriptors, Array.getElem?_push] at found
    split at found
    · cases found
      obtain ⟨admits, registers⟩ := admitted plain
      exact ⟨admits.mono sameLabels, registers⟩
    · obtain ⟨earlier, registers⟩ := ready.admitted index descriptor found plain
      exact ⟨earlier.mono sameLabels, registers⟩

/-- An operation that has passed its checks and found room keeps a session ready. -/
theorem push
    (ready : session.Ready extent)
    {operation : Operation}
    (admits : session.Admits extent operation)
    (registers : ∀ register ∈ operation.registers, register.index < 32)
    (room : session.layout.codeSize + operation.initialSize ≤ session.config.maxCodeBytes) :
    { session with
      layout := session.layout.push (Descriptor.ofOperation operation) }.Ready extent := by
  have notJump : ∀ id, operation ≠ .jump id := by
    rintro id rfl
    exact admits
  have wellFormed := ready.wellFormed.push_operation notJump
  have located := ready.located.push ready.wellFormed (Descriptor.ofOperation operation)
  exact ready.extend wellFormed located rfl rfl room fun _ => ⟨admits, registers⟩

/-- A jump that has found room keeps a session ready. -/
theorem pushFresh
    (ready : session.Ready extent)
    {kind : JumpKind}
    (sound : kind.Sound)
    (target : JumpTarget)
    (room : session.layout.codeSize + 4 ≤ session.config.maxCodeBytes) :
    { session with layout := session.layout.pushFresh kind target }.Ready extent := by
  have wellFormed := ready.wellFormed.pushFresh sound target
  have located := ready.located.pushFresh ready.wellFormed kind target
  exact ready.extend wellFormed located rfl rfl room fun plain => absurd rfl (plain _)

/-- Relaxation that succeeds keeps a session ready. -/
theorem relax
    (ready : session.Ready extent)
    (small : session.config.smallFunctionBytes ≤ 0xfff)
    {stats : RelaxStats}
    (succeeds : session.relax.1 = .ok stats) :
    session.relax.2.Ready extent := by
  obtain ⟨settles, within, -⟩ := Layout.relaxWithin_eq_ok succeeds
  obtain ⟨wellFormed, evolves⟩ := settles.evolves ready.wellFormed
  obtain ⟨located, -⟩ := settles.reached small ready.wellFormed ready.located
  refine ⟨wellFormed, located, within, ?_⟩
  intro index descriptor found plain
  obtain ⟨old, foundOld, operation, -⟩ := evolves.descriptors.backward found
  rw [operation] at plain ⊢
  obtain ⟨admits, registers⟩ := ready.admitted index old foundOld plain
  refine ⟨admits.mono ?_, registers⟩
  exact Nat.le_of_eq (congrArg Array.size evolves.labels).symm

end Ready

/-- Changes in which relaxation succeeds keep a session ready. -/
theorem Changes.ready
    {before after : Session}
    (changes :
      Changes
        { named := (·.index < 32), extent := extent, accepts := (∃ stats, · = .ok stats) }
        before after)
    (scratch : ∀ register ∈ before.config.registers, register.index < 32)
    (small : before.config.smallFunctionBytes ≤ 0xfff)
    (ready : before.Ready extent) :
    after.Ready extent := by
  induction changes with
  | refl =>
      exact ready
  | @tail middle after earlier change kept =>
      have config := Changes.config earlier
      have wellFormed := Changes.wellFormed (earlier.tail change) ready.wellFormed
      cases change with
      | addLabel =>
          have located := kept.located
          refine kept.congr wellFormed ⟨located.groups, located.jumps⟩ rfl rfl ?_
          show _ ≤ (middle.layout.labels.push none).size
          rw [Array.size_push]
          exact Nat.le_succ _
      | openGroup =>
          have descriptors :
              middle.layout.openGroup.descriptors = middle.layout.descriptors := rfl
          exact kept.congr wellFormed (kept.located.openGroup kept.wellFormed) rfl descriptors
            (Nat.le_refl _)
      | bindLabel label unbound here =>
          refine kept.congr wellFormed (kept.located.bindLabel kept.wellFormed label _) rfl rfl ?_
          exact Nat.le_of_eq Array.size_modify.symm
      | setRegion region =>
          exact kept.congr wellFormed kept.located rfl rfl (Nat.le_refl _)
      | setPool pool =>
          exact kept.congr wellFormed kept.located rfl rfl (Nat.le_refl _)
      | operation operation approves room =>
          obtain ⟨admits, registers⟩ := approves
          refine kept.push admits ?_ room.limit
          intro register member
          rcases registers register member with isSmall | inConfig | rfl
          · exact isSmall
          · exact scratch register (config ▸ inConfig)
          · decide
      | jump kind target sound room =>
          exact kept.pushFresh sound target room.limit
      | keepLong id =>
          exact kept.congr wellFormed (kept.located.keepLong kept.wellFormed id.index) rfl rfl
            (Nat.le_refl _)
      | relax accepted =>
          obtain ⟨stats, succeeds⟩ := accepted
          exact kept.relax (config ▸ small) succeeds

/-!
## Words
-/

/-- A load takes every signed immediate of 12 bits. -/
theorem encodable_load
    {op : Opcode}
    {width : Nat}
    {rd base : Register}
    {low : Int}
    (loads : op.loadWidth? = some width)
    (rdSmall : rd.index < 32)
    (baseSmall : base.index < 32)
    (fits : FitsSigned 12 low) :
    (Instruction.i op rd base low).Encodable := by
  have isLoad : op.format = .i ∧ op.shift? = none := by
    cases op <;> first | exact ⟨rfl, rfl⟩ | cases loads
  refine ⟨isLoad.1, ?_, rdSmall, baseSmall⟩
  rw [Opcode.AcceptsImmediate, isLoad.2]
  exact fits

/-- The instructions of a synthesized constant have words, eight at most. -/
theorem encodable_synthesized
    {sequence : Sequence}
    {rd : Register}
    (synthesized : Constant.Synthesized sequence)
    (small : rd.index < 32) :
    ∀ instruction ∈ sequence.instructions rd, instruction.Encodable := by
  obtain ⟨value, minSpan, isSequence⟩ := synthesized
  obtain ⟨again, isAgain, -, fits, -⟩ := Constant.exists_synthesize value minSpan
  obtain rfl : sequence = again := Option.some.inj (isSequence.symm.trans isAgain)
  exact sequence.encodable_instructions small fits

/-- What an operation can reach from an offset: slots of an extent, and labels that are bound. -/
structure Reaches
    (placement : Placement)
    (extent : Nat → Prop)
    (pc : Nat) :
    Prop where
  slots :
    ∀ slot width, extent (slot + width) →
      PcRelative.Reachable (placement.slotDistance pc slot)
  labels :
    ∀ label target,
      placement.layout.labelGroup? label = some target →
        ∃ group,
          placement.layout.groups[target.index]? = some group ∧
            PcRelative.Reachable ((group.offset : Int) - pc)

/-- A call that has passed its checks has words of its size. -/
theorem writes_call
    {session : Session}
    {placement : Placement}
    {pc : Nat}
    {shape : CallShape}
    (admits : session.Admits extent (.call shape))
    (registers : ∀ register ∈ shape.registers, register.index < 32)
    (reaches : Reaches placement extent pc) :
    placement.Writes pc (.call shape) shape.size := by
  have jalr (link scratch : Register)
      (isLink : link ∈ shape.registers)
      (isScratch : scratch ∈ shape.registers) :
      (Instruction.i .jalr link scratch 0).Encodable :=
    Instruction.encodable_jalr (registers link isLink) (registers scratch isScratch) (by decide)
  cases shape with
  | indirect link base offset =>
      have expanded :
          placement.expand pc (.call (.indirect link base offset)) =
            .ok [.i .jalr link base offset] := rfl
      have encodable : (Instruction.i .jalr link base offset).Encodable := admits
      exact Placement.writes_of_expand expanded (by simp [encodable]) (by simp) rfl
  | relocated link scratch symbol addend =>
      have expanded :
          placement.expand pc (.call (.relocated link scratch symbol addend)) =
            .ok [.u .auipc scratch 0, .i .jalr link scratch 0] := rfl
      have first :=
        Instruction.encodable_auipc (registers scratch (by simp [CallShape.registers]))
          (show FitsSigned 20 0 by decide)
      have last := jalr link scratch (by simp [CallShape.registers])
        (by simp [CallShape.registers])
      exact Placement.writes_of_expand expanded (by simp [first, last]) (by simp) rfl
  | absolute link scratch sequence =>
      have expanded :
          placement.expand pc (.call (.absolute link scratch sequence)) =
            .ok (sequence.instructions scratch ++ [.i .jalr link scratch 0]) := rfl
      have length := sequence.length_instructions scratch
      have few : sequence.length ≤ 8 := sequence.length_le
      refine Placement.writes_of_expand expanded ?_ ?_ ?_
      · intro instruction member
        rcases List.mem_append.mp member with inSequence | isLast
        · exact encodable_synthesized admits
            (registers scratch (by simp [CallShape.registers])) instruction inSequence
        · obtain rfl := List.mem_singleton.mp isLast
          exact jalr link scratch (by simp [CallShape.registers]) (by simp [CallShape.registers])
      · rw [List.length_append, length, List.length_singleton]
        omega
      · rw [List.length_append, length, List.length_singleton, CallShape.size,
          Sequence.byteSize, Nat.succ_mul]
  | pooled link scratch slot =>
      have scratchSmall := registers scratch (by simp [CallShape.registers])
      obtain ⟨first, second, isPair, firstEncodable, secondEncodable⟩ :=
        Placement.exists_throughPair scratchSmall (reaches.slots slot 8 admits)
          fun low fits => encodable_load (show Opcode.ld.loadWidth? = some 8 from rfl)
            scratchSmall scratchSmall fits
      have expanded :
          placement.expand pc (.call (.pooled link scratch slot)) =
            .ok ([first, second] ++ [.i .jalr link scratch 0]) :=
        Failure.ofRefusal_eq_ok_iff.mpr (bind_eq_ok_iff.mpr ⟨_, isPair, rfl⟩)
      have last := jalr link scratch (by simp [CallShape.registers])
        (by simp [CallShape.registers])
      exact Placement.writes_of_expand expanded
        (by simp [firstEncodable, secondEncodable, last]) (by simp) rfl

/-- What has passed its checks has words of its size, unless it needs a label that is not bound. -/
theorem Admits.writes
    {session : Session}
    {placement : Placement}
    {pc : Nat}
    {operation : Operation}
    (admits : session.Admits extent operation)
    (registers : ∀ register ∈ operation.registers, register.index < 32)
    (reaches : Reaches placement extent pc)
    (bound :
      ∀ rd label, operation = .labelAddress rd label →
        placement.layout.labelGroup? label ≠ none) :
    placement.Writes pc operation operation.initialSize := by
  cases operation with
  | instruction instruction =>
      have expanded :
          placement.expand pc (.instruction instruction) = .ok [instruction] := rfl
      have encodable : instruction.Encodable := admits
      exact Placement.writes_of_expand expanded (by simp [encodable]) (by simp) rfl
  | jump id =>
      cases admits
  | loadConstant rd sequence =>
      have expanded :
          placement.expand pc (.loadConstant rd sequence) =
            .ok (sequence.instructions rd) := rfl
      have length := sequence.length_instructions rd
      have few : sequence.length ≤ 8 := sequence.length_le
      refine Placement.writes_of_expand expanded ?_ ?_ ?_
      · exact encodable_synthesized admits.2.2 (registers rd (by simp [Operation.registers]))
      · rw [length]
        omega
      · rw [length]
        rfl
  | call shape =>
      exact writes_call admits registers reaches
  | dataLoad op rd base slot =>
      obtain ⟨width, isWidth, inside⟩ := admits
      have baseSmall := registers base (by simp [Operation.registers])
      obtain ⟨first, second, isPair, firstEncodable, secondEncodable⟩ :=
        Placement.exists_throughPair baseSmall (reaches.slots slot width inside)
          fun low fits =>
            encodable_load isWidth (registers rd (by simp [Operation.registers])) baseSmall fits
      have expanded :
          placement.expand pc (.dataLoad op rd base slot) = .ok [first, second] :=
        Failure.ofRefusal_eq_ok_iff.mpr isPair
      exact Placement.writes_of_expand expanded (by simp [firstEncodable, secondEncodable])
        (by simp) rfl
  | labelAddress rd label =>
      obtain ⟨target, isTarget⟩ := Option.ne_none_iff_exists'.mp (bound rd label rfl)
      obtain ⟨group, found, reachable⟩ := reaches.labels label target isTarget
      have rdSmall := registers rd (by simp [Operation.registers])
      have takes (low : Int) (fits : FitsSigned 12 low) :
          (Instruction.i .addi rd rd low).Encodable :=
        ⟨rfl, fits, rdSmall, rdSmall⟩
      obtain ⟨first, second, isPair, firstEncodable, secondEncodable⟩ :=
        Placement.exists_throughPair rdSmall reachable takes
      have expanded :
          placement.expand pc (.labelAddress rd label) = .ok [first, second] := by
        rw [Placement.expand, isTarget]
        exact bind_eq_ok_iff.mpr
          ⟨group, Failure.ofMissing_eq_ok_iff.mpr found, Failure.ofRefusal_eq_ok_iff.mpr isPair⟩
      exact Placement.writes_of_expand expanded (by simp [firstEncodable, secondEncodable])
        (by simp) rfl
  | relocatedAddress rd symbol kind addend =>
      have expanded :
          placement.expand pc (.relocatedAddress rd symbol kind addend) =
            .ok [.u .auipc rd 0, .i (Placement.addressOpcode kind) rd rd 0] := rfl
      have rdSmall := registers rd (by simp [Operation.registers])
      have zeroFits : FitsSigned 12 0 := by decide
      have first := Instruction.encodable_auipc rdSmall (show FitsSigned 20 0 by decide)
      have second : (Instruction.i (Placement.addressOpcode kind) rd rd 0).Encodable := by
        cases kind <;> exact ⟨rfl, zeroFits, rdSmall, rdSmall⟩
      exact Placement.writes_of_expand expanded (by simp [first, second]) (by simp) rfl

end Rv64Codegen.Session
