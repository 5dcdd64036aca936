import Mathlib.Data.List.Sort
import Rv64Codegen.Proofs.Output.Jump
import Rv64Codegen.Proofs.Output.Targets
import Rv64Codegen.Proofs.Output.Writer
import Rv64Codegen.Proofs.Relaxation.Agreement
import Rv64Codegen.Proofs.Session.Regularity

namespace Rv64Codegen

/-!
# The writer does not see groups

The writer goes through groups, but what it appends is what it would append for
all descriptors in one run.  Each of them is encoded with offsets that are sums of
sizes, so two layouts that agree are written to the same code, with the same
relocations and the same offsets of labels and targets.
-/

/-!
## One run of descriptors
-/

namespace Layout

variable
  {placement : Placement}

/-- Descriptors that are written behind others are written in one run with them. -/
theorem writeDescriptors_append
    {front back : List Descriptor}
    {pc : Nat}
    {code middle longer : Array UInt8}
    (here : code.size = pc)
    (wroteFront : writeDescriptors placement pc front code = .ok middle)
    (wroteBack : writeDescriptors placement middle.size back middle = .ok longer) :
    writeDescriptors placement pc (front ++ back) code = .ok longer := by
  induction front generalizing pc code with
  | nil =>
      cases wroteFront
      rw [← here]
      exact wroteBack
  | cons descriptor rest inductionHypothesis =>
      obtain ⟨buffer, encoded, sized, wroteRest⟩ := writeDescriptors_cons_eq_ok wroteFront
      have moved : (code ++ buffer.bytes).size = pc + descriptor.size := by
        rw [size_append_bytes, sized, here]
      rw [List.cons_append, writeDescriptors, encoded]
      dsimp only
      rw [if_pos sized]
      exact inductionHypothesis moved wroteRest

/-- What is written group by group is written in one run. -/
theorem writeDescriptors_of_writeGroups
    {start : Nat}
    {groups : List Group}
    {code longer : Array UInt8}
    (tiled : Tiles placement.layout.descriptors start groups)
    (here : code.size = startOf placement.layout.descriptors start)
    (result : writeGroups placement groups code = .ok longer) :
    writeDescriptors placement code.size
        (placement.layout.descriptors.toList.drop start) code = .ok longer := by
  induction groups generalizing start code with
  | nil =>
      obtain rfl : start = placement.layout.descriptors.size := tiled
      cases result
      rw [List.drop_of_length_le (by simp)]
      rfl
  | cons group rest inductionHypothesis =>
      obtain ⟨rfl, inside, tiledRest⟩ := tiled
      rw [writeGroups] at result
      split at result
      · rename_i atOffset
        split at result
        · cases result
        · rename_i middle wrote
          rw [atOffset] at wrote
          obtain ⟨-, size, -⟩ := writeDescriptors_eq_ok (first_le_last group) inside here wrote
          -- The descriptors that are left start with those of this group.
          have split :
              placement.layout.descriptors.toList.drop group.first =
                (placement.layout.groupDescriptors group).toList ++
                  placement.layout.descriptors.toList.drop group.last := by
            have behind :
                placement.layout.descriptors.toList.drop group.last =
                  (placement.layout.descriptors.toList.drop group.first).drop
                    (group.last - group.first) := by
              rw [List.drop_drop, Nat.add_sub_cancel' (first_le_last group)]
            rw [groupDescriptors, Array.toList_extract, List.extract_eq_take_drop, behind,
              List.take_append_drop]
          rw [split]
          exact writeDescriptors_append rfl wrote (inductionHypothesis tiledRest size result)
      · cases result

/-- Two placements that encode all descriptors alike write the same bytes. -/
theorem writeDescriptors_unique
    {other : Placement}
    {descriptors : List Descriptor}
    {pc : Nat}
    {code left right : Array UInt8}
    (alike :
      ∀ pc, ∀ descriptor ∈ descriptors, ∀ leftBuffer rightBuffer,
        placement.encode pc descriptor.operation = .ok leftBuffer →
          other.encode pc descriptor.operation = .ok rightBuffer → rightBuffer = leftBuffer)
    (wroteLeft : writeDescriptors placement pc descriptors code = .ok left)
    (wroteRight : writeDescriptors other pc descriptors code = .ok right) :
    right = left := by
  induction descriptors generalizing pc code with
  | nil =>
      cases wroteLeft
      cases wroteRight
      rfl
  | cons descriptor rest inductionHypothesis =>
      obtain ⟨leftBuffer, leftEncoded, -, leftRest⟩ := writeDescriptors_cons_eq_ok wroteLeft
      obtain ⟨rightBuffer, rightEncoded, -, rightRest⟩ := writeDescriptors_cons_eq_ok wroteRight
      obtain rfl :=
        alike pc descriptor (by simp) leftBuffer rightBuffer leftEncoded rightEncoded
      exact inductionHypothesis
        (fun later other member => alike later other (by simp [member])) leftRest rightRest

end Layout

/-!
## Encodings
-/

/-- Only the kind and the form of a jump matter for its instructions. -/
theorem Placement.expandJump_congr
    {left right : Jump}
    (jumps : left.Agrees right)
    (scratch : Register)
    (pc target : Nat) :
    expandJump scratch right pc target = expandJump scratch left pc target := by
  have sameForm := jumps.form
  unfold Jump.form at sameForm
  unfold expandJump
  rw [jumps.kind]
  rcases leftState : left.state with _ | _ | (_ | _) <;>
    rcases rightState : right.state with _ | _ | (_ | _) <;>
    simp [leftState, rightState] at sameForm <;>
    cases left.kind <;> rfl

namespace Layout

variable
  {first second : Layout}

/-- The offset of a jump's target is where the place that it asks for starts. -/
theorem WellFormed.exists_asks
    {layout : Layout}
    (wellFormed : layout.WellFormed)
    (placed : Placed layout.groups layout.descriptors)
    {dataOffset : Nat}
    {scratch : Register}
    {id : Nat}
    {jump : Jump}
    {target : Nat}
    (found : layout.jumps[id]? = some jump)
    (isTarget : (Placement.of layout dataOffset scratch).targetOffset jump = .ok target) :
    ∃ place, layout.Asks jump place ∧ target = startOf layout.descriptors place := by
  have holds := wellFormed.holds id jump found
  cases isResolved : jump.resolved with
  | none =>
      obtain ⟨own, -, rest⟩ := bind_eq_ok_iff.mp isTarget
      rw [isResolved] at rest
      cases rest
  | some resolved =>
      have resolves := holds.resolved resolved isResolved
      obtain ⟨place, aims, -⟩ := wellFormed.exists_aims resolves
      have known :=
        wellFormed.targetOffset_eq placed dataOffset scratch found isResolved aims
      rw [known] at isTarget
      cases isTarget
      exact ⟨place, wellFormed.asks_of_goesTo found ⟨resolved, resolves, aims⟩, rfl⟩

/-- The address of a label is taken of the place where it stands. -/
theorem exists_labelPlace?
    {layout : Layout}
    (placed : Placed layout.groups layout.descriptors)
    {dataOffset : Nat}
    {scratch : Register}
    {pc : Nat}
    {rd : Register}
    {label : LabelId}
    {instructions : List Instruction}
    (expands :
      (Placement.of layout dataOffset scratch).expand pc (.labelAddress rd label) =
        .ok instructions) :
    ∃ place,
      layout.labelPlace? label = some place ∧
        Placement.throughPair rd ((startOf layout.descriptors place : Int) - pc)
            (fun low => .i .addi rd rd low) = .ok instructions := by
  rw [Placement.expand] at expands
  split at expands
  · cases expands
  · rename_i target isBound
    obtain ⟨group, found, rest⟩ := bind_eq_ok_iff.mp expands
    rw [Failure.ofMissing_eq_ok_iff] at found
    rw [Failure.ofRefusal_eq_ok_iff, placed target.index group found] at rest
    exact ⟨group.first, labelPlace?_eq_some_iff.mpr ⟨target, group, isBound, found, rfl⟩, rest⟩

/-- Layouts that agree expand operations alike. -/
theorem Agrees.expand_unique
    (agrees : first.Agrees second)
    (firstWellFormed : first.WellFormed)
    (firstPlaced : Placed first.groups first.descriptors)
    (secondWellFormed : second.WellFormed)
    (secondPlaced : Placed second.groups second.descriptors)
    {dataOffset : Nat}
    {scratch : Register}
    {pc : Nat}
    {operation : Operation}
    {left right : List Instruction}
    (leftExpands :
      (Placement.of first dataOffset scratch).expand pc operation = .ok left)
    (rightExpands :
      (Placement.of second dataOffset scratch).expand pc operation = .ok right) :
    right = left := by
  cases operation with
  | jump id =>
      obtain ⟨leftJump, foundLeft, leftRest⟩ := bind_eq_ok_iff.mp leftExpands
      obtain ⟨leftTarget, leftOffset, leftExpanded⟩ := bind_eq_ok_iff.mp leftRest
      obtain ⟨rightJump, foundRight, rightRest⟩ := bind_eq_ok_iff.mp rightExpands
      obtain ⟨rightTarget, rightOffset, rightExpanded⟩ := bind_eq_ok_iff.mp rightRest
      rw [Failure.ofMissing_eq_ok_iff] at foundLeft foundRight
      obtain ⟨other, foundOther, jumps⟩ := agrees.jumps.forward _ _ foundLeft
      obtain rfl : other = rightJump := Option.some.inj (foundOther.symm.trans foundRight)
      obtain ⟨leftPlace, leftAsks, rfl⟩ :=
        firstWellFormed.exists_asks firstPlaced foundLeft leftOffset
      obtain ⟨rightPlace, rightAsks, rfl⟩ :=
        secondWellFormed.exists_asks secondPlaced foundRight rightOffset
      rw [agrees.asks_unique jumps leftAsks rightAsks, agrees.descriptors,
        Placement.expandJump_congr jumps] at rightExpanded
      exact Except.ok.inj (rightExpanded.symm.trans leftExpanded)
  | labelAddress rd label =>
      obtain ⟨leftPlace, foundLeft, leftPair⟩ := exists_labelPlace? firstPlaced leftExpands
      obtain ⟨rightPlace, foundRight, rightPair⟩ := exists_labelPlace? secondPlaced rightExpands
      rw [agrees.places, foundLeft] at foundRight
      cases foundRight
      rw [agrees.descriptors] at rightPair
      exact Except.ok.inj (rightPair.symm.trans leftPair)
  | call shape =>
      cases shape <;> exact Except.ok.inj (rightExpands.symm.trans leftExpands)
  | _ =>
      exact Except.ok.inj (rightExpands.symm.trans leftExpands)

/-- Layouts that agree are written to the same code. -/
theorem Agrees.code_eq
    (agrees : first.Agrees second)
    (firstWellFormed : first.WellFormed)
    (firstPlaced : Placed first.groups first.descriptors)
    (secondWellFormed : second.WellFormed)
    (secondPlaced : Placed second.groups second.descriptors)
    {dataOffset : Nat}
    {scratch : Register}
    {left right : Array UInt8}
    (wroteLeft :
      writeGroups (Placement.of first dataOffset scratch) first.groups.toList #[] = .ok left)
    (wroteRight :
      writeGroups (Placement.of second dataOffset scratch) second.groups.toList #[] =
        .ok right) :
    right = left := by
  have atStart (descriptors : Array Descriptor) :
      (#[] : Array UInt8).size = startOf descriptors 0 :=
    (startOf_zero descriptors).symm
  have leftRun :=
    writeDescriptors_of_writeGroups firstWellFormed.partitioned.tiles (atStart _) wroteLeft
  have rightRun :=
    writeDescriptors_of_writeGroups secondWellFormed.partitioned.tiles (atStart _) wroteRight
  have sameDescriptors :
      (Placement.of second dataOffset scratch).layout.descriptors =
        (Placement.of first dataOffset scratch).layout.descriptors := agrees.descriptors
  rw [sameDescriptors] at rightRun
  refine writeDescriptors_unique ?_ leftRun rightRun
  intro pc descriptor _ leftBuffer rightBuffer leftEncoded rightEncoded
  obtain ⟨leftInstructions, leftExpands, leftWords⟩ :=
    Placement.encode_eq_ok_iff.mp leftEncoded
  obtain ⟨rightInstructions, rightExpands, rightWords⟩ :=
    Placement.encode_eq_ok_iff.mp rightEncoded
  obtain rfl :=
    agrees.expand_unique firstWellFormed firstPlaced secondWellFormed secondPlaced leftExpands
      rightExpands
  rw [leftWords] at rightWords
  cases leftBuffer
  cases rightBuffer
  cases rightWords
  rfl

/-!
## Finished code
-/

/-- Targets are at the offsets of the places where labels stand. -/
theorem Marked.mem_targetOffsets_iff
    {layout : Layout}
    (marked : layout.Marked)
    (partitioned : Partitioned layout.groups layout.descriptors)
    (placed : Placed layout.groups layout.descriptors)
    {offset : Nat} :
    offset ∈ layout.targetOffsets ↔
      ∃ label place,
        layout.labelPlace? label = some place ∧ startOf layout.descriptors place = offset := by
  rw [Layout.mem_targetOffsets_iff partitioned placed]
  constructor
  · rintro ⟨group, member, isTarget, rfl⟩
    obtain ⟨index, found⟩ := Array.mem_iff_getElem?.mp member
    obtain ⟨label, isBound⟩ := (marked index group found).mp isTarget
    refine ⟨label, group.first, ?_, (placed index group found).symm⟩
    exact labelPlace?_eq_some_iff.mpr ⟨⟨index⟩, group, isBound, found, rfl⟩
  · rintro ⟨label, place, stands, rfl⟩
    obtain ⟨target, group, isBound, found, rfl⟩ := labelPlace?_eq_some_iff.mp stands
    refine ⟨group, Array.mem_of_getElem? found, ?_, placed target.index group found⟩
    exact (marked target.index group found).mpr ⟨label, isBound⟩

/-- Layouts that agree have the same targets. -/
theorem Agrees.targetOffsets_eq
    (agrees : first.Agrees second)
    (firstRegular : first.Regular)
    (secondRegular : second.Regular) :
    second.targetOffsets = first.targetOffsets := by
  have firstPartitioned := firstRegular.wellFormed.partitioned
  have secondPartitioned := secondRegular.wellFormed.partitioned
  have firstPlaced := firstRegular.located.groups
  have secondPlaced := secondRegular.located.groups
  apply Array.toList_inj.mp
  refine List.Pairwise.eq_of_mem_iff (pairwise_targetOffsets secondPartitioned secondPlaced)
    (pairwise_targetOffsets firstPartitioned firstPlaced) ?_
  intro offset
  rw [Array.mem_toList_iff, Array.mem_toList_iff,
    Marked.mem_targetOffsets_iff firstRegular.marked firstPartitioned firstPlaced,
    Marked.mem_targetOffsets_iff secondRegular.marked secondPartitioned secondPlaced,
    agrees.descriptors]
  simp only [agrees.places]

theorem Agrees.codeSize_eq
    (agrees : first.Agrees second)
    (firstRegular : first.Regular)
    (secondRegular : second.Regular) :
    second.codeSize = first.codeSize :=
  firstRegular.located.codeSize_congr firstRegular.wellFormed secondRegular.located
    secondRegular.wellFormed agrees.descriptors

/-- Layouts that agree are written to code that differs in the offsets of groups only. -/
theorem Agrees.write_eq
    (agrees : first.Agrees second)
    (firstRegular : first.Regular)
    (secondRegular : second.Regular)
    {pool : DataPool}
    {config : Config}
    {stats : RelaxStats}
    {left right : EmittedCode}
    (wroteLeft : first.write pool config stats = .ok left)
    (wroteRight : second.write pool config stats = .ok right) :
    right = { left with groupOffsets := right.groupOffsets } := by
  have firstWellFormed := firstRegular.wellFormed
  have secondWellFormed := secondRegular.wellFormed
  have firstPlaced := firstRegular.located.groups
  have secondPlaced := secondRegular.located.groups
  obtain ⟨dataOffset, placesLeft, wroteLeft⟩ := bind_eq_ok_iff.mp wroteLeft
  obtain ⟨leftCode, leftGroups, isLeft⟩ := bind_eq_ok_iff.mp wroteLeft
  obtain ⟨rightOffset, placesRight, wroteRight⟩ := bind_eq_ok_iff.mp wroteRight
  obtain ⟨rightCode, rightGroups, isRight⟩ := bind_eq_ok_iff.mp wroteRight
  obtain rfl : rightOffset = dataOffset := by
    rw [placeData, agrees.codeSize_eq firstRegular secondRegular] at placesRight
    exact Except.ok.inj (placesRight.symm.trans placesLeft)
  obtain rfl :=
    agrees.code_eq firstWellFormed firstPlaced secondWellFormed secondPlaced leftGroups
      rightGroups
  have sameOffsets : second.descriptorOffsets = first.descriptorOffsets := by
    rw [descriptorOffsets_eq firstWellFormed.partitioned firstPlaced,
      descriptorOffsets_eq secondWellFormed.partitioned secondPlaced, agrees.descriptors]
  have sameRelocations :
      second.relocations second.descriptorOffsets =
        first.relocations first.descriptorOffsets := by
    rw [relocations, sameOffsets, agrees.descriptors]
    rfl
  have sameLabels : second.labelOffsets = first.labelOffsets := by
    rw [labelOffsets_eq firstPlaced, labelOffsets_eq secondPlaced, agrees.labels,
      agrees.descriptors]
    simp only [agrees.places]
  cases isLeft
  cases isRight
  simp only [Placement.of, sameRelocations, sameLabels,
    agrees.targetOffsets_eq firstRegular secondRegular]

end Layout

end Rv64Codegen
