import Rv64Codegen.Proofs.Constant.Synthesis
import Rv64Codegen.Proofs.Output.Jump
import Rv64Codegen.Proofs.Output.Writer
import Rv64Codegen.Proofs.Relaxation.Reach

namespace Rv64Codegen

/-!
# Operations that have words

An operation has words in exactly the size that was set aside for it, provided
that its registers have numbers, its distances can be split over a pair, and a
jump has a form that reaches its target.
-/

/-!
## Pairs
-/

/-- Both parts of a reachable distance fit their fields. -/
theorem PcRelative.exists_split
    {distance : Int}
    (reachable : Reachable distance) :
    ∃ high low,
      split distance = .ok (high, low) ∧ FitsSigned 20 high ∧ FitsSigned 12 low := by
  refine ⟨upper distance, lower distance, if_pos reachable, reachable, ?_⟩
  show -0x800 ≤ lower distance ∧ lower distance < 0x800
  unfold lower upper
  omega

theorem Instruction.encodable_auipc
    {base : Register}
    {high : Int}
    (small : base.index < 32)
    (fits : FitsSigned 20 high) :
    (Instruction.u .auipc base high).Encodable :=
  ⟨rfl, fits, small⟩

theorem Instruction.encodable_jalr
    {link base : Register}
    {low : Int}
    (linkSmall : link.index < 32)
    (baseSmall : base.index < 32)
    (fits : FitsSigned 12 low) :
    (Instruction.i .jalr link base low).Encodable :=
  ⟨rfl, fits, linkSmall, baseSmall⟩

/-- A jump through a register over a reachable distance is a pair that has words. -/
theorem PcRelative.exists_jumpThrough
    {link base : Register}
    {distance : Int}
    (linkSmall : link.index < 32)
    (baseSmall : base.index < 32)
    (reachable : Reachable distance) :
    ∃ first second,
      jumpThrough link base distance = .ok [first, second] ∧
        first.Encodable ∧ second.Encodable := by
  obtain ⟨high, low, splits, highFits, lowFits⟩ := exists_split reachable
  refine ⟨_, _, bind_eq_ok_iff.mpr ⟨(high, low), splits, rfl⟩, ?_, ?_⟩
  · exact Instruction.encodable_auipc baseSmall highFits
  · exact Instruction.encodable_jalr linkSmall baseSmall lowFits

/-- A pair over a reachable distance has words if its second instruction takes the low part. -/
theorem Placement.exists_throughPair
    {base : Register}
    {distance : Int}
    {second : Int → Instruction}
    (small : base.index < 32)
    (reachable : PcRelative.Reachable distance)
    (takes : ∀ low, FitsSigned 12 low → (second low).Encodable) :
    ∃ first last,
      throughPair base distance second = .ok [first, last] ∧
        first.Encodable ∧ last.Encodable := by
  obtain ⟨high, low, splits, highFits, lowFits⟩ := PcRelative.exists_split reachable
  refine ⟨_, _, bind_eq_ok_iff.mpr ⟨(high, low), splits, rfl⟩, ?_, takes low lowFits⟩
  exact Instruction.encodable_auipc small highFits

/-!
## Jumps
-/

section Jumps

variable
  {jump : Jump}
  {scratch : Register}
  {pc target : Nat}

/-- A branch whose form reaches its target has an encoding of its size, and words for it. -/
theorem Jump.exists_encoding_branch
    {op : Opcode}
    {rs1 rs2 : Register}
    (isKind : jump.kind = .conditional op rs1 rs2)
    (sound : jump.kind.Sound)
    (scratchSmall : scratch.index < 32)
    (even : ((target : Int) - pc) % 2 = 0)
    (reaches :
      Relaxation.Reaches jump jump.form
        ((target : Int) - (pc + jump.anchor jump.form : Nat)) 0) :
    ∃ instructions,
      jump.Encoding scratch pc target instructions ∧
        (∀ instruction ∈ instructions, instruction.Encodable) ∧
          instructions.length * 4 = jump.size := by
  have isSize : jump.size = jump.sizeOf jump.form := rfl
  have conditional : jump.isConditional = true := by
    rw [isConditional, isKind]
  rw [isKind] at sound
  obtain ⟨format, -, -, rs1Small, rs2Small⟩ := sound
  obtain ⟨opposite, inverts, oppositeFormat⟩ := Opcode.exists_inverted format
  cases form : jump.form with
  | short =>
      rw [form] at reaches isSize
      refine ⟨_, .shortBranch isKind form, ?_, isSize.symm⟩
      intro instruction member
      obtain rfl := List.mem_singleton.mp member
      refine ⟨format, even, ?_, rs1Small, rs2Small⟩
      simpa [Relaxation.Reaches, conditional, anchor] using reaches
  | near =>
      rw [form] at reaches isSize
      refine ⟨_, .nearBranch isKind form inverts, ?_, isSize.symm⟩
      intro instruction member
      simp only [List.mem_cons, List.not_mem_nil, or_false] at member
      rcases member with rfl | rfl
      · exact ⟨oppositeFormat, by decide, by decide, rs1Small, rs2Small⟩
      · refine ⟨rfl, by omega, ?_, by decide⟩
        simpa [Relaxation.Reaches, conditional, anchor] using reaches
  | far =>
      rw [form] at reaches isSize
      have reachable : PcRelative.Reachable ((target : Int) - (pc + 4 : Nat)) := by
        simpa [Relaxation.Reaches, conditional, anchor] using reaches
      obtain ⟨first, second, isPair, firstEncodable, secondEncodable⟩ :=
        PcRelative.exists_jumpThrough (show Register.zero.index < 32 by decide)
          scratchSmall reachable
      refine ⟨_, .farBranch isKind form inverts isPair, ?_, ?_⟩
      · intro instruction member
        simp only [List.mem_cons, List.not_mem_nil, or_false] at member
        rcases member with rfl | rfl | rfl
        · exact ⟨oppositeFormat, by decide, by decide, rs1Small, rs2Small⟩
        · exact firstEncodable
        · exact secondEncodable
      · rw [isSize, sizeOf, conditional]
        rfl

/-- A `jal` whose form reaches its target has an encoding of its size, and words for it. -/
theorem Jump.exists_encoding_jal
    {rd : Register}
    (isKind : jump.kind = .jal rd)
    (sound : jump.kind.Sound)
    (isForm : jump.form ∈ jump.forms)
    (scratchSmall : scratch.index < 32)
    (even : ((target : Int) - pc) % 2 = 0)
    (reaches :
      Relaxation.Reaches jump jump.form
        ((target : Int) - (pc + jump.anchor jump.form : Nat)) 0) :
    ∃ instructions,
      jump.Encoding scratch pc target instructions ∧
        (∀ instruction ∈ instructions, instruction.Encodable) ∧
          instructions.length * 4 = jump.size := by
  have isSize : jump.size = jump.sizeOf jump.form := rfl
  have unconditional : jump.isConditional = false := by
    rw [isConditional, isKind]
  rw [isKind] at sound
  obtain ⟨-, rdSmall⟩ := sound
  cases form : jump.form with
  | short =>
      rw [form] at reaches isSize
      refine ⟨_, .shortJal isKind form, ?_, isSize.symm⟩
      intro instruction member
      obtain rfl := List.mem_singleton.mp member
      refine ⟨rfl, even, ?_, rdSmall⟩
      simpa [Relaxation.Reaches, unconditional, anchor] using reaches
  | near =>
      rw [form, forms, unconditional] at isForm
      simp at isForm
  | far =>
      rw [form] at reaches isSize
      have reachable : PcRelative.Reachable ((target : Int) - pc) := by
        simpa [Relaxation.Reaches, unconditional, anchor] using reaches
      have baseSmall : (if rd.isZero then scratch else rd).index < 32 := by
        split
        · exact scratchSmall
        · exact rdSmall
      obtain ⟨first, second, isPair, firstEncodable, secondEncodable⟩ :=
        PcRelative.exists_jumpThrough rdSmall baseSmall reachable
      refine ⟨_, .farJal isKind form isPair, ?_, ?_⟩
      · intro instruction member
        simp only [List.mem_cons, List.not_mem_nil, or_false] at member
        rcases member with rfl | rfl
        · exact firstEncodable
        · exact secondEncodable
      · rw [isSize, sizeOf, unconditional]
        rfl

/-- A jump whose form reaches its target has an encoding of its size, and words for it. -/
theorem Jump.exists_encoding
    (sound : jump.kind.Sound)
    (isForm : jump.form ∈ jump.forms)
    (scratchSmall : scratch.index < 32)
    (even : ((target : Int) - pc) % 2 = 0)
    (reaches :
      Relaxation.Reaches jump jump.form
        ((target : Int) - (pc + jump.anchor jump.form : Nat)) 0) :
    ∃ instructions,
      jump.Encoding scratch pc target instructions ∧
        (∀ instruction ∈ instructions, instruction.Encodable) ∧
          instructions.length * 4 = jump.size := by
  cases isKind : jump.kind with
  | conditional op rs1 rs2 =>
      exact exists_encoding_branch isKind sound scratchSmall even reaches
  | jal rd =>
      exact exists_encoding_jal isKind sound isForm scratchSmall even reaches

end Jumps

/-!
## Operations
-/

namespace Placement

/-- An operation at an offset has words, of the given size. -/
def Writes
    (placement : Placement)
    (pc : Nat)
    (operation : Operation)
    (size : Nat) :
    Prop :=
  ∃ buffer, placement.encode pc operation = .ok buffer ∧ buffer.byteLength = size

theorem writes_of_expand
    {placement : Placement}
    {pc size : Nat}
    {operation : Operation}
    {instructions : List Instruction}
    (expanded : placement.expand pc operation = .ok instructions)
    (encodable : ∀ instruction ∈ instructions, instruction.Encodable)
    (few : instructions.length ≤ 9)
    (sized : instructions.length * 4 = size) :
    placement.Writes pc operation size := by
  obtain ⟨words, encoded⟩ := Instruction.exists_encodeAll encodable
  have length := Instruction.length_of_encodeAll encoded
  refine ⟨⟨words, by rw [length]; exact few⟩, ?_, ?_⟩
  · exact encode_eq_ok_iff.mpr ⟨instructions, expanded, encoded⟩
  · rw [WordBuffer.byteLength, length, sized]

end Placement

/-- In a layout with everything in place, a jump that reaches its target has words. -/
theorem Layout.Reached.writes
    {layout : Layout}
    {id : Nat}
    {jump : Jump}
    (reached : layout.Reached jump)
    (wellFormed : layout.WellFormed)
    (located : layout.Located)
    (found : layout.jumps[id]? = some jump)
    (dataOffset : Nat)
    {scratch : Register}
    (scratchSmall : scratch.index < 32) :
    (Placement.of layout dataOffset scratch).Writes
      (startOf layout.descriptors jump.descriptor) (.jump ⟨id⟩) jump.size := by
  obtain ⟨resolved, place, isResolved, aims, -, reaches⟩ := reached
  obtain ⟨-, -, sound, isForm, -, -⟩ := wellFormed.holds id jump found
  have pcAligned := wellFormed.startOf_mod_four jump.descriptor
  have targetAligned := wellFormed.startOf_mod_four place
  obtain ⟨instructions, encoding, encodable, size⟩ :=
    Jump.exists_encoding sound isForm scratchSmall (by omega) reaches
  have sizes := (jump.size_bounds jump.form).2.1
  refine Placement.writes_of_expand ?_ encodable ?_ size
  · refine bind_eq_ok_iff.mpr ⟨jump, Failure.ofMissing_eq_ok_iff.mpr found, ?_⟩
    refine bind_eq_ok_iff.mpr ⟨startOf layout.descriptors place, ?_, ?_⟩
    · exact wellFormed.targetOffset_eq located.groups dataOffset scratch found isResolved aims
    · exact Failure.ofRefusal_eq_ok_iff.mpr
        ((Placement.expandJump_eq_ok_iff sound isForm).mpr encoding)
  · have isSize : jump.size = jump.sizeOf jump.form := rfl
    omega

end Rv64Codegen
