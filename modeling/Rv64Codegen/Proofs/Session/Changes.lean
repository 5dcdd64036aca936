import Mathlib.Logic.Relation
import Rv64Codegen.Proofs.Constant.Synthesis
import Rv64Codegen.Proofs.Relaxation.Visit
import Rv64Codegen.Proofs.Session.Actions

namespace Rv64Codegen

/-!
# What commands do to a session

Every command takes a session through a few kinds of changes, whether it is
carried out or refused.  The changes say all that the later proofs need to know:
what is appended has passed its checks and found room, and labels are bound once and
in front of an empty group.  What happens to the data pool is left open.
-/

/-- The registers that an instruction names. -/
def Instruction.registers : Instruction → List Register
  | .r _ rd rs1 rs2 => [rd, rs1, rs2]
  | .i _ rd rs1 _ => [rd, rs1]
  | .s _ rs2 rs1 _ => [rs2, rs1]
  | .u _ rd _ => [rd]
  | .b _ rs1 rs2 _ => [rs1, rs2]
  | .j _ rd _ => [rd]

/-- The registers that a call names. -/
def CallShape.registers : CallShape → List Register
  | .indirect link base _ => [link, base]
  | .relocated link scratch _ _ => [link, scratch]
  | .absolute link scratch _ => [link, scratch]
  | .pooled link scratch _ => [link, scratch]

/-- The registers that an operation names; those of a jump are in the jump list. -/
def Operation.registers : Operation → List Register
  | .instruction plain => plain.registers
  | .jump _ => []
  | .loadConstant rd _ => [rd]
  | .call shape => shape.registers
  | .dataLoad _ rd base _ => [rd, base]
  | .labelAddress rd _ => [rd]
  | .relocatedAddress rd _ _ _ => [rd]

/-- The registers that a jump names. -/
def JumpKind.registers : JumpKind → List Register
  | .conditional _ rs1 rs2 => [rs1, rs2]
  | .jal rd => [rd]

/-- The registers that a configuration sets aside. -/
def Config.registers (config : Config) : List Register :=
  [config.longJumpScratch, config.callScratch, config.reservedScratch]

/-- The registers that a call target names. -/
def CallTarget.registers : CallTarget → List Register
  | .register base _ => [base]
  | .relocated _ _ => []
  | .absolute _ => []

/-- The registers that a command names. -/
def Command.registers : Command → List Register
  | .register _ rd rs1 rs2 => [rd, rs1, rs2]
  | .immediate _ rd rs1 _ => [rd, rs1]
  | .shift _ rd rs1 _ => [rd, rs1]
  | .store _ rs2 rs1 _ => [rs2, rs1]
  | .upper _ rd _ => [rd]
  | .move rd rs _ => [rd, rs]
  | .branch _ rs1 rs2 _ => [rs1, rs2]
  | .branchRelative _ rs1 rs2 _ => [rs1, rs2]
  | .jal rd _ => [rd]
  | .loadConstant rd _ => [rd]
  | .call link target => link :: target.registers
  | .dataLoad _ rd _ => [rd]
  | .labelAddress rd _ => [rd]
  | .relocatedAddress rd _ _ _ => [rd]
  | _ => []

/-- A sequence that synthesis has found for some constant. -/
def Constant.Synthesized (sequence : Sequence) : Prop :=
  ∃ value minSpan, synthesize value minSpan = some sequence

/-- A jump that is the same for the program; it may have been asked to be far since. -/
structure Jump.Persists (before after : Jump) : Prop where
  kind : after.kind = before.kind
  target : after.target = before.target
  group : after.group = before.group
  descriptor : after.descriptor = before.descriptor
  keepLong : before.keepLong = true → after.keepLong = true

theorem Jump.Persists.refl (jump : Jump) :
    jump.Persists jump :=
  ⟨rfl, rfl, rfl, rfl, fun isKept => isKept⟩

theorem Jump.Persists.trans
    {first second third : Jump}
    (early : first.Persists second)
    (late : second.Persists third) :
    first.Persists third where
  kind := late.kind.trans early.kind
  target := late.target.trans early.target
  group := late.group.trans early.group
  descriptor := late.descriptor.trans early.descriptor
  keepLong := fun isKept => late.keepLong (early.keepLong isKept)

namespace Layout

/-- A new group has no descriptors. -/
theorem currentCount_openGroup (layout : Layout) :
    layout.openGroup.currentCount = 0 := by
  unfold openGroup currentCount
  dsimp only
  rw [Array.back?_push]
  cases layout.groups.back? with
  | none =>
      rfl
  | some group =>
      rfl

/-- What has been written stays where it is: descriptors, jumps, groups and bound labels. -/
structure Keeps (before after : Layout) : Prop where
  descriptors :
    ∀ (index : Nat) (descriptor : Descriptor),
      before.descriptors[index]? = some descriptor →
        ∃ later,
          after.descriptors[index]? = some later ∧
            later.operation = descriptor.operation
  jumps :
    ∀ (id : Nat) (jump : Jump),
      before.jumps[id]? = some jump →
        ∃ later, after.jumps[id]? = some later ∧ jump.Persists later
  groups :
    ∀ (index : Nat) (group : Group),
      before.groups[index]? = some group →
        ∃ later, after.groups[index]? = some later ∧
          later.first = group.first ∧ group.count ≤ later.count
  labels :
    ∀ (label : LabelId) (group : GroupId),
      before.labelGroup? label = some group → after.labelGroup? label = some group

namespace Keeps

theorem refl (layout : Layout) :
    layout.Keeps layout where
  descriptors := fun _ descriptor found => ⟨descriptor, found, rfl⟩
  jumps := fun _ jump found => ⟨jump, found, .refl jump⟩
  groups := fun _ group found => ⟨group, found, rfl, Nat.le_refl _⟩
  labels := fun _ _ isBound => isBound

theorem trans
    {first second third : Layout}
    (early : first.Keeps second)
    (late : second.Keeps third) :
    first.Keeps third where
  descriptors := by
    intro index descriptor found
    obtain ⟨middle, foundMiddle, toMiddle⟩ := early.descriptors index descriptor found
    obtain ⟨later, foundLater, fromMiddle⟩ := late.descriptors index middle foundMiddle
    exact ⟨later, foundLater, fromMiddle.trans toMiddle⟩
  jumps := by
    intro id jump found
    obtain ⟨middle, foundMiddle, toMiddle⟩ := early.jumps id jump found
    obtain ⟨later, foundLater, fromMiddle⟩ := late.jumps id middle foundMiddle
    exact ⟨later, foundLater, toMiddle.trans fromMiddle⟩
  groups := by
    intro index group found
    obtain ⟨middle, foundMiddle, first, more⟩ := early.groups index group found
    obtain ⟨later, foundLater, laterFirst, evenMore⟩ := late.groups index middle foundMiddle
    exact ⟨later, foundLater, laterFirst.trans first, Nat.le_trans more evenMore⟩
  labels := fun label group isBound => late.labels label group (early.labels label group isBound)

theorem addLabel (layout : Layout) :
    layout.Keeps layout.addLabel :=
  { refl layout with
    labels := fun label _ isBound => (labelGroup?_addLabel layout label).trans isBound }

theorem bindLabel
    {layout : Layout}
    {label : LabelId}
    (unbound : layout.labels[label.index]? = some none)
    (group : GroupId) :
    layout.Keeps (layout.bindLabel label group) :=
  have marked :
      Pointwise (fun old new : Group => new.first = old.first ∧ old.count ≤ new.count)
        layout.groups (layout.groups.modify group.index ({ · with isTarget := true })) :=
    Pointwise.modify (fun _ => ⟨rfl, Nat.le_refl _⟩) _ _ fun _ _ => ⟨rfl, Nat.le_refl _⟩
  { refl layout with
    groups := marked.forward
    labels := fun _ _ isBound => labelGroup?_bindLabel_of_some unbound isBound }

theorem push
    (layout : Layout)
    (descriptor : Descriptor) :
    layout.Keeps (layout.push descriptor) :=
  { refl layout with
    descriptors := fun _ old found => ⟨old, getElem?_push_of_some descriptor found, rfl⟩
    groups := fun _ _ found => getElem?_push_groups descriptor found }

theorem openGroup
    {layout : Layout}
    (wellFormed : layout.WellFormed) :
    layout.Keeps layout.openGroup := by
  obtain ⟨final, foundFinal⟩ := wellFormed.partitioned.exists_last
  rw [openGroup_eq foundFinal]
  exact {
    refl layout with
    groups := fun _ group found => ⟨group, getElem?_push_of_some _ found, rfl, Nat.le_refl _⟩ }

theorem keepLong
    (layout : Layout)
    (index : Nat) :
    layout.Keeps
      { layout with jumps := layout.jumps.modify index ({ · with keepLong := true }) } :=
  have marked :
      Pointwise Jump.Persists
        layout.jumps (layout.jumps.modify index ({ · with keepLong := true })) :=
    Pointwise.modify Jump.Persists.refl _ _ fun _ _ => ⟨rfl, rfl, rfl, rfl, fun _ => rfl⟩
  { refl layout with jumps := marked.forward }

theorem pushFresh
    (layout : Layout)
    (kind : JumpKind)
    (target : JumpTarget) :
    layout.Keeps (layout.pushFresh kind target) :=
  { push layout (Descriptor.ofOperation (.jump ⟨layout.jumps.size⟩)) with
    jumps := fun _ jump found => ⟨jump, getElem?_push_of_some _ found, .refl jump⟩ }

theorem of_evolves
    {before after : Layout}
    (evolves : before.Evolves after) :
    before.Keeps after where
  descriptors := by
    intro index descriptor found
    obtain ⟨later, foundLater, operation, -⟩ :=
      evolves.descriptors.forward index descriptor found
    exact ⟨later, foundLater, operation⟩
  jumps := by
    intro id jump found
    obtain ⟨later, foundLater, evolved⟩ := evolves.jumps.forward id jump found
    exact ⟨later, foundLater, evolved.kind, evolved.target, evolved.group, evolved.descriptor,
      fun isKept => evolved.keepLong.trans isKept⟩
  groups := by
    intro index group found
    obtain ⟨later, foundLater, first, count, -⟩ := evolves.groups.forward index group found
    exact ⟨later, foundLater, first, Nat.le_of_eq count.symm⟩
  labels := by
    intro label group isBound
    rw [labelGroup?, evolves.labels]
    exact isBound

end Keeps

end Layout

namespace Session

/-- What the changes of a session keep to. -/
structure Terms where
  /-- The registers that operations name, next to those that are set aside. -/
  named : Register → Prop := fun _ => True
  /-- The ends of the slots of the data pool that operations name. -/
  extent : Nat → Prop := fun _ => True
  /-- The answers of relaxation. -/
  accepts : Except Failure RelaxStats → Prop := fun _ => True

variable
  {terms : Terms}

/-- What the checks in front of appending establish about an operation. -/
def Admits (session : Session) (extent : Nat → Prop) : Operation → Prop
  | .instruction instruction =>
      instruction.Encodable
  | .jump _ =>
      False
  | .loadConstant rd sequence =>
      rd.file = .int ∧ rd.index ≠ 0 ∧ Constant.Synthesized sequence
  | .call (.indirect link base offset) =>
      (Instruction.i .jalr link base offset).Encodable
  | .call (.relocated ..) =>
      True
  | .call (.absolute _ _ sequence) =>
      Constant.Synthesized sequence
  | .call (.pooled _ _ slot) =>
      extent (slot + 8)
  | .dataLoad op _ _ slot =>
      ∃ width, op.loadWidth? = some width ∧ extent (slot + width)
  | .labelAddress _ label =>
      label.index < session.layout.labels.size
  | .relocatedAddress _ _ kind _ =>
      kind ≠ .call

/-- An operation has passed its checks, and names registers that it may name. -/
def Approves
    (session : Session)
    (terms : Terms)
    (operation : Operation) :
    Prop :=
  session.Admits terms.extent operation ∧
    ∀ register ∈ operation.registers,
      terms.named register ∨ register ∈ session.config.registers ∨ register = .zero

/-- One change of a session, on some terms. -/
inductive Change (terms : Terms) : Session → Session → Prop where
  | addLabel
      (session : Session) :
      Change terms session { session with layout := session.layout.addLabel }
  | openGroup
      (session : Session) :
      Change terms session { session with layout := session.layout.openGroup }
  | bindLabel
      (session : Session)
      (label : LabelId)
      (unbound : session.layout.labels[label.index]? = some none)
      (here : session.layout.currentCount = 0) :
      Change terms session
        { session with layout := session.layout.bindLabel label session.layout.current }
  | setRegion
      (session : Session)
      (region : Region) :
      Change terms session { session with region := region }
  | setPool
      (session : Session)
      (pool : DataPool) :
      Change terms session { session with pool := pool }
  | operation
      (session : Session)
      (operation : Operation)
      (approves : session.Approves terms operation)
      (room : session.HasRoom operation) :
      Change terms session
        { session with layout := session.layout.push (Descriptor.ofOperation operation) }
  | jump
      (session : Session)
      (kind : JumpKind)
      (target : JumpTarget)
      (sound : kind.Sound)
      (room : session.HasRoom (.jump ⟨session.layout.jumps.size⟩)) :
      Change terms session
        { session with layout := session.layout.pushFresh kind target }
  | keepLong
      (session : Session)
      (id : JumpId) :
      Change terms session (session.keepLong id)
  | relax
      (session : Session)
      (accepted : terms.accepts session.relax.1) :
      Change terms session session.relax.2

/-- Any number of changes. -/
abbrev Changes (terms : Terms) : Session → Session → Prop :=
  Relation.ReflTransGen (Change terms)

end Session

/-!
## Checked requests
-/

namespace Request

theorem requireFile_eq_ok_iff
    {op : Opcode}
    {slot : String}
    {register : Register}
    {file : RegisterFile}
    {done : Unit} :
    requireFile op slot register file = .ok done ↔ register.file = file := by
  unfold requireFile
  split
  · rename_i isFile
    simp [isFile]
  · rename_i notFile
    simp [notFile]

theorem requireFormat_eq_ok_iff
    {op : Opcode}
    {format : Format}
    {done : Unit} :
    requireFormat op format = .ok done ↔ op.format = format := by
  unfold requireFormat
  split
  · rename_i isFormat
    simp [isFormat]
  · rename_i notFormat
    simp [notFormat]

theorem encodable_eq_ok_iff
    {instruction : Instruction}
    {operation : Operation} :
    encodable instruction = .ok operation ↔
      instruction.Encodable ∧ operation = .instruction instruction := by
  rw [encodable, bind_eq_ok_iff, ← Instruction.exists_encode_iff]
  constructor
  · rintro ⟨word, encoded, isOperation⟩
    cases isOperation
    exact ⟨⟨word, encoded⟩, rfl⟩
  · rintro ⟨⟨word, encoded⟩, rfl⟩
    exact ⟨word, encoded, rfl⟩

/-- A checked register-register instruction. -/
theorem register_eq_ok
    {op : Opcode}
    {rd rs1 rs2 : Register}
    {operation : Operation}
    (checked : register op rd rs1 rs2 = .ok operation) :
    ∃ second, operation = .instruction (.r op rd rs1 second) ∧
      (Instruction.r op rd rs1 second).Encodable ∧ (second = rs2 ∨ second = .zero) := by
  unfold register at checked
  simp only [bind_eq_ok_iff] at checked
  obtain ⟨-, -, -, -, -, -, rest⟩ := checked
  split at rest
  · obtain ⟨encodes, rfl⟩ := encodable_eq_ok_iff.mp rest
    exact ⟨.zero, rfl, encodes, Or.inr rfl⟩
  · rw [bind_eq_ok_iff] at rest
    obtain ⟨-, -, rest⟩ := rest
    obtain ⟨encodes, rfl⟩ := encodable_eq_ok_iff.mp rest
    exact ⟨rs2, rfl, encodes, Or.inl rfl⟩

/-- A checked register-immediate instruction. -/
theorem immediate_eq_ok
    {op : Opcode}
    {rd rs1 : Register}
    {imm : Int}
    {operation : Operation}
    (checked : immediate op rd rs1 imm = .ok operation) :
    operation = .instruction (.i op rd rs1 imm) ∧
      (Instruction.i op rd rs1 imm).Encodable := by
  unfold immediate at checked
  simp only [bind_eq_ok_iff] at checked
  obtain ⟨-, -, -, -, -, -, rest⟩ := checked
  obtain ⟨encodes, rfl⟩ := encodable_eq_ok_iff.mp rest
  exact ⟨rfl, encodes⟩

theorem shift_eq_ok
    {op : Opcode}
    {rd rs1 : Register}
    {amount : Nat}
    {operation : Operation}
    (checked : shift op rd rs1 amount = .ok operation) :
    operation = .instruction (.i op rd rs1 amount) ∧
      (Instruction.i op rd rs1 amount).Encodable := by
  unfold shift at checked
  split at checked
  · exact immediate_eq_ok checked
  · cases checked

theorem store_eq_ok
    {op : Opcode}
    {rs2 rs1 : Register}
    {imm : Int}
    {operation : Operation}
    (checked : store op rs2 rs1 imm = .ok operation) :
    operation = .instruction (.s op rs2 rs1 imm) ∧
      (Instruction.s op rs2 rs1 imm).Encodable := by
  unfold store at checked
  simp only [bind_eq_ok_iff] at checked
  obtain ⟨-, -, -, -, -, -, rest⟩ := checked
  obtain ⟨encodes, rfl⟩ := encodable_eq_ok_iff.mp rest
  exact ⟨rfl, encodes⟩

theorem upper_eq_ok
    {op : Opcode}
    {rd : Register}
    {imm : Int}
    {operation : Operation}
    (checked : upper op rd imm = .ok operation) :
    operation = .instruction (.u op rd imm) ∧ (Instruction.u op rd imm).Encodable := by
  unfold upper at checked
  simp only [bind_eq_ok_iff] at checked
  obtain ⟨-, -, -, -, rest⟩ := checked
  obtain ⟨encodes, rfl⟩ := encodable_eq_ok_iff.mp rest
  exact ⟨rfl, encodes⟩

/-- A checked move is one instruction over its two registers. -/
theorem move_eq_ok
    {rd rs : Register}
    {width : MoveWidth}
    {operation : Operation}
    (checked : move rd rs width = .ok operation) :
    ∃ instruction, operation = .instruction instruction ∧ instruction.Encodable ∧
      ∀ named ∈ instruction.registers, named ∈ [rd, rs] ∨ named = .zero := by
  have viaImmediate
      {op : Opcode}
      (isImmediate : immediate op rd rs 0 = .ok operation) :
      ∃ instruction, operation = .instruction instruction ∧ instruction.Encodable ∧
        ∀ named ∈ instruction.registers, named ∈ [rd, rs] ∨ named = .zero := by
    obtain ⟨rfl, encodes⟩ := immediate_eq_ok isImmediate
    exact ⟨_, rfl, encodes, fun named member => Or.inl member⟩
  have viaRegister
      {op : Opcode}
      {rs2 : Register}
      (isSource : rs2 = rs ∨ rs2 = .zero)
      (isRegister : register op rd rs rs2 = .ok operation) :
      ∃ instruction, operation = .instruction instruction ∧ instruction.Encodable ∧
        ∀ named ∈ instruction.registers, named ∈ [rd, rs] ∨ named = .zero := by
    obtain ⟨second, rfl, encodes, isSecond⟩ := register_eq_ok isRegister
    refine ⟨_, rfl, encodes, ?_⟩
    intro named member
    simp only [Instruction.registers, List.mem_cons, List.not_mem_nil, or_false] at member ⊢
    rcases member with rfl | rfl | rfl
    · exact Or.inl (Or.inl rfl)
    · exact Or.inl (Or.inr rfl)
    · rcases isSecond with rfl | isZero
      · rcases isSource with rfl | isZero
        · exact Or.inl (Or.inr rfl)
        · exact Or.inr isZero
      · exact Or.inr isZero
  unfold move at checked
  split at checked
  · exact viaImmediate checked
  · exact viaImmediate checked
  · exact viaRegister (Or.inl rfl) checked
  · exact viaRegister (Or.inl rfl) checked
  all_goals exact viaRegister (Or.inr rfl) checked

/-- A checked branch has integer operands that fit. -/
theorem branch_eq_ok
    {op : Opcode}
    {rs1 rs2 : Register}
    {kind : JumpKind}
    (checked : branch op rs1 rs2 = .ok kind) :
    kind = .conditional op rs1 rs2 ∧ kind.Sound := by
  unfold branch at checked
  simp only [bind_eq_ok_iff, requireFile_eq_ok_iff, requireFormat_eq_ok_iff] at checked
  obtain ⟨-, isBranch, -, firstFile, -, secondFile, word, encoded, isKind⟩ := checked
  cases isKind
  obtain ⟨-, -, -, firstFits, secondFits⟩ := (Instruction.encode_eq_ok_iff.mp encoded).1
  exact ⟨rfl, isBranch, firstFile, secondFile, firstFits, secondFits⟩

theorem jal_eq_ok
    {rd : Register}
    {kind : JumpKind}
    (checked : jal rd = .ok kind) :
    kind = .jal rd ∧ kind.Sound := by
  unfold jal at checked
  simp only [bind_eq_ok_iff, requireFile_eq_ok_iff] at checked
  obtain ⟨-, isInteger, word, encoded, isKind⟩ := checked
  cases isKind
  obtain ⟨-, -, -, fits⟩ := (Instruction.encode_eq_ok_iff.mp encoded).1
  exact ⟨rfl, isInteger, fits⟩

/-- A constant goes into an integer register other than zero. -/
theorem constantDestination_eq_ok
    {rd : Register}
    {done : Unit}
    (checked : constantDestination rd = .ok done) :
    rd.file = .int ∧ rd.index ≠ 0 := by
  unfold constantDestination at checked
  simp only [bind_eq_ok_iff, requireFile_eq_ok_iff] at checked
  obtain ⟨-, isInteger, rest⟩ := checked
  split at rest
  · cases rest
  · rename_i notZero
    refine ⟨isInteger, ?_⟩
    intro isZero
    apply notZero
    have number : rd.number = 0 := UInt8.toNat_inj.mp isZero
    simp [Register.isZero, isInteger, number]

theorem relocatedAddress_eq_ok
    {rd : Register}
    {target : RelocationTarget}
    {kind : RelocationKind}
    {addend : Int64}
    {operation : Operation}
    (checked : relocatedAddress rd target kind addend = .ok operation) :
    operation = .relocatedAddress rd target kind addend ∧ kind ≠ .call := by
  unfold relocatedAddress at checked
  simp only [bind_eq_ok_iff] at checked
  obtain ⟨-, -, rest⟩ := checked
  split at rest
  · cases rest
  · split at rest
    · cases rest
    · rename_i notCall
      cases rest
      exact ⟨rfl, notCall⟩

end Request

namespace Session

variable
  {terms : Terms}

/-!
## Appending
-/

theorem append_changes
    {session : Session}
    {operation : Operation}
    (approves : session.Approves terms operation) :
    Changes terms session (session.append operation).2 := by
  rcases session.append_cases operation with ⟨failure, fails⟩ | ⟨room, appends⟩
  · rw [fails]
  · rw [appends]
    exact Relation.ReflTransGen.single (.operation session operation approves room)

theorem appendChecked_changes
    {session : Session}
    {checked : Except EmissionError Operation}
    (approves : ∀ operation, checked = .ok operation → session.Approves terms operation) :
    Changes terms session (session.appendChecked checked).2 := by
  rcases session.appendChecked_cases checked with
    ⟨failure, fails⟩ | ⟨operation, isChecked, room, appends⟩
  · rw [fails]
  · rw [appends]
    exact Relation.ReflTransGen.single
      (.operation session operation (approves operation isChecked) room)

theorem appendJumpChecked_changes
    {session : Session}
    {checked : Except EmissionError JumpKind}
    (sound : ∀ kind, checked = .ok kind → kind.Sound)
    (target : JumpTarget) :
    Changes terms session (session.appendJumpChecked checked target).2 := by
  rcases session.appendJumpChecked_cases checked target with
    ⟨failure, fails⟩ | ⟨kind, isChecked, room, appends⟩
  · rw [fails]
  · rw [appends]
    exact Relation.ReflTransGen.single (.jump session kind target (sound kind isChecked) room)

/-- A jump that is accepted gets the next number and the kind that was checked. -/
theorem appendJumpChecked_eq_ok
    {session : Session}
    {checked : Except EmissionError JumpKind}
    {target : JumpTarget}
    {id : JumpId}
    (accepted : (session.appendJumpChecked checked target).1 = .ok id) :
    ∃ kind,
      checked = .ok kind ∧ id = ⟨session.layout.jumps.size⟩ ∧
        (session.appendJumpChecked checked target).2 =
          { session with layout := session.layout.pushFresh kind target } := by
  rcases session.appendJumpChecked_cases checked target with
    ⟨failure, fails⟩ | ⟨kind, isChecked, -, appends⟩
  · rw [fails] at accepted
    cases accepted
  · rw [appends] at accepted ⊢
    cases accepted
    exact ⟨kind, isChecked, rfl, rfl⟩

/-- An operation on a pool slot is appended with the slot, which may stay where it is not. -/
theorem appendPooled_changes
    {session : Session}
    {value : UInt64}
    {operation : Nat → Operation}
    (within : (session.appendPooled value operation).2.pool.Within terms.extent)
    (approves :
      ∀ slot, terms.extent (slot + 8) → session.Approves terms (operation slot)) :
    Changes terms session (session.appendPooled value operation).2 := by
  have pooled := session.pooled_appendPooled value operation
  generalize session.appendPooled value operation = outcome at within pooled ⊢
  cases pooled with
  | refused =>
      exact Relation.ReflTransGen.refl
  | @appended slot pool interns room =>
      have approved := approves slot (within.constants value slot (DataPool.mem_of_intern interns))
      exact Relation.ReflTransGen.head (.setPool session pool)
        (Relation.ReflTransGen.single (.operation _ (operation slot) approved ⟨room.1, room.2⟩))
  | @full slot pool =>
      exact Relation.ReflTransGen.single (.setPool session pool)
  | broken =>
      exact Relation.ReflTransGen.refl

theorem append_pool
    (session : Session)
    (operation : Operation) :
    (session.append operation).2.pool = session.pool := by
  rcases session.append_cases operation with ⟨failure, fails⟩ | ⟨-, appends⟩
  · rw [fails]
  · rw [appends]

theorem appendChecked_pool
    (session : Session)
    (checked : Except EmissionError Operation) :
    (session.appendChecked checked).2.pool = session.pool := by
  rcases session.appendChecked_cases checked with ⟨failure, fails⟩ | ⟨operation, -, -, appends⟩
  · rw [fails]
  · rw [appends]

theorem appendJumpChecked_pool
    (session : Session)
    (checked : Except EmissionError JumpKind)
    (target : JumpTarget) :
    (session.appendJumpChecked checked target).2.pool = session.pool := by
  rcases session.appendJumpChecked_cases checked target with
    ⟨failure, fails⟩ | ⟨kind, -, -, appends⟩
  · rw [fails]
  · rw [appends]

theorem bindLabel_pool
    (session : Session)
    (label : LabelId) :
    (session.bindLabel label).2.pool = session.pool := by
  unfold bindLabel
  split <;> rfl

/-!
## Commands
-/

/-- An instruction over registers that a command names may be appended. -/
theorem approves_instruction
    {session : Session}
    {operation : Operation}
    {instruction : Instruction}
    (isInstruction : operation = .instruction instruction)
    (encodes : instruction.Encodable)
    (registers : ∀ register ∈ instruction.registers, terms.named register ∨ register = .zero) :
    session.Approves terms operation := by
  subst isInstruction
  refine ⟨encodes, ?_⟩
  intro register member
  rcases registers register member with isNamed | isZero
  · exact Or.inl isNamed
  · exact Or.inr (Or.inr isZero)

theorem pooledLoad_eq_ok
    {session : Session}
    {op : Opcode}
    {rd : Register}
    {slot : Nat}
    {operation : Operation}
    (checked : session.pooledLoad op rd slot = .ok operation) :
    let base := if rd.isFloat then session.config.reservedScratch else rd
    operation = .dataLoad op rd base slot ∧ session.reachesPool = true ∧
      rd.file = op.operandFiles.rd ∧ rd.isZero = false ∧
        ∃ width, op.loadWidth? = some width ∧ slot + width ≤ session.pool.bytes.size := by
  unfold pooledLoad at checked
  split at checked
  · cases checked
  · rename_i width isWidth
    split at checked
    · rename_i reaches
      simp only [bind_eq_ok_iff, Request.requireFile_eq_ok_iff] at checked
      obtain ⟨-, isFile, rest⟩ := checked
      split at rest
      · cases rest
      · rename_i notZero
        split at rest
        · cases rest
        · rename_i inside
          cases rest
          exact ⟨rfl, reaches, isFile, Bool.eq_false_of_not_eq_true notZero, width, isWidth,
            Nat.le_of_not_lt inside⟩
    · cases checked

theorem labelAddress_eq_ok
    {session : Session}
    {rd : Register}
    {label : LabelId}
    {operation : Operation}
    (checked : session.labelAddress rd label = .ok operation) :
    operation = .labelAddress rd label ∧ label.index < session.layout.labels.size := by
  unfold labelAddress at checked
  simp only [bind_eq_ok_iff] at checked
  obtain ⟨-, -, rest⟩ := checked
  split at rest
  · rename_i inside
    cases rest
    exact ⟨rfl, inside⟩
  · cases rest

theorem indirectCall_eq_ok
    {link base : Register}
    {offset : Int}
    {operation : Operation}
    (checked : indirectCall link base offset = .ok operation) :
    operation = .call (.indirect link base offset) ∧
      (Instruction.i .jalr link base offset).Encodable := by
  unfold indirectCall at checked
  simp only [bind_eq_ok_iff] at checked
  obtain ⟨-, -, word, encoded, isOperation⟩ := checked
  cases isOperation
  exact ⟨rfl, (Instruction.encode_eq_ok_iff.mp encoded).1⟩

/-- A plan for a constant uses the sequence that synthesis finds. -/
theorem plan_eq_inline
    {value : Int64}
    {limits : ConstantLimits}
    {poolAllowed : Bool}
    {sequence : Sequence}
    (plans : Constant.plan value limits poolAllowed = .ok (.inline sequence)) :
    Constant.synthesize value limits.srliMinSpan = some sequence := by
  unfold Constant.plan at plans
  split at plans
  · cases plans
  · rename_i found isFound
    split at plans
    · split at plans
      · cases plans
      · cases plans
        exact isFound
    · split at plans
      · cases plans
      · cases plans
        exact isFound

/-- A link and the scratch register of calls may be named. -/
theorem approves_link
    {session : Session}
    {link register : Register}
    (isNamed : terms.named link)
    (member : register ∈ [link, session.config.callScratch]) :
    terms.named register ∨ register ∈ session.config.registers ∨ register = .zero := by
  simp only [List.mem_cons, List.not_mem_nil, or_false] at member
  rcases member with rfl | rfl
  · exact Or.inl isNamed
  · exact Or.inr (Or.inl (by simp [Config.registers]))

/-- The operation that a command asks for may be appended. -/
theorem approves_of_action
    {session : Session}
    {command : Command}
    {operation : Operation}
    (isNamed : ∀ register ∈ command.registers, terms.named register)
    (within : session.pool.Within terms.extent)
    (isAction : session.action command = .operation (.ok operation)) :
    session.Approves terms operation := by
  cases command with
  | register op rd rs1 rs2 =>
      injection isAction with request
      obtain ⟨second, isInstruction, encodes, isSecond⟩ := Request.register_eq_ok request
      refine approves_instruction isInstruction encodes ?_
      intro register member
      simp only [Instruction.registers, List.mem_cons, List.not_mem_nil, or_false] at member
      rcases member with rfl | rfl | rfl
      · exact Or.inl (isNamed _ (by simp [Command.registers]))
      · exact Or.inl (isNamed _ (by simp [Command.registers]))
      · rcases isSecond with rfl | isZero
        · exact Or.inl (isNamed _ (by simp [Command.registers]))
        · exact Or.inr isZero
  | immediate op rd rs1 imm =>
      injection isAction with request
      obtain ⟨isInstruction, encodes⟩ := Request.immediate_eq_ok request
      exact approves_instruction isInstruction encodes
        fun register member => Or.inl (isNamed register member)
  | shift op rd rs1 amount =>
      injection isAction with request
      obtain ⟨isInstruction, encodes⟩ := Request.shift_eq_ok request
      exact approves_instruction isInstruction encodes
        fun register member => Or.inl (isNamed register member)
  | store op rs2 rs1 imm =>
      injection isAction with request
      obtain ⟨isInstruction, encodes⟩ := Request.store_eq_ok request
      exact approves_instruction isInstruction encodes
        fun register member => Or.inl (isNamed register member)
  | upper op rd imm =>
      injection isAction with request
      obtain ⟨isInstruction, encodes⟩ := Request.upper_eq_ok request
      exact approves_instruction isInstruction encodes
        fun register member => Or.inl (isNamed register member)
  | move rd rs width =>
      injection isAction with request
      obtain ⟨instruction, isInstruction, encodes, uses⟩ := Request.move_eq_ok request
      refine approves_instruction isInstruction encodes ?_
      intro register member
      rcases uses register member with inMove | isZero
      · exact Or.inl (isNamed register inMove)
      · exact Or.inr isZero
  | call link target =>
      cases target with
      | register base offset =>
          injection isAction with request
          obtain ⟨-, -, request⟩ := bind_eq_ok_iff.mp request
          obtain ⟨rfl, encodes⟩ := indirectCall_eq_ok request
          exact ⟨encodes, fun register member => Or.inl (isNamed register member)⟩
      | relocated symbol addend =>
          injection isAction with request
          obtain ⟨-, -, request⟩ := bind_eq_ok_iff.mp request
          cases request
          exact ⟨trivial, fun register =>
            approves_link (isNamed link (by simp [Command.registers]))⟩
      | absolute address =>
          cases isAction
  | dataLoad op rd slot =>
      injection isAction with request
      obtain ⟨rfl, -, -, -, width, isWidth, inside⟩ := pooledLoad_eq_ok request
      have rdNamed : terms.named rd := isNamed rd (by simp [Command.registers])
      refine ⟨⟨width, isWidth, within.bytes _ inside⟩, ?_⟩
      intro register member
      simp only [Operation.registers, List.mem_cons, List.not_mem_nil, or_false] at member
      rcases member with rfl | rfl
      · exact Or.inl rdNamed
      · split
        · exact Or.inr (Or.inl (by simp [Config.registers]))
        · exact Or.inl rdNamed
  | labelAddress rd label =>
      injection isAction with request
      obtain ⟨rfl, inside⟩ := labelAddress_eq_ok request
      exact ⟨inside, fun register member => Or.inl (isNamed register member)⟩
  | relocatedAddress rd target kind addend =>
      injection isAction with request
      obtain ⟨rfl, notCall⟩ := Request.relocatedAddress_eq_ok request
      exact ⟨notCall, fun register member => Or.inl (isNamed register member)⟩
  | _ =>
      cases isAction

/-- The jump that a command asks for has a kind that can be encoded. -/
theorem sound_of_action
    {session : Session}
    {command : Command}
    {kind : JumpKind}
    {target : JumpTarget}
    (isAction : session.action command = .jump (.ok kind) target) :
    kind.Sound := by
  cases command with
  | branch op rs1 rs2 label =>
      injection isAction with request
      exact (Request.branch_eq_ok request).2
  | branchRelative op rs1 rs2 count =>
      injection isAction with request
      exact (Request.branch_eq_ok request).2
  | jal rd label =>
      injection isAction with request
      exact (Request.jal_eq_ok request).2
  | jump label =>
      injection isAction with request
      exact (Request.jal_eq_ok request).2
  | call link target =>
      cases target <;> cases isAction
  | _ =>
      cases isAction

/-- Both operations that a constant can become may be appended. -/
theorem approves_constant_of_action
    {session : Session}
    {command : Command}
    {value : UInt64}
    {inline : Sequence → Operation}
    {pooled : Nat → Operation}
    (isNamed : ∀ register ∈ command.registers, terms.named register)
    (isAction : session.action command = .constant (.ok ()) value inline pooled) :
    (∀ sequence, Constant.Synthesized sequence → session.Approves terms (inline sequence)) ∧
      ∀ slot, terms.extent (slot + 8) → session.Approves terms (pooled slot) := by
  cases command with
  | loadConstant rd constant =>
      injection isAction with checked isValue isInline isPooled
      obtain ⟨isInteger, notZero⟩ := Request.constantDestination_eq_ok checked
      have rdNamed : terms.named rd := isNamed rd (by simp [Command.registers])
      subst isInline isPooled
      refine ⟨fun sequence synthesized => ⟨⟨isInteger, notZero, synthesized⟩, ?_⟩,
        fun slot inside => ⟨⟨8, rfl, inside⟩, ?_⟩⟩
      · intro register member
        obtain rfl := List.mem_singleton.mp member
        exact Or.inl rdNamed
      · intro register member
        simp only [Operation.registers, List.mem_cons, List.not_mem_nil, or_false,
          or_self] at member
        rw [member]
        exact Or.inl rdNamed
  | call link target =>
      cases target with
      | absolute address =>
          injection isAction with checked isValue isInline isPooled
          have linkNamed : terms.named link := isNamed link (by simp [Command.registers])
          subst isInline isPooled
          exact ⟨fun sequence synthesized => ⟨synthesized, fun _ => approves_link linkNamed⟩,
            fun slot inside => ⟨inside, fun _ => approves_link linkNamed⟩⟩
      | register base offset =>
          cases isAction
      | relocated symbol addend =>
          cases isAction
  | _ =>
      cases isAction

theorem appendConstant_changes
    {session : Session}
    {value : UInt64}
    {inline : Sequence → Operation}
    {pooled : Nat → Operation}
    (within : (session.appendConstant value inline pooled).2.pool.Within terms.extent)
    (inlines :
      ∀ sequence, Constant.Synthesized sequence → session.Approves terms (inline sequence))
    (pools : ∀ slot, terms.extent (slot + 8) → session.Approves terms (pooled slot)) :
    Changes terms session (session.appendConstant value inline pooled).2 := by
  unfold appendConstant at within ⊢
  split at within
  · exact Relation.ReflTransGen.refl
  · rename_i sequence plans
    exact append_changes (inlines sequence ⟨value.toInt64, _, plan_eq_inline plans⟩)
  · exact appendPooled_changes within pools

theorem bindLabel_changes
    (session : Session)
    (label : LabelId) :
    Changes terms session (session.bindLabel label).2 := by
  unfold bindLabel
  split
  · exact Relation.ReflTransGen.refl
  · exact Relation.ReflTransGen.refl
  · rename_i unbound
    dsimp only
    by_cases empty : session.layout.currentCount = 0
    · rw [if_pos empty]
      exact Relation.ReflTransGen.single (.bindLabel session label unbound empty)
    · rw [if_neg empty]
      exact Relation.ReflTransGen.head (.openGroup session)
        (Relation.ReflTransGen.single
          (.bindLabel _ label unbound (Layout.currentCount_openGroup session.layout)))

/-- Every command takes a session through changes. -/
theorem perform_changes
    {session : Session}
    {command : Command}
    (isNamed : ∀ register ∈ command.registers, terms.named register)
    (within : session.pool.Within terms.extent)
    (withinNext : (session.perform command).2.pool.Within terms.extent)
    (accepted : command = .relax → terms.accepts session.relax.1) :
    Changes terms session (session.perform command).2 := by
  rw [perform_eq_act] at withinNext ⊢
  cases isAction : session.action command with
  | newLabel =>
      exact Relation.ReflTransGen.single (.addLabel session)
  | bindLabel label =>
      exact bindLabel_changes session label
  | newGroup =>
      exact Relation.ReflTransGen.single (.openGroup session)
  | setRegion region =>
      exact Relation.ReflTransGen.single (.setRegion session region)
  | keepLong id =>
      exact Relation.ReflTransGen.single (.keepLong session id)
  | operation checked =>
      refine appendChecked_changes ?_
      rintro operation rfl
      exact approves_of_action isNamed within isAction
  | jump checked target =>
      refine appendJumpChecked_changes ?_ target
      rintro kind rfl
      exact sound_of_action isAction
  | constant checked value inline pooled =>
      cases checked with
      | error cause =>
          exact Relation.ReflTransGen.refl
      | ok passed =>
          obtain ⟨inlines, pools⟩ := approves_constant_of_action isNamed isAction
          rw [isAction] at withinNext
          exact appendConstant_changes withinNext inlines pools
  | pool call =>
      exact Relation.ReflTransGen.single (.setPool session _)
  | relax =>
      have isRelax : command = .relax := eq_of_command? (congrArg Action.command? isAction)
      exact Relation.ReflTransGen.single (.relax session (accepted isRelax))

/-- A list of commands takes a session through changes. -/
theorem run_changes
    {session : Session}
    {commands : List Command}
    (isNamed : ∀ command ∈ commands, ∀ register ∈ command.registers, terms.named register)
    (within :
      ∀ front back, commands = front ++ back → (session.run front).pool.Within terms.extent)
    (accepted :
      ∀ front back, commands = front ++ .relax :: back →
        terms.accepts (session.run front).relax.1) :
    Changes terms session (session.run commands) := by
  induction commands generalizing session with
  | nil =>
      exact Relation.ReflTransGen.refl
  | cons command rest inductionHypothesis =>
      have acceptedHere : command = .relax → terms.accepts session.relax.1 :=
        fun isRelax => accepted [] rest (by rw [isRelax]; rfl)
      have changes : Changes terms session (session.perform command).2 :=
        perform_changes (isNamed command (by simp)) (within [] (command :: rest) rfl)
          (within [command] rest rfl) acceptedHere
      refine changes.trans (inductionHypothesis ?_ ?_ ?_)
      · exact fun next member => isNamed next (by simp [member])
      · exact fun front back split => within (command :: front) back (by rw [split]; rfl)
      · exact fun front back split => accepted (command :: front) back (by rw [split]; rfl)

/-- Changes leave the configuration alone. -/
theorem Changes.config
    {before after : Session}
    (changes : Changes terms before after) :
    after.config = before.config := by
  induction changes with
  | refl =>
      rfl
  | tail _ change inductionHypothesis =>
      rw [← inductionHypothesis]
      cases change <;> rfl

theorem wellFormed_relax
    {session : Session}
    (wellFormed : session.layout.WellFormed) :
    session.relax.2.layout.WellFormed :=
  (Relaxation.wellFormed_relaxWithin _ _ 0 0 #[] _ wellFormed).1

/-- Relaxation only lets a layout grow, also where it fails. -/
theorem evolves_relax
    {session : Session}
    (wellFormed : session.layout.WellFormed) :
    session.layout.Evolves session.relax.2.layout :=
  (Relaxation.wellFormed_relaxWithin _ _ 0 0 #[] _ wellFormed).2

/-- Every session that changes lead to has a well-formed layout. -/
theorem Changes.wellFormed
    {before after : Session}
    (changes : Changes terms before after)
    (wellFormed : before.layout.WellFormed) :
    after.layout.WellFormed := by
  induction changes with
  | refl =>
      exact wellFormed
  | tail _ change kept =>
      cases change with
      | addLabel =>
          exact kept.addLabel
      | openGroup =>
          exact kept.openGroup
      | bindLabel label unbound here =>
          refine kept.bindLabel unbound ?_
          have nonempty := kept.partitioned.nonempty
          show _ - 1 < _
          omega
      | setRegion region =>
          exact kept
      | setPool pool =>
          exact kept
      | operation operation approves room =>
          refine kept.push_operation ?_
          rintro id rfl
          exact approves.1
      | jump kind target sound room =>
          exact kept.pushFresh sound target
      | keepLong id =>
          exact kept.keepLong id.index
      | relax accepted =>
          exact wellFormed_relax kept

/-- Changes keep what has been written. -/
theorem Changes.keeps
    {before after : Session}
    (changes : Changes terms before after)
    (wellFormed : before.layout.WellFormed) :
    before.layout.Keeps after.layout := by
  induction changes with
  | refl =>
      exact Layout.Keeps.refl _
  | @tail middle after earlier change inductionHypothesis =>
      refine inductionHypothesis.trans ?_
      have middleWellFormed := Changes.wellFormed earlier wellFormed
      cases change with
      | addLabel =>
          exact Layout.Keeps.addLabel _
      | openGroup =>
          exact Layout.Keeps.openGroup middleWellFormed
      | bindLabel label unbound here =>
          exact Layout.Keeps.bindLabel unbound _
      | setRegion =>
          exact Layout.Keeps.refl _
      | setPool =>
          exact Layout.Keeps.refl _
      | operation operation =>
          exact Layout.Keeps.push _ _
      | jump kind target =>
          exact Layout.Keeps.pushFresh _ _ _
      | keepLong id =>
          exact Layout.Keeps.keepLong middle.layout id.index
      | relax =>
          exact Layout.Keeps.of_evolves (evolves_relax middleWellFormed)

/-!
## Sessions that commands lead to
-/

/-- Commands lead through changes, whatever they name, if relaxation answers as it should. -/
theorem run_changes_accepting
    {session : Session}
    {commands : List Command}
    {accepts : Except Failure RelaxStats → Prop}
    (accepted :
      ∀ front back, commands = front ++ .relax :: back → accepts (session.run front).relax.1) :
    Changes { accepts := accepts } session (session.run commands) :=
  run_changes (fun _ _ _ _ => trivial) (fun _ _ _ => ⟨fun _ _ => trivial, fun _ _ _ => trivial⟩)
    accepted

/-- What commands lead to, whatever they name and whatever relaxation answers. -/
theorem run_changes_any
    (session : Session)
    (commands : List Command) :
    Changes {} session (session.run commands) :=
  run_changes_accepting fun _ _ _ => trivial

theorem wellFormed_run
    (config : Config)
    (commands : List Command) :
    ((start config).run commands).layout.WellFormed :=
  (run_changes_any (start config) commands).wellFormed Layout.wellFormed_empty

theorem config_run
    (config : Config)
    (commands : List Command) :
    ((start config).run commands).config = config :=
  (run_changes_any (start config) commands).config

theorem run_append
    (session : Session)
    (front back : List Command) :
    session.run (front ++ back) = (session.run front).run back :=
  List.foldl_append

/-- Every relaxation among commands succeeds if each of them does, one position after the other. -/
theorem relaxes_of_take
    {session : Session}
    {commands : List Command}
    (each :
      ∀ count < commands.length,
        commands[count]? = some .relax →
          (session.run (commands.take count)).relax.1.isOk = true) :
    ∀ front back,
      commands = front ++ .relax :: back →
        ∃ stats, (session.run front).relax.1 = .ok stats := by
  rintro front back rfl
  have succeeds := each front.length (by simp) (by simp)
  rw [List.take_left] at succeeds
  exact isOk_eq_true_iff.mp succeeds

/-- What has been written is there after more commands and relaxation. -/
theorem keeps_relax
    (config : Config)
    (front back : List Command) :
    ((start config).run front).layout.Keeps
      ((start config).run (front ++ back)).relax.2.layout := by
  have relaxes :=
    (run_changes_any ((start config).run front) back).tail
      (.relax (((start config).run front).run back) trivial)
  rw [run_append]
  exact Changes.keeps relaxes (wellFormed_run config front)

/-- Jumps that have been entered are there after more commands and relaxation. -/
theorem exists_jump_relax
    {config : Config}
    {front : List Command}
    (back : List Command)
    {id : Nat}
    {jump : Jump}
    (found : ((start config).run front).layout.jumps[id]? = some jump) :
    ∃ later,
      ((start config).run (front ++ back)).relax.2.layout.jumps[id]? = some later ∧
        later.kind = jump.kind ∧ later.target = jump.target := by
  obtain ⟨later, foundLater, persists⟩ := (keeps_relax config front back).jumps id jump found
  exact ⟨later, foundLater, persists.kind, persists.target⟩

end Session

end Rv64Codegen
