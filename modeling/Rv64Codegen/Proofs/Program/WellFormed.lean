import Rv64Codegen.Proofs.Isa.Encoding
import Rv64Codegen.Proofs.Program.Offsets

namespace Rv64Codegen

/-!
# Well-formed layouts

What holds of a layout at every moment of its life, also in the middle of a pass
of relaxation that has failed: the groups partition the descriptors, the jump
list and the jump descriptors belong to each other, jumps stand in program
order, and a target that is known is the one that was asked for.  Nothing here
speaks about offsets.
-/

/-- A jump whose operands have words. -/
def JumpKind.Sound : JumpKind → Prop
  | .conditional op rs1 rs2 =>
      op.format = .b ∧ rs1.file = .int ∧ rs2.file = .int ∧
        rs1.index < 32 ∧ rs2.index < 32
  | .jal rd =>
      rd.file = .int ∧ rd.index < 32

theorem Jump.size_bounds
    (jump : Jump)
    (form : Form) :
    4 ≤ jump.sizeOf form ∧ jump.sizeOf form ≤ 12 ∧ jump.anchor form ≤ 4 := by
  cases form <;> cases conditional : jump.isConditional <;> simp [sizeOf, anchor, conditional]

theorem Jump.sizeOf_mod_four
    (jump : Jump)
    (form : Form) :
    jump.sizeOf form % 4 = 0 := by
  cases form <;> cases conditional : jump.isConditional <;> simp [sizeOf, conditional]

theorem Operation.initialSize_mod_four (operation : Operation) :
    operation.initialSize % 4 = 0 := by
  cases operation with
  | call shape =>
      cases shape <;> simp [initialSize, CallShape.size, Sequence.byteSize]
  | _ =>
      simp [initialSize, Sequence.byteSize]

namespace Layout

/-- The group that a jump stands in. -/
structure Owns
    (layout : Layout)
    (own : Group)
    (jump : Jump) :
    Prop where
  found : layout.groups[jump.group.index]? = some own
  lower : own.first ≤ jump.descriptor
  upper : jump.descriptor < own.last

/-- The target that a jump asks for is the resolved one. -/
def Resolves
    (layout : Layout)
    (jump : Jump) :
    Resolved → Prop
  | .group group =>
      ∃ label, jump.target = .label label ∧ layout.labelGroup? label = some group
  | .inGroup position =>
      ∃ count own, jump.target = .relative count ∧
        layout.groups[jump.group.index]? = some own ∧
          (position : Int) = (jump.descriptor - own.first : Nat) + 1 + count ∧
            position ≤ own.count

/-- The jump with a number stands in the program as its entry says. -/
structure Holds
    (layout : Layout)
    (id : Nat)
    (jump : Jump) :
    Prop where
  described : layout.descriptors[jump.descriptor]? = some ⟨.jump ⟨id⟩, jump.size⟩
  owned : ∃ own, layout.Owns own jump
  sound : jump.kind.Sound
  form : jump.form ∈ jump.forms
  fresh : jump.resolved = none → jump.state = .shortUnbound
  resolved : ∀ target, jump.resolved = some target → layout.Resolves jump target

/-- A layout whose groups, descriptors, jumps and labels belong together. -/
structure WellFormed (layout : Layout) : Prop where
  partitioned : Partitioned layout.groups layout.descriptors
  holds :
    ∀ (id : Nat) (jump : Jump), layout.jumps[id]? = some jump → layout.Holds id jump
  ordered :
    ∀ (left right : Nat) (early late : Jump),
      left < right →
        layout.jumps[left]? = some early →
          layout.jumps[right]? = some late → early.descriptor < late.descriptor
  listed :
    ∀ (index : Nat) (id : JumpId) (size : Nat),
      layout.descriptors[index]? = some ⟨.jump id, size⟩ →
        ∃ jump, layout.jumps[id.index]? = some jump ∧ jump.descriptor = index
  plain :
    ∀ (index : Nat) (descriptor : Descriptor),
      layout.descriptors[index]? = some descriptor →
        (∀ id, descriptor.operation ≠ .jump id) →
          descriptor.size = descriptor.operation.initialSize
  bound :
    ∀ (label : LabelId) (group : GroupId),
      layout.labelGroup? label = some group → group.index < layout.groups.size

/-- A jump stays in place when its descriptor stays and groups and labels only gain. -/
theorem Holds.mono
    {before after : Layout}
    {id : Nat}
    {jump : Jump}
    (holds : before.Holds id jump)
    (descriptors :
      after.descriptors[jump.descriptor]? = before.descriptors[jump.descriptor]?)
    (groups :
      ∀ own, before.groups[jump.group.index]? = some own →
        ∃ later, after.groups[jump.group.index]? = some later ∧
          later.first = own.first ∧ own.count ≤ later.count)
    (labels :
      ∀ label group,
        before.labelGroup? label = some group → after.labelGroup? label = some group) :
    after.Holds id jump := by
  obtain ⟨described, ⟨own, found, lower, upper⟩, sound, form, fresh, resolved⟩ := holds
  refine ⟨descriptors.trans described, ?_, sound, form, fresh, ?_⟩
  · obtain ⟨later, foundLater, first, count⟩ := groups own found
    refine ⟨later, foundLater, by omega, ?_⟩
    unfold Group.last at upper ⊢
    omega
  · intro target isTarget
    have resolves := resolved target isTarget
    cases target with
    | group group =>
        obtain ⟨label, asked, isBound⟩ := resolves
        exact ⟨label, asked, labels label group isBound⟩
    | inGroup position =>
        obtain ⟨count, ownGroup, asked, foundOwn, exact, inside⟩ := resolves
        obtain ⟨later, foundLater, first, more⟩ := groups ownGroup foundOwn
        exact ⟨count, later, asked, foundLater, by rw [first]; exact exact, by omega⟩

/-- A jump descriptor stands for one jump. -/
theorem WellFormed.id_unique
    {layout : Layout}
    (wellFormed : layout.WellFormed)
    {left right : Nat}
    {first second : Jump}
    (foundFirst : layout.jumps[left]? = some first)
    (foundSecond : layout.jumps[right]? = some second)
    (same : first.descriptor = second.descriptor) :
    left = right := by
  rcases Nat.lt_trichotomy left right with before | here | behind
  · have := wellFormed.ordered left right first second before foundFirst foundSecond
    omega
  · exact here
  · have := wellFormed.ordered right left second first behind foundSecond foundFirst
    omega

/-- A descriptor stands for a jump of the jump list, or it has the size of its operation. -/
theorem WellFormed.descriptor_cases
    {layout : Layout}
    (wellFormed : layout.WellFormed)
    {index : Nat}
    {descriptor : Descriptor}
    (found : layout.descriptors[index]? = some descriptor) :
    (∃ (id : Nat) (jump : Jump),
      layout.jumps[id]? = some jump ∧ jump.descriptor = index ∧
        descriptor = ⟨.jump ⟨id⟩, jump.size⟩) ∨
      ((∀ id, descriptor.operation ≠ .jump id) ∧
        descriptor.size = descriptor.operation.initialSize) := by
  by_cases isJump : ∃ id, descriptor.operation = .jump id
  · obtain ⟨id, isId⟩ := isJump
    obtain ⟨operation, bytes⟩ := descriptor
    obtain rfl : operation = .jump id := isId
    obtain ⟨jump, foundJump, rfl⟩ := wellFormed.listed index id bytes found
    have described := (wellFormed.holds _ jump foundJump).described
    rw [found] at described
    exact Or.inl ⟨id.index, jump, foundJump, rfl, Option.some.inj described⟩
  · have notJump (id : JumpId) : descriptor.operation ≠ .jump id :=
      fun isId => isJump ⟨id, isId⟩
    exact Or.inr ⟨notJump, wellFormed.plain index descriptor found notJump⟩

/-- Every size is a multiple of four. -/
theorem WellFormed.sizeAt_mod_four
    {layout : Layout}
    (wellFormed : layout.WellFormed)
    (index : Nat) :
    sizeAt layout.descriptors index % 4 = 0 := by
  cases found : layout.descriptors[index]? with
  | none =>
      rw [sizeAt_of_none found]
  | some descriptor =>
      rw [sizeAt_of_getElem? found]
      rcases wellFormed.descriptor_cases found with ⟨id, jump, -, -, rfl⟩ | ⟨-, isPlain⟩
      · exact jump.sizeOf_mod_four jump.form
      · rw [isPlain]
        exact descriptor.operation.initialSize_mod_four

/-- Every descriptor stands at a multiple of four. -/
theorem WellFormed.startOf_mod_four
    {layout : Layout}
    (wellFormed : layout.WellFormed)
    (index : Nat) :
    startOf layout.descriptors index % 4 = 0 := by
  induction index with
  | zero =>
      rw [startOf_zero]
  | succ index inductionHypothesis =>
      have here := wellFormed.sizeAt_mod_four index
      rw [startOf, sizeBetween_succ _ (Nat.zero_le index)]
      unfold startOf at inductionHypothesis
      omega

theorem wellFormed_empty : Layout.empty.WellFormed where
  partitioned := by
    refine ⟨by decide, ?_, ?_, ?_, ?_⟩
    · intro group found
      cases found
      rfl
    · intro index group following found foundFollowing
      cases foundFollowing
    · intro group found
      cases found
      rfl
    · intro index group found
      obtain ⟨inside, isGroup⟩ := Array.getElem?_eq_some_iff.mp found
      obtain rfl : index = 0 := Nat.lt_one_iff.mp inside
      cases found
      rfl
  holds := by
    intro id jump found
    cases found
  ordered := by
    intro left right early late _ found
    cases found
  listed := by
    intro index id size found
    cases found
  plain := by
    intro index descriptor found
    cases found
  bound := by
    intro label group found
    cases found

/-!
## Targets
-/

/-- The descriptor, or the end of the descriptors, that a resolved jump goes to. -/
def Aims
    (layout : Layout)
    (jump : Jump)
    (place : Nat) :
    Resolved → Prop
  | .group target =>
      ∃ group, layout.groups[target.index]? = some group ∧ place = group.first
  | .inGroup position =>
      ∃ own, layout.groups[jump.group.index]? = some own ∧ place = own.first + position

/-- A known target is a place among the descriptors. -/
theorem WellFormed.exists_aims
    {layout : Layout}
    (wellFormed : layout.WellFormed)
    {jump : Jump}
    {resolved : Resolved}
    (resolves : layout.Resolves jump resolved) :
    ∃ place, layout.Aims jump place resolved ∧ place ≤ layout.descriptors.size := by
  cases resolved with
  | group target =>
      obtain ⟨label, -, isBound⟩ := resolves
      have inside := wellFormed.bound label target isBound
      have foundGroup : layout.groups[target.index]? = some layout.groups[target.index] :=
        Array.getElem?_eq_getElem inside
      refine ⟨_, ⟨_, foundGroup, rfl⟩, ?_⟩
      exact Nat.le_trans (first_le_last _) (wellFormed.partitioned.last_le_size foundGroup)
  | inGroup position =>
      obtain ⟨count, own, -, foundOwn, -, inside⟩ := resolves
      refine ⟨_, ⟨own, foundOwn, rfl⟩, ?_⟩
      exact Nat.le_trans (Nat.add_le_add_left inside own.first)
        (wellFormed.partitioned.last_le_size foundOwn)

/-!
## Labels and groups
-/

theorem labelGroup?_addLabel
    (layout : Layout)
    (label : LabelId) :
    layout.addLabel.labelGroup? label = layout.labelGroup? label := by
  unfold labelGroup? addLabel
  rw [Array.getElem?_push]
  split
  · rename_i isNew
    rw [isNew, Array.getElem?_eq_none (Nat.le_refl _)]
    rfl
  · rfl

theorem WellFormed.addLabel
    {layout : Layout}
    (wellFormed : layout.WellFormed) :
    layout.addLabel.WellFormed where
  partitioned := wellFormed.partitioned
  holds := by
    intro id jump found
    refine (wellFormed.holds id jump found).mono rfl ?_ ?_
    · intro own foundOwn
      exact ⟨own, foundOwn, rfl, Nat.le_refl _⟩
    · intro label group isBound
      rw [labelGroup?_addLabel]
      exact isBound
  ordered := wellFormed.ordered
  listed := wellFormed.listed
  plain := wellFormed.plain
  bound := by
    intro label group isBound
    rw [labelGroup?_addLabel] at isBound
    exact wellFormed.bound label group isBound

/-- The groups after opening a new one: an empty group behind the last. -/
theorem openGroup_eq
    {layout : Layout}
    {final : Group}
    (found : layout.groups[layout.groups.size - 1]? = some final) :
    layout.openGroup =
      { layout with
        groups := layout.groups.push (Group.startingAt final.stop final.last) } := by
  have isBack : layout.groups.back? = some final := by
    rw [Array.back?_eq_getElem?]
    exact found
  unfold openGroup
  rw [isBack]

theorem WellFormed.openGroup
    {layout : Layout}
    (wellFormed : layout.WellFormed) :
    layout.openGroup.WellFormed := by
  obtain ⟨final, foundFinal⟩ := wellFormed.partitioned.exists_last
  rw [openGroup_eq foundFinal]
  have kept :
      ∀ (index : Nat) (group : Group),
        layout.groups[index]? = some group →
          (layout.groups.push (Group.startingAt final.stop final.last))[index]? =
            some group := by
    intro index group found
    obtain ⟨inside, -⟩ := Array.getElem?_eq_some_iff.mp found
    rw [Array.getElem?_push, if_neg (Nat.ne_of_lt inside)]
    exact found
  refine ⟨wellFormed.partitioned.push_startingAt foundFinal final.stop, ?_,
    wellFormed.ordered, wellFormed.listed, wellFormed.plain, ?_⟩
  · intro id jump found
    refine (wellFormed.holds id jump found).mono rfl ?_ fun _ _ isBound => isBound
    intro own foundOwn
    exact ⟨own, kept _ own foundOwn, rfl, Nat.le_refl _⟩
  · intro label group isBound
    have inside := wellFormed.bound label group isBound
    rw [Array.size_push]
    omega

theorem labelGroup?_bindLabel
    (layout : Layout)
    (label other : LabelId)
    (group : GroupId) :
    (layout.bindLabel label group).labelGroup? other =
      if label.index = other.index ∧ label.index < layout.labels.size then some group
      else layout.labelGroup? other := by
  unfold labelGroup? bindLabel
  rw [Array.getElem?_modify]
  by_cases here : label.index = other.index
  · by_cases inside : label.index < layout.labels.size
    · rw [if_pos here, if_pos ⟨here, inside⟩, Array.getElem?_eq_getElem (here ▸ inside)]
      rfl
    · rw [if_pos here, if_neg (fun both => inside both.2),
        Array.getElem?_eq_none (by omega)]
      rfl
  · rw [if_neg here, if_neg (fun both => here both.1)]

/-- A label that is bound stays bound when another one is. -/
theorem labelGroup?_bindLabel_of_some
    {layout : Layout}
    {label other : LabelId}
    {group bound : GroupId}
    (unbound : layout.labels[label.index]? = some none)
    (isBound : layout.labelGroup? other = some bound) :
    (layout.bindLabel label group).labelGroup? other = some bound := by
  rw [labelGroup?_bindLabel, if_neg]
  · exact isBound
  · rintro ⟨here, -⟩
    rw [labelGroup?, ← here, unbound] at isBound
    cases isBound

/-- Moving groups keeps a layout well-formed. -/
theorem WellFormed.regroup
    {layout : Layout}
    (wellFormed : layout.WellFormed)
    {moved : Array Group}
    (same : Pointwise SameRun layout.groups moved) :
    { layout with groups := moved }.WellFormed := by
  refine ⟨wellFormed.partitioned.congr same, ?_, wellFormed.ordered, wellFormed.listed,
    wellFormed.plain, ?_⟩
  · intro id jump found
    refine (wellFormed.holds id jump found).mono rfl ?_ fun _ _ isBound => isBound
    intro own foundOwn
    obtain ⟨later, foundLater, first, count, -⟩ := same.forward _ own foundOwn
    exact ⟨later, foundLater, first, Nat.le_of_eq count.symm⟩
  · intro label group isBound
    show group.index < moved.size
    rw [same.size]
    exact wellFormed.bound label group isBound

/-- A label that was not bound is bound to a group that exists. -/
theorem WellFormed.bindLabel
    {layout : Layout}
    (wellFormed : layout.WellFormed)
    {label : LabelId}
    {group : GroupId}
    (unbound : layout.labels[label.index]? = some none)
    (inside : group.index < layout.groups.size) :
    (layout.bindLabel label group).WellFormed := by
  have same :
      Pointwise SameRun layout.groups
        (layout.groups.modify group.index ({ · with isTarget := true })) :=
    Pointwise.modify sameRun_refl _ _ fun group _ => sameRun_refl group
  have marked := wellFormed.regroup same
  refine ⟨marked.partitioned, ?_, marked.ordered, marked.listed, marked.plain, ?_⟩
  · intro id jump found
    refine (marked.holds id jump found).mono rfl ?_
      fun _ _ isBound => labelGroup?_bindLabel_of_some unbound isBound
    intro own foundOwn
    exact ⟨own, foundOwn, rfl, Nat.le_refl _⟩
  · intro other bound isBound
    show bound.index < (layout.groups.modify group.index _).size
    rw [same.size]
    rw [labelGroup?_bindLabel] at isBound
    split at isBound
    · cases isBound
      exact inside
    · exact wellFormed.bound other bound isBound

/-!
## Descriptors and jumps
-/

/-- A group that is already there stays when a descriptor is appended. -/
theorem getElem?_push_groups
    {layout : Layout}
    (descriptor : Descriptor)
    {index : Nat}
    {group : Group}
    (found : layout.groups[index]? = some group) :
    ∃ later, (layout.push descriptor).groups[index]? = some later ∧
      later.first = group.first ∧ group.count ≤ later.count := by
  unfold push
  rw [Array.getElem?_modify]
  split
  · exact ⟨group.extend descriptor.size, by rw [found]; rfl, rfl, Nat.le_succ _⟩
  · exact ⟨group, found, rfl, Nat.le_refl _⟩

theorem getElem?_push_of_some
    {entries : Array α}
    {index : Nat}
    {entry : α}
    (new : α)
    (found : entries[index]? = some entry) :
    (entries.push new)[index]? = some entry := by
  obtain ⟨inside, -⟩ := Array.getElem?_eq_some_iff.mp found
  rw [Array.getElem?_push, if_neg (Nat.ne_of_lt inside)]
  exact found

/-- A jump in the program stays when a descriptor is appended. -/
theorem Holds.push
    {layout : Layout}
    {id : Nat}
    {jump : Jump}
    (holds : layout.Holds id jump)
    (descriptor : Descriptor) :
    (layout.push descriptor).Holds id jump := by
  refine holds.mono ?_ ?_ fun _ _ isBound => isBound
  · rw [holds.described]
    exact getElem?_push_of_some descriptor holds.described
  · intro own foundOwn
    exact getElem?_push_groups descriptor foundOwn

theorem WellFormed.push_operation
    {layout : Layout}
    (wellFormed : layout.WellFormed)
    {operation : Operation}
    (plain : ∀ id, operation ≠ .jump id) :
    (layout.push (Descriptor.ofOperation operation)).WellFormed := by
  refine ⟨wellFormed.partitioned.push_descriptor _, ?_, wellFormed.ordered, ?_, ?_, ?_⟩
  · intro id jump found
    exact (wellFormed.holds id jump found).push _
  · intro index id size found
    change (layout.descriptors.push (Descriptor.ofOperation operation))[index]? = _ at found
    rw [Array.getElem?_push] at found
    split at found
    · exact absurd (congrArg Descriptor.operation (Option.some.inj found)) (plain id)
    · exact wellFormed.listed index id size found
  · intro index descriptor found notJump
    change (layout.descriptors.push (Descriptor.ofOperation operation))[index]? = _ at found
    rw [Array.getElem?_push] at found
    split at found
    · cases found
      rfl
    · exact wellFormed.plain index descriptor found notJump
  · intro label group isBound
    show group.index < (layout.groups.modify _ _).size
    rw [Array.size_modify]
    exact wellFormed.bound label group isBound

/-- A layout with a new jump behind its last descriptor. -/
def pushFresh
    (layout : Layout)
    (kind : JumpKind)
    (target : JumpTarget) :
    Layout :=
  (layout.push (Descriptor.ofOperation (.jump ⟨layout.jumps.size⟩))).pushJump
    (Jump.fresh kind target layout.current layout.descriptors.size layout.currentSize)

/-- The new jump stands where its entry says. -/
theorem holds_pushFresh
    {layout : Layout}
    (wellFormed : layout.WellFormed)
    {kind : JumpKind}
    (sound : kind.Sound)
    (target : JumpTarget) :
    (layout.pushFresh kind target).Holds layout.jumps.size
      (Jump.fresh kind target layout.current layout.descriptors.size layout.currentSize) := by
  obtain ⟨final, foundFinal⟩ := wellFormed.partitioned.exists_last
  have atEnd := wellFormed.partitioned.last final foundFinal
  refine ⟨Array.getElem?_push_size, ⟨final.extend 4, ?_, ?_, ?_⟩, sound, ?_, ?_, ?_⟩
  · show (layout.groups.modify (layout.groups.size - 1) _)[layout.groups.size - 1]? = _
    rw [Array.getElem?_modify, if_pos rfl, foundFinal]
    rfl
  · show final.first ≤ layout.descriptors.size
    rw [← atEnd]
    exact first_le_last final
  · show layout.descriptors.size < final.first + (final.count + 1)
    unfold Group.last at atEnd
    omega
  · cases kind <;> exact List.mem_cons_self ..
  · intro _
    rfl
  · intro resolved isResolved
    cases isResolved

theorem WellFormed.pushFresh
    {layout : Layout}
    (wellFormed : layout.WellFormed)
    {kind : JumpKind}
    (sound : kind.Sound)
    (target : JumpTarget) :
    (layout.pushFresh kind target).WellFormed := by
  have new := holds_pushFresh wellFormed sound target
  generalize isFresh :
    Jump.fresh kind target layout.current layout.descriptors.size layout.currentSize = fresh
      at new
  have jumps : (layout.pushFresh kind target).jumps = layout.jumps.push fresh := by
    rw [← isFresh]
    rfl
  have place : fresh.descriptor = layout.descriptors.size := by
    rw [← isFresh]
    rfl
  refine ⟨wellFormed.partitioned.push_descriptor _, ?_, ?_, ?_, ?_, ?_⟩
  · intro id jump found
    rw [jumps, Array.getElem?_push] at found
    split at found
    · rename_i isNew
      cases found
      rw [isNew]
      exact new
    · have old := (wellFormed.holds id jump found).push
        (Descriptor.ofOperation (.jump ⟨layout.jumps.size⟩))
      exact old.mono rfl (fun own foundOwn => ⟨own, foundOwn, rfl, Nat.le_refl _⟩)
        fun _ _ isBound => isBound
  · intro left right early late order foundEarly foundLate
    rw [jumps, Array.getElem?_push] at foundEarly foundLate
    obtain isEarly : left ≠ layout.jumps.size := by
      intro isNew
      rw [if_neg (by omega), Array.getElem?_eq_none (by omega)] at foundLate
      cases foundLate
    rw [if_neg isEarly] at foundEarly
    split at foundLate
    · cases foundLate
      have described := (wellFormed.holds left early foundEarly).described
      obtain ⟨inside, -⟩ := Array.getElem?_eq_some_iff.mp described
      rw [place]
      exact inside
    · exact wellFormed.ordered left right early late order foundEarly foundLate
  · intro index id size found
    change (layout.descriptors.push _)[index]? = _ at found
    rw [Array.getElem?_push] at found
    rw [jumps]
    split at found
    · rename_i isNew
      cases found
      exact ⟨fresh, Array.getElem?_push_size, place.trans isNew.symm⟩
    · obtain ⟨jump, foundJump, here⟩ := wellFormed.listed index id size found
      exact ⟨jump, getElem?_push_of_some fresh foundJump, here⟩
  · intro index descriptor found notJump
    change (layout.descriptors.push _)[index]? = _ at found
    rw [Array.getElem?_push] at found
    split at found
    · cases found
      rfl
    · exact wellFormed.plain index descriptor found notJump
  · intro label group isBound
    show group.index < (layout.groups.modify _ _).size
    rw [Array.size_modify]
    exact wellFormed.bound label group isBound

/-- A layout in which one jump is replaced by another that takes more bytes. -/
def updateJump
    (layout : Layout)
    (id : Nat)
    (jump : Jump)
    (bytes : Nat) :
    Layout :=
  { layout with
    groups := layout.groups.modify jump.group.index (Group.grow · bytes)
    descriptors := growAt layout.descriptors jump.descriptor bytes
    jumps := layout.jumps.setIfInBounds id jump }

theorem modify_grow_zero
    (groups : Array Group)
    (index : Nat) :
    groups.modify index (Group.grow · 0) = groups := by
  apply Array.ext_getElem?
  intro place
  rw [Array.getElem?_modify]
  split
  · cases groups[place]? with
    | none =>
        rfl
    | some group =>
        rfl
  · rfl

/-- Without growth only the jump list changes. -/
theorem updateJump_zero
    (layout : Layout)
    (id : Nat)
    (jump : Jump) :
    layout.updateJump id jump 0 =
      { layout with jumps := layout.jumps.setIfInBounds id jump } := by
  rw [updateJump, modify_grow_zero, growAt_zero]

theorem getElem?_updateJump_groups
    {layout : Layout}
    (id : Nat)
    (jump : Jump)
    (bytes : Nat)
    {index : Nat}
    {group : Group}
    (found : layout.groups[index]? = some group) :
    ∃ later, (layout.updateJump id jump bytes).groups[index]? = some later ∧
      later.first = group.first ∧ later.count = group.count := by
  unfold updateJump
  rw [Array.getElem?_modify]
  split
  · exact ⟨group.grow bytes, by rw [found]; rfl, rfl, rfl⟩
  · exact ⟨group, found, rfl, rfl⟩

/-- The jump list changes in one entry. -/
theorem getElem?_updateJump_jumps
    {layout : Layout}
    {id : Nat}
    {before : Jump}
    (found : layout.jumps[id]? = some before)
    (after : Jump)
    (bytes other : Nat) :
    (layout.updateJump id after bytes).jumps[other]? =
      if id = other then some after else layout.jumps[other]? := by
  obtain ⟨inside, -⟩ := Array.getElem?_eq_some_iff.mp found
  unfold updateJump
  rw [Array.getElem?_setIfInBounds, if_pos inside]

/-- Every entry of the new jump list stands where the entry with its number stood. -/
theorem exists_of_updateJump
    {layout : Layout}
    {id bytes : Nat}
    {before after : Jump}
    (found : layout.jumps[id]? = some before)
    (samePlace : after.descriptor = before.descriptor)
    {other : Nat}
    {jump : Jump}
    (foundJump : (layout.updateJump id after bytes).jumps[other]? = some jump) :
    ∃ old, layout.jumps[other]? = some old ∧ old.descriptor = jump.descriptor := by
  rw [getElem?_updateJump_jumps found] at foundJump
  split at foundJump
  · rename_i here
    cases foundJump
    rw [← here]
    exact ⟨before, found, samePlace.symm⟩
  · exact ⟨jump, foundJump, rfl⟩

/-- A jump may be replaced by one at the same place that grows with its descriptor. -/
theorem WellFormed.updateJump
    {layout : Layout}
    (wellFormed : layout.WellFormed)
    {id bytes : Nat}
    {before after : Jump}
    (found : layout.jumps[id]? = some before)
    (sameGroup : after.group = before.group)
    (samePlace : after.descriptor = before.descriptor)
    (grown : after.size = before.size + bytes)
    (sound : after.kind.Sound)
    (form : after.form ∈ after.forms)
    (fresh : after.resolved = none → after.state = .shortUnbound)
    (resolved : ∀ target, after.resolved = some target → layout.Resolves after target) :
    (layout.updateJump id after bytes).WellFormed := by
  have holds := wellFormed.holds id before found
  obtain ⟨own, foundOwn, lower, upper⟩ := holds.owned
  have described :
      (growAt layout.descriptors after.descriptor bytes)[after.descriptor]? =
        some ⟨.jump ⟨id⟩, after.size⟩ := by
    rw [getElem?_growAt, samePlace, holds.described, Option.map_some, if_pos rfl, grown]
  have keepsGroups (jump : Jump) (group : Group)
      (foundGroup : layout.groups[jump.group.index]? = some group) :
      ∃ later, (layout.updateJump id after bytes).groups[jump.group.index]? = some later ∧
        later.first = group.first ∧ group.count ≤ later.count := by
    obtain ⟨later, foundLater, first, count⟩ :=
      getElem?_updateJump_groups id after bytes foundGroup
    exact ⟨later, foundLater, first, Nat.le_of_eq count.symm⟩
  refine ⟨?_, ?_, ?_, ?_, ?_, ?_⟩
  · show Partitioned (layout.groups.modify after.group.index (Group.grow · bytes))
      (growAt layout.descriptors after.descriptor bytes)
    rw [sameGroup, samePlace]
    exact wellFormed.partitioned.grow foundOwn lower upper bytes
  · intro other jump foundJump
    rw [getElem?_updateJump_jumps found] at foundJump
    split at foundJump
    · rename_i here
      cases foundJump
      subst here
      rw [← sameGroup] at foundOwn
      rw [← samePlace] at lower upper
      -- The descriptor grows first, while the groups are still the old ones.
      have holdsGrown :
          { layout with
            descriptors := growAt layout.descriptors after.descriptor bytes }.Holds id after :=
        ⟨described, ⟨own, foundOwn, lower, upper⟩, sound, form, fresh, resolved⟩
      exact holdsGrown.mono rfl (keepsGroups after) fun _ _ isBound => isBound
    · rename_i apart
      have old := wellFormed.holds other jump foundJump
      refine old.mono ?_ (keepsGroups jump) fun _ _ isBound => isBound
      apply getElem?_growAt_of_ne
      intro same
      exact apart (wellFormed.id_unique found foundJump (samePlace.symm.trans same.symm))
  · intro left right early late order foundEarly foundLate
    obtain ⟨oldEarly, foundOldEarly, placeEarly⟩ :=
      exists_of_updateJump found samePlace foundEarly
    obtain ⟨oldLate, foundOldLate, placeLate⟩ := exists_of_updateJump found samePlace foundLate
    rw [← placeEarly, ← placeLate]
    exact wellFormed.ordered left right oldEarly oldLate order foundOldEarly foundOldLate
  · intro index jumpId size foundDescriptor
    change (growAt layout.descriptors after.descriptor bytes)[index]? = _ at foundDescriptor
    rw [getElem?_updateJump_jumps found]
    by_cases here : index = after.descriptor
    · subst here
      rw [described] at foundDescriptor
      cases foundDescriptor
      exact ⟨after, if_pos rfl, rfl⟩
    · rw [getElem?_growAt_of_ne _ _ here] at foundDescriptor
      obtain ⟨jump, foundJump, place⟩ := wellFormed.listed index jumpId size foundDescriptor
      refine ⟨jump, ?_, place⟩
      rw [if_neg]
      · exact foundJump
      · intro same
        rw [← same, found] at foundJump
        cases foundJump
        exact here (place.symm.trans samePlace.symm)
  · intro index descriptor foundDescriptor notJump
    change (growAt layout.descriptors after.descriptor bytes)[index]? = _ at foundDescriptor
    by_cases here : index = after.descriptor
    · subst here
      rw [described] at foundDescriptor
      cases foundDescriptor
      exact absurd rfl (notJump ⟨id⟩)
    · rw [getElem?_growAt_of_ne _ _ here] at foundDescriptor
      exact wellFormed.plain index descriptor foundDescriptor notJump
  · intro label group isBound
    show group.index < (layout.groups.modify _ _).size
    rw [Array.size_modify]
    exact wellFormed.bound label group isBound

/-- Asking for the far form of a jump keeps a layout well-formed. -/
theorem WellFormed.keepLong
    {layout : Layout}
    (wellFormed : layout.WellFormed)
    (id : Nat) :
    { layout with
      jumps := layout.jumps.modify id ({ · with keepLong := true }) }.WellFormed := by
  cases found : layout.jumps[id]? with
  | none =>
      have same : layout.jumps.modify id ({ · with keepLong := true }) = layout.jumps := by
        apply Array.ext_getElem?
        intro other
        rw [Array.getElem?_modify]
        split
        · rename_i here
          rw [← here, found]
          rfl
        · rfl
      rw [same]
      exact wellFormed
  | some jump =>
      have replaced :
          layout.jumps.modify id ({ · with keepLong := true }) =
            layout.jumps.setIfInBounds id { jump with keepLong := true } := by
        obtain ⟨inside, -⟩ := Array.getElem?_eq_some_iff.mp found
        apply Array.ext_getElem?
        intro other
        rw [Array.getElem?_modify, Array.getElem?_setIfInBounds]
        by_cases here : id = other
        · rw [if_pos here, if_pos here, if_pos inside, ← here, found]
          rfl
        · rw [if_neg here, if_neg here]
      obtain ⟨-, -, sound, form, fresh, resolved⟩ := wellFormed.holds id jump found
      have updated :
          (layout.updateJump id { jump with keepLong := true } 0).WellFormed :=
        wellFormed.updateJump found rfl rfl rfl sound form fresh resolved
      rw [updateJump_zero] at updated
      rw [replaced]
      exact updated

end Layout

end Rv64Codegen
