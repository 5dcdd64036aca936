import Rv64Codegen.Proofs.Program.WellFormed

namespace Rv64Codegen.Layout

/-!
# Layouts with everything in place

While a program is being written, every group and every jump stands where its
descriptor starts.  Then the size of the code is the sum of all sizes.
-/

/-- Groups and jumps stand where their descriptors start. -/
structure Located (layout : Layout) : Prop where
  groups : Placed layout.groups layout.descriptors
  jumps :
    ∀ (id : Nat) (jump : Jump) (own : Group),
      layout.jumps[id]? = some jump →
        layout.groups[jump.group.index]? = some own →
          own.offset + jump.offset = startOf layout.descriptors jump.descriptor

theorem located_empty : Layout.empty.Located where
  groups := by
    intro index group found
    obtain ⟨inside, -⟩ := Array.getElem?_eq_some_iff.mp found
    obtain rfl : index = 0 := Nat.lt_one_iff.mp inside
    cases found
    rfl
  jumps := by
    intro id jump own found
    cases found

/-- What stays where it is stays in place. -/
theorem Located.congr
    {before after : Layout}
    (located : before.Located)
    (wellFormed : before.WellFormed)
    (groups :
      ∀ (index : Nat) (group : Group),
        after.groups[index]? = some group →
          ∃ old, before.groups[index]? = some old ∧ group.first = old.first ∧
            group.offset = old.offset)
    (jumps :
      ∀ (id : Nat) (jump : Jump),
        after.jumps[id]? = some jump →
          ∃ old, before.jumps[id]? = some old ∧ jump.group = old.group ∧
            jump.descriptor = old.descriptor ∧ jump.offset = old.offset)
    (starts :
      ∀ place, place ≤ before.descriptors.size →
        startOf after.descriptors place = startOf before.descriptors place) :
    after.Located where
  groups := by
    intro index group found
    obtain ⟨old, foundOld, first, offset⟩ := groups index group found
    have inside := wellFormed.partitioned.last_le_size foundOld
    rw [first, offset, starts _ (Nat.le_trans (first_le_last old) inside)]
    exact located.groups index old foundOld
  jumps := by
    intro id jump own found foundOwn
    obtain ⟨old, foundOld, group, descriptor, offset⟩ := jumps id jump found
    rw [group] at foundOwn
    obtain ⟨oldOwn, foundOldOwn, -, ownOffset⟩ := groups _ own foundOwn
    obtain ⟨inside, -⟩ :=
      Array.getElem?_eq_some_iff.mp (wellFormed.holds id old foundOld).described
    rw [descriptor, offset, ownOffset, starts _ (Nat.le_of_lt inside)]
    exact located.jumps id old oldOwn foundOld foundOldOwn

theorem Located.bindLabel
    {layout : Layout}
    (located : layout.Located)
    (wellFormed : layout.WellFormed)
    (label : LabelId)
    (group : GroupId) :
    (layout.bindLabel label group).Located := by
  have same :
      Pointwise (fun old new : Group => new.first = old.first ∧ new.offset = old.offset)
        layout.groups (layout.groups.modify group.index ({ · with isTarget := true })) :=
    Pointwise.modify (by intro; exact ⟨rfl, rfl⟩) _ _ (by intros; exact ⟨rfl, rfl⟩)
  refine located.congr wellFormed (fun index group found => same.backward found) ?_
    fun _ _ => rfl
  intro id jump found
  exact ⟨jump, found, rfl, rfl, rfl⟩

theorem Located.keepLong
    {layout : Layout}
    (located : layout.Located)
    (wellFormed : layout.WellFormed)
    (id : Nat) :
    { layout with
      jumps := layout.jumps.modify id ({ · with keepLong := true }) }.Located := by
  have same :
      Pointwise
        (fun old new : Jump =>
          new.group = old.group ∧ new.descriptor = old.descriptor ∧ new.offset = old.offset)
        layout.jumps (layout.jumps.modify id ({ · with keepLong := true })) :=
    Pointwise.modify (by intro; exact ⟨rfl, rfl, rfl⟩) _ _ (by intros; exact ⟨rfl, rfl, rfl⟩)
  refine located.congr wellFormed ?_ (fun id jump found => same.backward found) fun _ _ => rfl
  intro index group found
  exact ⟨group, found, rfl, rfl⟩

/-- A new group starts behind the last one. -/
theorem Located.openGroup
    {layout : Layout}
    (located : layout.Located)
    (wellFormed : layout.WellFormed) :
    layout.openGroup.Located := by
  obtain ⟨final, foundFinal⟩ := wellFormed.partitioned.exists_last
  rw [openGroup_eq foundFinal]
  refine ⟨?_, ?_⟩
  · intro index group found
    rw [Array.getElem?_push] at found
    split at found
    · cases found
      exact wellFormed.partitioned.stop_eq located.groups foundFinal
    · exact located.groups index group found
  · intro id jump own found foundOwn
    obtain ⟨kept, foundKept, -, -⟩ := (wellFormed.holds id jump found).owned
    have again := getElem?_push_of_some (Group.startingAt final.stop final.last) foundKept
    obtain rfl : kept = own := Option.some.inj (again.symm.trans foundOwn)
    exact located.jumps id jump kept found foundKept

/-- A descriptor that is appended moves nothing. -/
theorem Located.push
    {layout : Layout}
    (located : layout.Located)
    (wellFormed : layout.WellFormed)
    (descriptor : Descriptor) :
    (layout.push descriptor).Located := by
  have same :
      Pointwise (fun old new : Group => new.first = old.first ∧ new.offset = old.offset)
        layout.groups
        (layout.groups.modify (layout.groups.size - 1) (Group.extend · descriptor.size)) :=
    Pointwise.modify (by intro; exact ⟨rfl, rfl⟩) _ _ (by intros; exact ⟨rfl, rfl⟩)
  refine located.congr wellFormed (fun index group found => same.backward found) ?_ ?_
  · intro id jump found
    exact ⟨jump, found, rfl, rfl, rfl⟩
  · intro place inside
    exact sizeBetween_push layout.descriptors descriptor inside

/-- A new jump stands behind the last descriptor. -/
theorem Located.pushFresh
    {layout : Layout}
    (located : layout.Located)
    (wellFormed : layout.WellFormed)
    (kind : JumpKind)
    (target : JumpTarget) :
    (layout.pushFresh kind target).Located := by
  obtain ⟨final, foundFinal⟩ := wellFormed.partitioned.exists_last
  have pushed := located.push wellFormed (Descriptor.ofOperation (.jump ⟨layout.jumps.size⟩))
  refine ⟨pushed.groups, ?_⟩
  intro id jump own found foundOwn
  change (layout.jumps.push _)[id]? = some jump at found
  rw [Array.getElem?_push] at found
  split at found
  · cases found
    have isOwn : some (final.extend 4) = some own := by
      rw [← foundOwn]
      show _ = (layout.groups.modify (layout.groups.size - 1) _)[layout.groups.size - 1]?
      rw [Array.getElem?_modify, if_pos rfl, foundFinal]
      rfl
    cases isOwn
    have isBack : layout.groups.back? = some final := by
      rw [Array.back?_eq_getElem?]
      exact foundFinal
    have stop := wellFormed.partitioned.stop_eq located.groups foundFinal
    rw [wellFormed.partitioned.last final foundFinal] at stop
    show final.offset + layout.currentSize =
      startOf (layout.descriptors.push _) layout.descriptors.size
    rw [startOf, sizeBetween_push _ _ (Nat.le_refl _), currentSize, isBack]
    exact stop
  · exact pushed.jumps id jump own found foundOwn

/-!
## The size of the code
-/

theorem Located.codeSize_eq
    {layout : Layout}
    (located : layout.Located)
    (wellFormed : layout.WellFormed) :
    layout.codeSize = startOf layout.descriptors layout.descriptors.size :=
  Layout.codeSize_eq wellFormed.partitioned located.groups

/-- A layout over the same descriptors has code of the same size. -/
theorem Located.codeSize_congr
    {before after : Layout}
    (located : before.Located)
    (wellFormed : before.WellFormed)
    (laterLocated : after.Located)
    (laterWellFormed : after.WellFormed)
    (same : after.descriptors = before.descriptors) :
    after.codeSize = before.codeSize := by
  rw [laterLocated.codeSize_eq laterWellFormed, located.codeSize_eq wellFormed, same]

/-- Code grows by the size of what is appended. -/
theorem Located.codeSize_push
    {before after : Layout}
    {descriptor : Descriptor}
    (located : before.Located)
    (wellFormed : before.WellFormed)
    (laterLocated : after.Located)
    (laterWellFormed : after.WellFormed)
    (pushed : after.descriptors = before.descriptors.push descriptor) :
    after.codeSize = before.codeSize + descriptor.size := by
  rw [laterLocated.codeSize_eq laterWellFormed, located.codeSize_eq wellFormed, pushed,
    Array.size_push, startOf_succ Array.getElem?_push_size, startOf,
    sizeBetween_push _ _ (Nat.le_refl _)]
  rfl

end Rv64Codegen.Layout
