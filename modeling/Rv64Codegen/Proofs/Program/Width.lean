import Rv64Codegen.Proofs.Program.WellFormed

namespace Rv64Codegen

/-!
# Offsets that fit

A layout fits if all its offsets and sizes are 32-bit numbers.  An answer that is
given only with a layout that fits tells that it does, and a layout that fits goes on
to fit while descriptors are appended where there is room for them.
-/

theorem Group.stop_extend (group : Group) (bytes : Nat) :
    (group.extend bytes).stop = group.stop + bytes :=
  (Nat.add_assoc _ _ _).symm

namespace Layout

variable
  {layout before after : Layout}

theorem codeSize_of_back
    {final : Group}
    (found : layout.groups[layout.groups.size - 1]? = some final) :
    layout.codeSize = final.stop := by
  rw [codeSize, Array.back?_eq_getElem?, found]

theorem currentSize_le_codeSize (layout : Layout) :
    layout.currentSize ≤ layout.codeSize := by
  unfold currentSize codeSize
  split
  · exact Nat.le_add_left _ _
  · exact Nat.le_refl 0

/-- A layout fits if its groups end, and its jumps stand, at 32-bit offsets. -/
theorem fits_iff :
    layout.fits = true ↔
      (∀ group ∈ layout.groups, group.stop < offsetRange) ∧
        ∀ jump ∈ layout.jumps, jump.offset < offsetRange := by
  unfold fits Group.fits
  rw [Bool.and_eq_true, Array.all_eq_true', Array.all_eq_true']
  simp only [decide_eq_true_eq]

/-- The size of code that fits is a 32-bit number. -/
theorem codeSize_lt_of_fits
    (fits : layout.fits = true) :
    layout.codeSize < offsetRange := by
  unfold codeSize
  split
  · rename_i final isLast
    exact (fits_iff.mp fits).1 final (Array.mem_of_back? isLast)
  · decide

/-!
## Answers that come with a layout
-/

/-- An answer is given exactly with a layout that fits. -/
theorem ifFits_eq_ok_iff
    {answer : Except Failure α}
    {value : α} :
    layout.ifFits answer = .ok value ↔ layout.fits = true ∧ answer = .ok value := by
  unfold ifFits
  split <;> simp_all

theorem ifFits_of_fits
    (fits : layout.fits = true)
    (answer : Except Failure α) :
    layout.ifFits answer = answer :=
  if_pos fits

/-- A refusal, which does not come from the width of offsets, is the refusal of the answer. -/
theorem ifFits_eq_refused_iff
    {answer : Except Failure α}
    {cause : EmissionError} :
    layout.ifFits answer = .error (.refused cause) ↔
      layout.fits = true ∧ answer = .error (.refused cause) := by
  unfold ifFits
  split <;> simp_all

/-- What does not break comes with a layout that fits. -/
theorem fits_of_ifFits
    {answer : Except Failure α}
    (unbroken : layout.ifFits answer ≠ .error .broken) :
    layout.fits = true := by
  unfold ifFits at unbroken
  split at unbroken
  · assumption
  · exact absurd rfl unbroken

/-!
## Layouts that go on to fit
-/

theorem stops_bindLabel
    (layout : Layout)
    (group : GroupId) :
    Pointwise (fun old new : Group => new.stop = old.stop)
      layout.groups (layout.groups.modify group.index ({ · with isTarget := true })) :=
  Pointwise.modify (by intro; rfl) _ _ (by intros; rfl)

/-- All groups end where groups ended before, and all jumps stand where jumps stood. -/
structure Stays (before after : Layout) : Prop where
  groups : ∀ group ∈ after.groups, ∃ old ∈ before.groups, group.stop = old.stop
  jumps : ∀ jump ∈ after.jumps, ∃ old ∈ before.jumps, jump.offset = old.offset

namespace Stays

theorem of_eq
    (groups : after.groups = before.groups)
    (jumps : after.jumps = before.jumps) :
    before.Stays after where
  groups := fun group member => ⟨group, groups ▸ member, rfl⟩
  jumps := fun jump member => ⟨jump, jumps ▸ member, rfl⟩

theorem openGroup
    (wellFormed : layout.WellFormed) :
    layout.Stays layout.openGroup := by
  obtain ⟨final, found⟩ := wellFormed.partitioned.exists_last
  rw [openGroup_eq found]
  refine ⟨?_, fun jump member => ⟨jump, member, rfl⟩⟩
  intro group member
  rcases Array.mem_push.mp member with known | rfl
  · exact ⟨group, known, rfl⟩
  · exact ⟨final, Array.mem_of_getElem? found, rfl⟩

theorem bindLabel
    (layout : Layout)
    (label : LabelId)
    (group : GroupId) :
    layout.Stays (layout.bindLabel label group) where
  groups := fun _ member => (stops_bindLabel layout group).exists_of_mem member
  jumps := fun jump member => ⟨jump, member, rfl⟩

theorem keepLong
    (layout : Layout)
    (id : Nat) :
    layout.Stays
      { layout with jumps := layout.jumps.modify id ({ · with keepLong := true }) } := by
  have same :
      Pointwise (fun old new : Jump => new.offset = old.offset)
        layout.jumps (layout.jumps.modify id ({ · with keepLong := true })) :=
    Pointwise.modify (by intro; rfl) _ _ (by intros; rfl)
  exact ⟨fun group member => ⟨group, member, rfl⟩, fun _ member => same.exists_of_mem member⟩

theorem fits
    (stays : before.Stays after)
    (fits : before.fits = true) :
    after.fits = true := by
  obtain ⟨groups, jumps⟩ := fits_iff.mp fits
  refine fits_iff.mpr ⟨?_, ?_⟩
  · intro group member
    obtain ⟨old, known, stop⟩ := stays.groups group member
    rw [stop]
    exact groups old known
  · intro jump member
    obtain ⟨old, known, offset⟩ := stays.jumps jump member
    rw [offset]
    exact jumps old known

end Stays

theorem fits_empty : Layout.empty.fits = true := by
  decide +kernel

/-- Only the last group ends later, at the new end of the code. -/
theorem fits_push
    {descriptor : Descriptor}
    (fits : layout.fits = true)
    (room : layout.codeSize + descriptor.size < offsetRange) :
    (layout.push descriptor).fits = true := by
  obtain ⟨groups, jumps⟩ := fits_iff.mp fits
  refine fits_iff.mpr ⟨?_, jumps⟩
  intro group member
  obtain ⟨index, found⟩ := Array.mem_iff_getElem?.mp member
  unfold push at found
  rw [Array.getElem?_modify] at found
  split at found
  · rename_i isLast
    obtain ⟨final, foundFinal, rfl⟩ := Option.map_eq_some_iff.mp found
    rw [← isLast] at foundFinal
    rw [Group.stop_extend, ← codeSize_of_back foundFinal]
    exact room
  · exact groups group (Array.mem_of_getElem? found)

/-- A new jump stands at the end of its group, which is not behind the end of the code. -/
theorem fits_pushFresh
    (fits : layout.fits = true)
    (room : layout.codeSize + 4 < offsetRange)
    (kind : JumpKind)
    (target : JumpTarget) :
    (layout.pushFresh kind target).fits = true := by
  have pushed :
      (layout.push (.ofOperation (.jump ⟨layout.jumps.size⟩))).fits = true :=
    fits_push fits room
  obtain ⟨groups, jumps⟩ := fits_iff.mp pushed
  refine fits_iff.mpr ⟨groups, ?_⟩
  intro jump member
  rcases Array.mem_push.mp member with known | rfl
  · exact jumps jump known
  · show layout.currentSize < offsetRange
    have part := layout.currentSize_le_codeSize
    omega

end Layout

end Rv64Codegen
