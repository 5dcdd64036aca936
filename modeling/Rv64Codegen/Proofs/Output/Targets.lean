import Rv64Codegen.Output.Writer
import Rv64Codegen.Proofs.Program.Agreement
import Rv64Codegen.Proofs.Program.Offsets

namespace Rv64Codegen.Layout

/-!
# Offsets of labels and targets

In a placed layout the offset of a label is the sum of all sizes in front of its
place.  The offsets of targets are these offsets, in strictly ascending order:
groups stand in order, and of several marked groups without code between them only
one is counted.
-/

variable
  {layout : Layout}

/-- The offsets of labels, said without groups. -/
theorem labelOffsets_eq
    (placed : Placed layout.groups layout.descriptors) :
    layout.labelOffsets =
      (Array.range layout.labels.size).map fun index =>
        (layout.labelPlace? ⟨index⟩).map (startOf layout.descriptors) := by
  apply Array.ext_getElem?
  intro index
  rw [labelOffsets, Array.getElem?_map, Array.getElem?_map]
  by_cases inside : index < layout.labels.size
  · have found := Array.getElem?_eq_getElem inside
    rw [found, Array.getElem?_range, if_pos inside, Option.map_some, Option.map_some,
      labelPlace?, labelGroup?, found, Option.join_some]
    cases layout.labels[index] with
    | none =>
        rfl
    | some target =>
        cases foundGroup : layout.groups[target.index]? with
        | none =>
            simp [foundGroup]
        | some group =>
            simp [foundGroup, placed target.index group foundGroup]
  · rw [Array.getElem?_eq_none (by omega), Array.getElem?_eq_none (by simpa using inside)]
    rfl

/-- A label has an offset exactly when it has a place. -/
theorem getElem?_labelOffsets_iff
    (placed : Placed layout.groups layout.descriptors)
    (label : LabelId)
    {offset : Nat} :
    layout.labelOffsets[label.index]? = some (some offset) ↔
      ∃ place,
        layout.labelPlace? label = some place ∧ startOf layout.descriptors place = offset := by
  rw [labelOffsets, Array.getElem?_map, Option.map_eq_some_iff]
  constructor
  · rintro ⟨bound, isLabel, isOffset⟩
    obtain ⟨target, rfl, isOffset⟩ := Option.bind_eq_some_iff.mp isOffset
    obtain ⟨group, found, rfl⟩ := Option.map_eq_some_iff.mp isOffset
    refine ⟨group.first, labelPlace?_eq_some_iff.mpr ⟨target, group, ?_, found, rfl⟩,
      (placed target.index group found).symm⟩
    rw [labelGroup?, isLabel]
    rfl
  · rintro ⟨place, stands, rfl⟩
    obtain ⟨target, group, isBound, found, rfl⟩ := labelPlace?_eq_some_iff.mp stands
    refine ⟨some target, Option.join_eq_some_iff.mp isBound, ?_⟩
    rw [Option.bind_some, found, Option.map_some, placed target.index group found]

/-- Group offsets ascend. -/
theorem Partitioned.pairwise_offset
    (partitioned : Partitioned layout.groups layout.descriptors)
    (placed : Placed layout.groups layout.descriptors) :
    layout.groups.toList.Pairwise fun early late => early.offset ≤ late.offset := by
  rw [List.pairwise_iff_getElem]
  intro left right leftInside rightInside order
  have foundLeft : layout.groups[left]? = some layout.groups.toList[left] := by
    rw [← Array.getElem?_toList, List.getElem?_eq_getElem leftInside]
  have foundRight : layout.groups[right]? = some layout.groups.toList[right] := by
    rw [← Array.getElem?_toList, List.getElem?_eq_getElem rightInside]
  rw [placed left _ foundLeft, placed right _ foundRight]
  exact startOf_mono _ (Nat.le_trans (first_le_last _)
    (partitioned.last_le_first order foundLeft foundRight))

/-- Count the offset of a group if the group is marked and the offset is a new one. -/
def appendTarget
    (offsets : Array Nat)
    (group : Group) :
    Array Nat :=
  if group.isTarget ∧ offsets.back? ≠ some group.offset then
    offsets.push group.offset
  else
    offsets

theorem targetOffsets_eq (layout : Layout) :
    layout.targetOffsets = layout.groups.toList.foldl appendTarget #[] :=
  (Array.foldl_toList _).symm

/-- Offsets in ascending order, none of them behind a number. -/
structure AscendsTo
    (offsets : Array Nat)
    (next : Nat) :
    Prop where
  ascending : offsets.toList.Pairwise (· < ·)
  below : ∀ offset ∈ offsets, offset ≤ next

/-- A number that is not the last of the offsets is behind all of them. -/
theorem AscendsTo.lt_of_back?_ne
    {offsets : Array Nat}
    {next : Nat}
    (ascends : AscendsTo offsets next)
    (different : offsets.back? ≠ some next) :
    ∀ offset ∈ offsets, offset < next := by
  intro offset member
  have ascending := ascends.ascending
  rw [← Array.getLast?_toList] at different
  rcases List.eq_nil_or_concat offsets.toList with isEmpty | ⟨front, last, isConcat⟩
  · rw [← Array.mem_toList_iff, isEmpty] at member
    cases member
  · rw [List.concat_eq_append] at isConcat
    rw [isConcat, List.getLast?_concat] at different
    rw [isConcat, List.pairwise_append] at ascending
    have lastBelow : last < next := by
      have atMost := ascends.below last (by rw [← Array.mem_toList_iff, isConcat]; simp)
      exact Nat.lt_of_le_of_ne atMost fun same => different (congrArg some same)
    rw [← Array.mem_toList_iff, isConcat, List.mem_append] at member
    rcases member with inFront | isLast
    · exact Nat.lt_trans (ascending.2.2 offset inFront last (by simp)) lastBelow
    · rw [List.mem_singleton.mp isLast]
      exact lastBelow

/-- Counting a group keeps the order and adds its offset if it is marked. -/
theorem AscendsTo.appendTarget
    {offsets : Array Nat}
    {group : Group}
    (ascends : AscendsTo offsets group.offset) :
    AscendsTo (appendTarget offsets group) group.offset ∧
      ∀ offset,
        offset ∈ Layout.appendTarget offsets group ↔
          offset ∈ offsets ∨ (group.isTarget = true ∧ group.offset = offset) := by
  unfold Layout.appendTarget
  split
  · rename_i counted
    have behind := ascends.lt_of_back?_ne counted.2
    refine ⟨⟨?_, ?_⟩, ?_⟩
    · rw [Array.toList_push, List.pairwise_append]
      refine ⟨ascends.ascending, List.pairwise_singleton _ _, ?_⟩
      intro offset member last isLast
      rw [List.mem_singleton.mp isLast]
      exact behind offset (Array.mem_toList_iff.mp member)
    · intro offset member
      rcases Array.mem_push.mp member with old | rfl
      · exact ascends.below offset old
      · exact Nat.le_refl _
    · intro offset
      rw [Array.mem_push]
      constructor
      · rintro (old | rfl)
        · exact Or.inl old
        · exact Or.inr ⟨counted.1, rfl⟩
      · rintro (old | ⟨-, rfl⟩)
        · exact Or.inl old
        · exact Or.inr rfl
  · rename_i notCounted
    refine ⟨ascends, ?_⟩
    intro offset
    refine ⟨Or.inl, ?_⟩
    rintro (old | ⟨isTarget, rfl⟩)
    · exact old
    · -- The group is marked, so its offset is the last one already.
      have isLast : offsets.back? = some group.offset :=
        Decidable.byContradiction fun different => notCounted ⟨isTarget, different⟩
      exact Array.mem_of_back? isLast

/-- Counting groups in order gives their offsets in order. -/
theorem foldl_appendTarget
    {groups : List Group}
    (offsets : Array Nat)
    (ordered : groups.Pairwise fun early late => early.offset ≤ late.offset)
    (ascending : offsets.toList.Pairwise (· < ·))
    (below : ∀ offset ∈ offsets, ∀ group ∈ groups, offset ≤ group.offset) :
    (groups.foldl appendTarget offsets).toList.Pairwise (· < ·) ∧
      ∀ offset,
        offset ∈ groups.foldl appendTarget offsets ↔
          offset ∈ offsets ∨
            ∃ group ∈ groups, group.isTarget = true ∧ group.offset = offset := by
  induction groups generalizing offsets with
  | nil =>
      exact ⟨ascending, fun offset => by simp⟩
  | cons group rest inductionHypothesis =>
      rw [List.pairwise_cons] at ordered
      have ascends : AscendsTo offsets group.offset :=
        ⟨ascending, fun offset member => below offset member group (by simp)⟩
      obtain ⟨next, members⟩ := ascends.appendTarget
      have nextBelow :
          ∀ offset ∈ appendTarget offsets group, ∀ later ∈ rest, offset ≤ later.offset :=
        fun offset member later isLater =>
          Nat.le_trans (next.below offset member) (ordered.1 later isLater)
      obtain ⟨final, finalMembers⟩ := inductionHypothesis _ ordered.2 next.ascending nextBelow
      refine ⟨final, ?_⟩
      intro offset
      rw [List.foldl_cons, finalMembers, members, or_assoc]
      simp

/-- The offsets of targets ascend. -/
theorem pairwise_targetOffsets
    (partitioned : Partitioned layout.groups layout.descriptors)
    (placed : Placed layout.groups layout.descriptors) :
    layout.targetOffsets.toList.Pairwise (· < ·) := by
  rw [targetOffsets_eq]
  exact (foldl_appendTarget #[] (partitioned.pairwise_offset placed) List.Pairwise.nil
    (by simp)).1

/-- The offsets of targets are those of marked groups. -/
theorem mem_targetOffsets_iff
    (partitioned : Partitioned layout.groups layout.descriptors)
    (placed : Placed layout.groups layout.descriptors)
    {offset : Nat} :
    offset ∈ layout.targetOffsets ↔
      ∃ group ∈ layout.groups, group.isTarget = true ∧ group.offset = offset := by
  have members :=
    (foldl_appendTarget #[] (partitioned.pairwise_offset placed) List.Pairwise.nil
      (by simp)).2 offset
  rw [targetOffsets_eq, members]
  simp

end Rv64Codegen.Layout
