import Rv64Codegen.Proofs.Program.Partition

namespace Rv64Codegen.Layout

/-!
# Offsets of descriptors

A descriptor stands behind everything in front of it.  When every group starts
at the sum of all sizes in front of it, the offsets that are counted group by
group are these sums.
-/

/-- The offset of a descriptor: the sizes of all descriptors in front of it. -/
def startOf
    (descriptors : Array Descriptor)
    (index : Nat) :
    Nat :=
  sizeBetween descriptors 0 index

@[simp] theorem startOf_zero (descriptors : Array Descriptor) :
    startOf descriptors 0 = 0 :=
  sizeBetween_self descriptors 0

theorem startOf_add_sizeBetween
    (descriptors : Array Descriptor)
    {first last : Nat}
    (forward : first ≤ last) :
    startOf descriptors first + sizeBetween descriptors first last =
      startOf descriptors last :=
  (sizeBetween_split descriptors (Nat.zero_le first) forward).symm

theorem startOf_succ
    {descriptors : Array Descriptor}
    {index : Nat}
    {descriptor : Descriptor}
    (found : descriptors[index]? = some descriptor) :
    startOf descriptors (index + 1) = startOf descriptors index + descriptor.size :=
  sizeBetween_succ_of_getElem? (Nat.zero_le index) found

theorem startOf_mono
    (descriptors : Array Descriptor)
    {early late : Nat}
    (order : early ≤ late) :
    startOf descriptors early ≤ startOf descriptors late :=
  sizeBetween_mono descriptors order

/-- Every group starts where its first descriptor does. -/
def Placed
    (groups : Array Group)
    (descriptors : Array Descriptor) :
    Prop :=
  ∀ (index : Nat) (group : Group),
    groups[index]? = some group → group.offset = startOf descriptors group.first

/-- Groups that take up the descriptors one run after the other, from an index on. -/
def Tiles
    (descriptors : Array Descriptor) :
    Nat → List Group → Prop
  | start, [] =>
      start = descriptors.size
  | start, group :: rest =>
      group.first = start ∧ group.last ≤ descriptors.size ∧ Tiles descriptors group.last rest

namespace Partitioned

variable
  {groups : Array Group}
  {descriptors : Array Descriptor}

/-- The groups from some index on take up what the ones in front have left. -/
theorem tiles_drop
    (partitioned : Partitioned groups descriptors)
    {index : Nat}
    {group : Group}
    (found : groups[index]? = some group) :
    Tiles descriptors group.first (groups.toList.drop index) := by
  obtain ⟨inside, isGroup⟩ := Array.getElem?_eq_some_iff.mp found
  have head : groups.toList.drop index = group :: groups.toList.drop (index + 1) := by
    rw [List.drop_eq_getElem_cons (by simpa using inside)]
    simp [isGroup]
  rw [head]
  refine ⟨rfl, partitioned.last_le_size found, ?_⟩
  by_cases isLast : index + 1 = groups.size
  · rw [List.drop_of_length_le (by simp [isLast])]
    exact partitioned.last group (by rw [← isLast]; exact found)
  · have insideNext : index + 1 < groups.size := by omega
    have foundNext : groups[index + 1]? = some groups[index + 1] :=
      Array.getElem?_eq_getElem insideNext
    rw [← partitioned.next index group _ found foundNext]
    exact partitioned.tiles_drop foundNext
termination_by groups.size - index

theorem tiles (partitioned : Partitioned groups descriptors) :
    Tiles descriptors 0 groups.toList := by
  have found : groups[0]? = some (groups.getD 0 (Group.startingAt 0 0)) := by
    rw [Array.getD, dif_pos partitioned.nonempty]
    exact Array.getElem?_eq_getElem partitioned.nonempty
  rw [← partitioned.first _ found]
  exact partitioned.tiles_drop found

/-- In a placed layout a group ends where the descriptors behind it start. -/
theorem stop_eq
    (partitioned : Partitioned groups descriptors)
    (placed : Placed groups descriptors)
    {index : Nat}
    {group : Group}
    (found : groups[index]? = some group) :
    group.stop = startOf descriptors group.last := by
  rw [Group.stop, placed index group found, partitioned.size index group found]
  exact startOf_add_sizeBetween descriptors (first_le_last group)

end Partitioned

/-- The code of a placed layout is as large as all descriptors together. -/
theorem codeSize_eq
    {layout : Layout}
    (partitioned : Partitioned layout.groups layout.descriptors)
    (placed : Placed layout.groups layout.descriptors) :
    layout.codeSize = startOf layout.descriptors layout.descriptors.size := by
  obtain ⟨final, foundFinal⟩ := partitioned.exists_last
  have isBack : layout.groups.back? = some final := by
    rw [Array.back?_eq_getElem?]
    exact foundFinal
  rw [codeSize, isBack, ← partitioned.last final foundFinal]
  exact partitioned.stop_eq placed foundFinal

/-- The offsets of the first descriptors, in order. -/
def starts
    (descriptors : Array Descriptor)
    (count : Nat) :
    Array Nat :=
  (Array.range count).map (startOf descriptors)

theorem starts_succ
    (descriptors : Array Descriptor)
    (count : Nat) :
    starts descriptors (count + 1) =
      (starts descriptors count).push (startOf descriptors count) := by
  simp [starts, Array.range_succ]

theorem getElem?_starts
    {descriptors : Array Descriptor}
    {count index : Nat}
    (inside : index < count) :
    (starts descriptors count)[index]? = some (startOf descriptors index) := by
  simp [starts, inside]

/-- Appending the offsets of a run that follows continues the offsets. -/
theorem appendOffsets_starts
    (descriptors : Array Descriptor)
    {first last : Nat}
    (forward : first ≤ last)
    (inside : last ≤ descriptors.size) :
    appendOffsets (starts descriptors first) (startOf descriptors first)
        (descriptors.extract first last) =
      starts descriptors last := by
  have folded :
      (descriptors.extract first last).foldl
          (fun state descriptor => (state.1.push state.2, state.2 + descriptor.size))
          (starts descriptors first, startOf descriptors first) =
        (starts descriptors last, startOf descriptors last) := by
    induction last with
    | zero =>
        obtain rfl : first = 0 := Nat.le_zero.mp forward
        rw [Array.extract_empty_of_stop_le_start (Nat.le_refl 0)]
        rfl
    | succ last inductionHypothesis =>
        by_cases atEnd : first = last + 1
        · rw [atEnd, Array.extract_empty_of_stop_le_start (Nat.le_refl _)]
          rfl
        · have before : first ≤ last := by omega
          have lastInside : last < descriptors.size := inside
          have longer :
              descriptors.extract first (last + 1) =
                (descriptors.extract first last).push descriptors[last] := by
            rw [Array.extract_succ_right (by omega) lastInside]
          rw [longer, Array.foldl_push, inductionHypothesis before (by omega), starts_succ,
            startOf_succ (Array.getElem?_eq_getElem lastInside)]
  exact congrArg Prod.fst folded

/-- Counted group by group, the offsets of a placed layout are sums of sizes. -/
theorem descriptorOffsets_eq
    {layout : Layout}
    (partitioned : Partitioned layout.groups layout.descriptors)
    (placed : Placed layout.groups layout.descriptors) :
    layout.descriptorOffsets = starts layout.descriptors layout.descriptors.size := by
  have continued :
      ∀ (groups : List Group) (start : Nat),
        Tiles layout.descriptors start groups →
          (∀ group ∈ groups, group.offset = startOf layout.descriptors group.first) →
            groups.foldl
                (fun offsets group =>
                  appendOffsets offsets group.offset (layout.groupDescriptors group))
                (starts layout.descriptors start) =
              starts layout.descriptors layout.descriptors.size := by
    intro groups
    induction groups with
    | nil =>
        intro start tiled _
        rw [List.foldl_nil, tiled]
    | cons group rest inductionHypothesis =>
        rintro start ⟨rfl, inside, tiled⟩ offsets
        have offset := offsets group (by simp)
        rw [List.foldl_cons, offset, groupDescriptors,
          appendOffsets_starts layout.descriptors (first_le_last group) inside]
        exact inductionHypothesis group.last tiled
          fun later member => offsets later (by simp [member])
  have none : starts layout.descriptors 0 = #[] := by
    simp [starts]
  rw [descriptorOffsets, ← Array.foldl_toList, ← none]
  refine continued _ 0 partitioned.tiles ?_
  intro group member
  obtain ⟨index, inside, isGroup⟩ := List.getElem_of_mem member
  refine placed index group ?_
  rw [← Array.getElem?_toList, List.getElem?_eq_getElem inside, isGroup]

end Rv64Codegen.Layout
