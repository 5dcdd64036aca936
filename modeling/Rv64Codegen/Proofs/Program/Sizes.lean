import Rv64Codegen.Program.Layout

namespace Rv64Codegen.Layout

/-!
# Sizes of runs of descriptors

Every offset of a program is a sum of descriptor sizes.  The sum over a run is
taken apart at any index between its ends, it only looks at the sizes inside of
the run, and it grows by what a descriptor inside of the run grows by.
-/

/-- The size of a descriptor; there is nothing behind the last one. -/
def sizeAt
    (descriptors : Array Descriptor)
    (index : Nat) :
    Nat :=
  match descriptors[index]? with
  | some descriptor => descriptor.size
  | none => 0

theorem sizeAt_of_getElem?
    {descriptors : Array Descriptor}
    {index : Nat}
    {descriptor : Descriptor}
    (found : descriptors[index]? = some descriptor) :
    sizeAt descriptors index = descriptor.size := by
  rw [sizeAt, found]

theorem sizeAt_of_none
    {descriptors : Array Descriptor}
    {index : Nat}
    (outside : descriptors[index]? = none) :
    sizeAt descriptors index = 0 := by
  rw [sizeAt, outside]

theorem sizeBetween_of_le
    (descriptors : Array Descriptor)
    {first last : Nat}
    (backward : last ≤ first) :
    sizeBetween descriptors first last = 0 := by
  rw [sizeBetween, Array.extract_empty_of_stop_le_start backward]
  rfl

@[simp] theorem sizeBetween_self
    (descriptors : Array Descriptor)
    (index : Nat) :
    sizeBetween descriptors index index = 0 :=
  sizeBetween_of_le descriptors (Nat.le_refl index)

/-- A run that is longer by one descriptor is larger by its size. -/
theorem sizeBetween_succ
    (descriptors : Array Descriptor)
    {first last : Nat}
    (forward : first ≤ last) :
    sizeBetween descriptors first (last + 1) =
      sizeBetween descriptors first last + sizeAt descriptors last := by
  by_cases inside : last < descriptors.size
  · have found : descriptors[last]? = some descriptors[last] :=
      Array.getElem?_eq_getElem inside
    have longer :
        descriptors.extract first (last + 1) =
          (descriptors.extract first last).push descriptors[last] := by
      rw [Array.extract_succ_right (by omega) inside]
    rw [sizeAt_of_getElem? found, sizeBetween, longer, Array.foldl_push, sizeBetween]
  · have outside : descriptors[last]? = none :=
      Array.getElem?_eq_none (Nat.le_of_not_lt inside)
    have same :
        descriptors.extract first (last + 1) = descriptors.extract first last := by
      rw [Array.extract_eq_extract_right]
      omega
    rw [sizeAt, outside, sizeBetween, same, sizeBetween]
    rfl

theorem sizeBetween_succ_of_getElem?
    {descriptors : Array Descriptor}
    {first last : Nat}
    {descriptor : Descriptor}
    (forward : first ≤ last)
    (found : descriptors[last]? = some descriptor) :
    sizeBetween descriptors first (last + 1) =
      sizeBetween descriptors first last + descriptor.size := by
  rw [sizeBetween_succ descriptors forward, sizeAt_of_getElem? found]

/-- A run is cut in two at any index between its ends. -/
theorem sizeBetween_split
    (descriptors : Array Descriptor)
    {first middle last : Nat}
    (early : first ≤ middle)
    (late : middle ≤ last) :
    sizeBetween descriptors first last =
      sizeBetween descriptors first middle + sizeBetween descriptors middle last := by
  induction last with
  | zero =>
      obtain rfl : middle = 0 := Nat.le_zero.mp late
      rw [sizeBetween_self, Nat.add_zero]
  | succ last inductionHypothesis =>
      by_cases atEnd : middle = last + 1
      · rw [atEnd, sizeBetween_self]
        exact (Nat.add_zero _).symm
      · have before : middle ≤ last := by omega
        rw [sizeBetween_succ descriptors (Nat.le_trans early before),
          sizeBetween_succ descriptors before, inductionHypothesis before, Nat.add_assoc]

/-- A longer run is not smaller. -/
theorem sizeBetween_mono
    (descriptors : Array Descriptor)
    {first middle last : Nat}
    (late : middle ≤ last) :
    sizeBetween descriptors first middle ≤ sizeBetween descriptors first last := by
  by_cases early : first ≤ middle
  · rw [sizeBetween_split descriptors early late]
    exact Nat.le_add_right _ _
  · rw [sizeBetween_of_le descriptors (by omega)]
    exact Nat.zero_le _

/-- A run only depends on the sizes inside of it. -/
theorem sizeBetween_congr
    {before after : Array Descriptor}
    {first last : Nat}
    (same : ∀ index, first ≤ index → index < last → sizeAt after index = sizeAt before index) :
    sizeBetween after first last = sizeBetween before first last := by
  induction last with
  | zero =>
      rw [sizeBetween_of_le after (Nat.zero_le _), sizeBetween_of_le before (Nat.zero_le _)]
  | succ last inductionHypothesis =>
      by_cases forward : first ≤ last
      · rw [sizeBetween_succ after forward, sizeBetween_succ before forward,
          same last forward (Nat.lt_succ_self last)]
        rw [inductionHypothesis fun index lower upper => same index lower (by omega)]
      · rw [sizeBetween_of_le after (by omega), sizeBetween_of_le before (by omega)]

/-- A run is not larger than another one whose sizes are not smaller. -/
theorem sizeBetween_le_of_sizeAt_le
    {small large : Array Descriptor}
    {first last : Nat}
    (sizes : ∀ index, index < last → sizeAt small index ≤ sizeAt large index) :
    sizeBetween small first last ≤ sizeBetween large first last := by
  induction last with
  | zero =>
      rw [sizeBetween_of_le small (Nat.zero_le _)]
      exact Nat.zero_le _
  | succ last inductionHypothesis =>
      by_cases forward : first ≤ last
      · rw [sizeBetween_succ small forward, sizeBetween_succ large forward]
        exact Nat.add_le_add
          (inductionHypothesis fun index inside => sizes index (Nat.lt_succ_of_lt inside))
          (sizes last (Nat.lt_succ_self last))
      · rw [sizeBetween_of_le small (Nat.lt_of_not_le forward)]
        exact Nat.zero_le _

theorem sizeBetween_push
    (descriptors : Array Descriptor)
    (descriptor : Descriptor)
    {first last : Nat}
    (inside : last ≤ descriptors.size) :
    sizeBetween (descriptors.push descriptor) first last =
      sizeBetween descriptors first last := by
  apply sizeBetween_congr
  intro index _ upper
  rw [sizeAt, sizeAt, Array.getElem?_push_lt (by omega), Array.getElem?_eq_getElem (by omega)]

/-- Let one descriptor take more bytes. -/
def growAt
    (descriptors : Array Descriptor)
    (index bytes : Nat) :
    Array Descriptor :=
  descriptors.modify index fun descriptor =>
    { descriptor with size := descriptor.size + bytes }

@[simp] theorem size_growAt
    (descriptors : Array Descriptor)
    (index bytes : Nat) :
    (growAt descriptors index bytes).size = descriptors.size :=
  Array.size_modify

theorem getElem?_growAt
    (descriptors : Array Descriptor)
    (index bytes place : Nat) :
    (growAt descriptors index bytes)[place]? =
      descriptors[place]?.map fun descriptor =>
        if place = index then { descriptor with size := descriptor.size + bytes }
        else descriptor := by
  rw [growAt, Array.getElem?_modify]
  by_cases here : index = place
  · subst here
    simp
  · simp [here, Ne.symm here]

/-- All other descriptors stay as they are. -/
theorem getElem?_growAt_of_ne
    (descriptors : Array Descriptor)
    (bytes : Nat)
    {index place : Nat}
    (other : place ≠ index) :
    (growAt descriptors index bytes)[place]? = descriptors[place]? := by
  rw [growAt, Array.getElem?_modify, if_neg (Ne.symm other)]

theorem growAt_zero
    (descriptors : Array Descriptor)
    (index : Nat) :
    growAt descriptors index 0 = descriptors := by
  apply Array.ext_getElem?
  intro place
  rw [getElem?_growAt]
  cases descriptors[place]? with
  | none =>
      rfl
  | some descriptor =>
      simp

theorem sizeAt_growAt
    {descriptors : Array Descriptor}
    {index : Nat}
    (bytes place : Nat)
    (inside : index < descriptors.size) :
    sizeAt (growAt descriptors index bytes) place =
      sizeAt descriptors place + if place = index then bytes else 0 := by
  rw [sizeAt, sizeAt, getElem?_growAt]
  by_cases here : place = index
  · subst here
    rw [Array.getElem?_eq_getElem inside]
    simp
  · cases descriptors[place]? with
    | none =>
        simp [here]
    | some descriptor =>
        simp [here]

/-- A run grows by what a descriptor inside of it grows by. -/
theorem sizeBetween_growAt
    {descriptors : Array Descriptor}
    {index : Nat}
    (bytes first last : Nat)
    (inside : index < descriptors.size) :
    sizeBetween (growAt descriptors index bytes) first last =
      sizeBetween descriptors first last +
        if first ≤ index ∧ index < last then bytes else 0 := by
  induction last with
  | zero =>
      rw [sizeBetween_of_le _ (Nat.zero_le _), sizeBetween_of_le _ (Nat.zero_le _),
        if_neg (by omega)]
  | succ last inductionHypothesis =>
      by_cases forward : first ≤ last
      · rw [sizeBetween_succ _ forward, sizeBetween_succ _ forward,
          sizeAt_growAt _ _ inside, inductionHypothesis]
        by_cases here : last = index
        · subst here
          rw [if_neg (by omega), if_pos rfl, if_pos (by omega)]
          omega
        · rw [if_neg here]
          by_cases before : first ≤ index ∧ index < last
          · rw [if_pos before, if_pos (by omega)]
            omega
          · rw [if_neg before, if_neg (by omega)]
            omega
      · rw [sizeBetween_of_le _ (by omega), sizeBetween_of_le _ (by omega),
          if_neg (by omega)]

end Rv64Codegen.Layout
