import Rv64Codegen.Proofs.Program.Located
import Rv64Codegen.Proofs.Relaxation.Visit

namespace Rv64Codegen

/-!
# Offsets during a pass

Between two passes every group and every jump of a layout stands where its
descriptor starts.  During a pass this holds of what the pass has reached; a
group that it has not entered yet is behind by all the growth so far, and a jump
that is still to come in the current group by the growth in that group.
-/

namespace Layout

/-- What stands in front of a descriptor that grows stays where it is. -/
theorem startOf_growAt_of_le
    {descriptors : Array Descriptor}
    {index place : Nat}
    (bytes : Nat)
    (inside : index < descriptors.size)
    (before : place ≤ index) :
    startOf (growAt descriptors index bytes) place = startOf descriptors place := by
  rw [startOf, sizeBetween_growAt bytes 0 place inside, if_neg (by omega)]
  rfl

/-- What stands behind a descriptor that grows moves up. -/
theorem startOf_growAt_of_lt
    {descriptors : Array Descriptor}
    {index place : Nat}
    (bytes : Nat)
    (inside : index < descriptors.size)
    (behind : index < place) :
    startOf (growAt descriptors index bytes) place = startOf descriptors place + bytes := by
  rw [startOf, sizeBetween_growAt bytes 0 place inside, if_pos ⟨Nat.zero_le _, behind⟩]
  rfl

end Layout

namespace Relaxation

open Layout (startOf growAt)

namespace Sweep

/-- How the offsets of a pass are related to where descriptors start. -/
structure Located
    (sweep : Sweep)
    (pending : List Jump) :
    Prop where
  passed :
    ∀ (index : Nat) (group : Group),
      sweep.groups[index]? = some group → index < sweep.nextGroup →
        group.offset = startOf sweep.descriptors group.first
  coming :
    ∀ (index : Nat) (group : Group),
      sweep.groups[index]? = some group → sweep.nextGroup ≤ index →
        group.offset + sweep.growth = startOf sweep.descriptors group.first
  entered :
    ∀ (id : Nat) (jump : Jump),
      sweep.visited[id]? = some jump → jump.group.index < sweep.nextGroup
  visited :
    ∀ (id : Nat) (jump : Jump) (own : Group),
      sweep.visited[id]? = some jump →
        sweep.groups[jump.group.index]? = some own →
          own.offset + jump.offset = startOf sweep.descriptors jump.descriptor
  ahead :
    ∀ jump ∈ pending, sweep.nextGroup ≤ jump.group.index + 1
  here :
    ∀ jump ∈ pending, ∀ own : Group,
      sweep.groups[jump.group.index]? = some own →
        sweep.nextGroup = jump.group.index + 1 →
          own.offset + (jump.offset + sweep.groupGrowth) =
            startOf sweep.descriptors jump.descriptor
  later :
    ∀ jump ∈ pending, ∀ own : Group,
      sweep.groups[jump.group.index]? = some own →
        sweep.nextGroup ≤ jump.group.index →
          own.offset + sweep.growth + jump.offset =
            startOf sweep.descriptors jump.descriptor

/-- A pass starts with everything in place. -/
theorem located_begin
    {layout : Layout}
    (located : layout.Located) :
    (begin layout).Located layout.jumps.toList where
  passed := by
    intro index group _ none
    exact absurd none (Nat.not_lt_zero index)
  coming := fun index group found _ => located.groups index group found
  entered := by
    intro id jump found
    cases found
  visited := by
    intro id jump own found
    cases found
  ahead := fun _ _ => Nat.zero_le _
  here := by
    intro jump _ own _ impossible
    cases impossible
  later := by
    intro jump member own foundOwn _
    obtain ⟨id, inside, isJump⟩ := List.getElem_of_mem member
    refine located.jumps id jump own ?_ foundOwn
    rw [← Array.getElem?_toList, List.getElem?_eq_getElem inside, isJump]

/-- Entering a group moves the groups up to it and no others. -/
theorem enter_groups_cases
    {sweep : Sweep}
    {group : GroupId}
    {index : Nat}
    {after : Group}
    (found : (sweep.enter group).groups[index]? = some after) :
    ∃ before,
      sweep.groups[index]? = some before ∧ after.first = before.first ∧
        ((sweep.nextGroup ≤ index ∧ index ≤ group.index ∧
            after.offset = before.offset + sweep.growth) ∨
          ((index < sweep.nextGroup ∨ group.index < index) ∧
            after.offset = before.offset)) := by
  rw [getElem?_enter_groups] at found
  obtain ⟨before, foundBefore, rfl⟩ := Option.map_eq_some_iff.mp found
  refine ⟨before, foundBefore, ?_⟩
  split
  · rename_i moved
    exact ⟨rfl, Or.inl ⟨moved.1, Nat.le_of_lt_succ moved.2, rfl⟩⟩
  · rename_i notMoved
    exact ⟨rfl, Or.inr ⟨by omega, rfl⟩⟩

/-- Entering the group of the next jump puts that group in place. -/
theorem Located.enter
    {sweep : Sweep}
    {jump : Jump}
    {pending : List Jump}
    (located : sweep.Located (jump :: pending))
    (ordered : ∀ other ∈ jump :: pending, jump.group.index ≤ other.group.index) :
    (sweep.enter jump.group).Located (jump :: pending) := by
  have reached := located.ahead jump (List.mem_cons_self ..)
  -- Groups up to the one that is entered have just been moved, or were in place already.
  refine ⟨?_, ?_, ?_, ?_, ?_, ?_, ?_⟩
  · intro index group found before
    rw [enter_nextGroup] at before
    rw [enter_descriptors]
    obtain ⟨old, foundOld, first, ⟨ahead, -, offset⟩ | ⟨still, offset⟩⟩ :=
      enter_groups_cases found
    · rw [first, offset]
      exact located.coming index old foundOld ahead
    · rw [first, offset]
      exact located.passed index old foundOld (by omega)
  · intro index group found behind
    rw [enter_nextGroup] at behind
    rw [enter_descriptors, enter_growth]
    obtain ⟨old, foundOld, first, ⟨-, upTo, -⟩ | ⟨-, offset⟩⟩ := enter_groups_cases found
    · omega
    · rw [first, offset]
      exact located.coming index old foundOld (by omega)
  · intro id visited found
    rw [enter_visited] at found
    rw [enter_nextGroup]
    exact Nat.lt_of_lt_of_le (located.entered id visited found) reached
  · intro id visited own found foundOwn
    rw [enter_visited] at found
    rw [enter_descriptors]
    have entered := located.entered id visited found
    obtain ⟨old, foundOld, -, ⟨ahead, -, -⟩ | ⟨-, offset⟩⟩ := enter_groups_cases foundOwn
    · omega
    · rw [offset]
      exact located.visited id visited old found foundOld
  · intro other member
    rw [enter_nextGroup]
    exact Nat.succ_le_succ (ordered other member)
  · intro other member own foundOwn isCurrent
    rw [enter_nextGroup] at isCurrent
    rw [enter_descriptors, enter_groupGrowth]
    obtain ⟨old, foundOld, -, ⟨ahead, -, offset⟩ | ⟨still, offset⟩⟩ :=
      enter_groups_cases foundOwn
    · have late := located.later other member old foundOld ahead
      rw [if_neg (by omega), offset]
      exact late
    · have isNext : sweep.nextGroup = other.group.index + 1 := by omega
      rw [if_pos (isNext.trans isCurrent.symm), offset]
      exact located.here other member old foundOld isNext
  · intro other member own foundOwn behind
    rw [enter_nextGroup] at behind
    rw [enter_descriptors, enter_growth]
    obtain ⟨old, foundOld, -, ⟨-, upTo, -⟩ | ⟨-, offset⟩⟩ := enter_groups_cases foundOwn
    · omega
    · rw [offset]
      exact located.later other member old foundOld (by omega)

/-!
## Program order
-/

section Order

variable
  {sweep : Sweep}
  {labels : Array (Option GroupId)}
  {jump : Jump}
  {pending : List Jump}

/-- A jump that is still to come has a number behind that of the next one. -/
theorem exists_id_of_pending
    (sweep : Sweep)
    (labels : Array (Option GroupId))
    (jump : Jump)
    {other : Jump}
    (member : other ∈ pending) :
    ∃ id,
      sweep.visited.size < id ∧
        (sweep.toLayout labels (jump :: pending)).jumps[id]? = some other := by
  obtain ⟨place, inside, rfl⟩ := List.getElem_of_mem member
  refine ⟨sweep.visited.size + (place + 1), by omega, ?_⟩
  show (sweep.visited ++ (jump :: pending))[sweep.visited.size + (place + 1)]? = _
  rw [← Array.getElem?_toList, Array.toList_appendList,
    List.getElem?_append_right (by simp)]
  simp [inside]

theorem descriptor_lt_of_pending
    (wellFormed : (sweep.toLayout labels (jump :: pending)).WellFormed)
    {other : Jump}
    (member : other ∈ pending) :
    jump.descriptor < other.descriptor := by
  obtain ⟨id, behind, found⟩ := sweep.exists_id_of_pending labels jump member
  exact wellFormed.ordered _ id jump other behind
    (sweep.getElem?_toLayout_jumps labels jump pending) found

theorem descriptor_lt_of_visited
    (wellFormed : (sweep.toLayout labels (jump :: pending)).WellFormed)
    {id : Nat}
    {other : Jump}
    (found : sweep.visited[id]? = some other) :
    other.descriptor < jump.descriptor := by
  obtain ⟨inside, -⟩ := Array.getElem?_eq_some_iff.mp found
  refine wellFormed.ordered id _ other jump inside ?_
    (sweep.getElem?_toLayout_jumps labels jump pending)
  show (sweep.visited ++ (jump :: pending))[id]? = _
  rw [← Array.getElem?_toList, Array.toList_appendList,
    List.getElem?_append_left (by simpa using inside), Array.getElem?_toList]
  exact found

/-- No jump that is still to come stands in an earlier group. -/
theorem group_le_of_pending
    (wellFormed : (sweep.toLayout labels (jump :: pending)).WellFormed)
    {other : Jump}
    (member : other ∈ jump :: pending) :
    jump.group.index ≤ other.group.index := by
  rcases List.mem_cons.mp member with rfl | behind
  · exact Nat.le_refl _
  · have isNext := sweep.getElem?_toLayout_jumps labels jump pending
    obtain ⟨id, -, found⟩ := sweep.exists_id_of_pending labels jump behind
    obtain ⟨own, foundOwn, lower, -⟩ := (wellFormed.holds _ jump isNext).owned
    obtain ⟨otherOwn, foundOther, -, upper⟩ := (wellFormed.holds id other found).owned
    exact wellFormed.partitioned.group_le_of_descriptor_lt foundOwn foundOther lower upper
      (descriptor_lt_of_pending wellFormed behind)

end Order

/-!
## Visits and passes
-/

/-- A pass that goes on behind a jump, which has grown by a number of bytes. -/
structure Passes
    (before : Sweep)
    (jump visited : Jump)
    (bytes : Nat)
    (after : Sweep) :
    Prop where
  groups :
    Layout.Pointwise (fun old new : Group => new.first = old.first ∧ new.offset = old.offset)
      before.groups after.groups
  descriptors : after.descriptors = growAt before.descriptors jump.descriptor bytes
  visited : after.visited = before.visited.push visited
  growth : after.growth = before.growth + bytes
  groupGrowth : after.groupGrowth = before.groupGrowth + bytes
  nextGroup : after.nextGroup = before.nextGroup

theorem Advances.passes
    {sweep : Sweep}
    {layout : Layout}
    {jump : Jump}
    {visit : Visit}
    (advances : sweep.Advances layout jump visit) :
    (sweep.enter jump.group).Passes jump visit.jump (visit.jump.size - jump.size)
      (visit.sweep.record visit.jump) := by
  obtain ⟨bound, group, descriptor, size, isSweep⟩ := advances.sweep
  unfold record
  rw [isSweep]
  refine ⟨?_, ?_, ?_, ?_, ?_, ?_⟩
  · show Layout.Pointwise _ _ ((sweep.enter jump.group).grow bound visit.jump).groups
    rw [grow_groups]
    exact Layout.Pointwise.modify (by intro; exact ⟨rfl, rfl⟩) _ _ (by intros; exact ⟨rfl, rfl⟩)
  · rw [← descriptor, ← size]
    exact grow_descriptors ..
  · exact congrArg (Array.push · visit.jump) (grow_visited ..)
  · rw [← size]
    exact grow_growth ..
  · rw [← size]
    exact grow_groupGrowth ..
  · exact grow_nextGroup ..

/-- Behind a jump of the current group everything has moved, in front of it nothing. -/
theorem Located.pass
    {before after : Sweep}
    {labels : Array (Option GroupId)}
    {jump visited : Jump}
    {pending : List Jump}
    {bytes : Nat}
    (located : before.Located (jump :: pending))
    (wellFormed : (before.toLayout labels (jump :: pending)).WellFormed)
    (isCurrent : before.nextGroup = jump.group.index + 1)
    (evolves : jump.Evolves visited)
    (offset : visited.offset = jump.offset + before.groupGrowth)
    (passes : before.Passes jump visited bytes after) :
    after.Located pending := by
  have isNext := before.getElem?_toLayout_jumps labels jump pending
  obtain ⟨described, ⟨own, foundOwn, lower, upper⟩, -⟩ := wellFormed.holds _ jump isNext
  obtain ⟨inside, -⟩ := Array.getElem?_eq_some_iff.mp described
  -- Only the descriptor of the jump grows: what lies behind it moves, and nothing else.
  have inFront (place : Nat) (notBehind : place ≤ jump.descriptor) :
      startOf after.descriptors place = startOf before.descriptors place := by
    rw [passes.descriptors]
    exact Layout.startOf_growAt_of_le bytes inside notBehind
  have behind (place : Nat) (isBehind : jump.descriptor < place) :
      startOf after.descriptors place = startOf before.descriptors place + bytes := by
    rw [passes.descriptors]
    exact Layout.startOf_growAt_of_lt bytes inside isBehind
  have visitedCases (id : Nat) (other : Jump) (found : after.visited[id]? = some other) :
      other = visited ∨ before.visited[id]? = some other := by
    rw [passes.visited, Array.getElem?_push] at found
    split at found
    · exact Or.inl (Option.some.inj found).symm
    · exact Or.inr found
  refine ⟨?_, ?_, ?_, ?_, ?_, ?_, ?_⟩
  · intro index group found passed
    rw [passes.nextGroup] at passed
    obtain ⟨old, foundOld, first, sameOffset⟩ := passes.groups.backward found
    have upToCurrent : index < jump.group.index + 1 := isCurrent ▸ passed
    have notBehind :=
      wellFormed.partitioned.first_le_of_le (Nat.le_of_lt_succ upToCurrent)
        foundOld foundOwn lower
    rw [first, sameOffset, inFront _ notBehind]
    exact located.passed index old foundOld passed
  · intro index group found coming
    rw [passes.nextGroup] at coming
    obtain ⟨old, foundOld, first, sameOffset⟩ := passes.groups.backward found
    have isLater : jump.group.index + 1 ≤ index := isCurrent ▸ coming
    have apart := wellFormed.partitioned.last_le_first isLater foundOwn foundOld
    have known := located.coming index old foundOld coming
    rw [first, sameOffset, passes.growth, behind _ (Nat.lt_of_lt_of_le upper apart), ← known,
      Nat.add_assoc]
  · intro id other found
    rw [passes.nextGroup]
    rcases visitedCases id other found with rfl | foundOld
    · rw [evolves.group, isCurrent]
      exact Nat.lt_succ_self _
    · exact located.entered id other foundOld
  · intro id other otherOwn found foundOther
    obtain ⟨old, foundOld, -, sameOffset⟩ := passes.groups.backward foundOther
    rw [sameOffset]
    rcases visitedCases id other found with rfl | foundVisited
    · rw [evolves.group] at foundOld
      rw [evolves.descriptor, offset, inFront _ (Nat.le_refl _)]
      exact located.here jump (List.mem_cons_self ..) old foundOld isCurrent
    · rw [inFront _ (Nat.le_of_lt (descriptor_lt_of_visited wellFormed foundVisited))]
      exact located.visited id other old foundVisited foundOld
  · intro other member
    rw [passes.nextGroup]
    exact located.ahead other (List.mem_cons_of_mem _ member)
  · intro other member otherOwn foundOther inCurrent
    rw [passes.nextGroup] at inCurrent
    obtain ⟨old, foundOld, -, sameOffset⟩ := passes.groups.backward foundOther
    have known := located.here other (List.mem_cons_of_mem _ member) old foundOld inCurrent
    rw [sameOffset, passes.groupGrowth,
      behind _ (descriptor_lt_of_pending wellFormed member), ← known]
    omega
  · intro other member otherOwn foundOther coming
    rw [passes.nextGroup] at coming
    obtain ⟨old, foundOld, -, sameOffset⟩ := passes.groups.backward foundOther
    have known := located.later other (List.mem_cons_of_mem _ member) old foundOld coming
    rw [sameOffset, passes.growth,
      behind _ (descriptor_lt_of_pending wellFormed member), ← known]
    omega

/-- A visit keeps track of all offsets. -/
theorem Located.visit
    (setting : Setting)
    {sweep : Sweep}
    {jump : Jump}
    {pending : List Jump}
    (located : sweep.Located (jump :: pending))
    (wellFormed : (sweep.toLayout setting.labels (jump :: pending)).WellFormed) :
    let visit := sweep.visit setting pending jump
    (visit.sweep.record visit.jump).Located pending := by
  have advances := visit_advances wellFormed
  exact (located.enter fun _ => group_le_of_pending wellFormed).pass
    (wellFormed_enter wellFormed jump.group) (sweep.enter_nextGroup jump.group)
    advances.evolves advances.offset advances.passes

/-- A pass that has visited all jumps is completed to a layout with everything in place. -/
theorem Located.complete
    {sweep : Sweep}
    (located : sweep.Located [])
    (labels : Array (Option GroupId)) :
    (sweep.complete.toLayout labels []).Located where
  groups := by
    intro index group found
    change sweep.complete.groups[index]? = some group at found
    rw [getElem?_complete_groups] at found
    obtain ⟨old, foundOld, rfl⟩ := Option.map_eq_some_iff.mp found
    by_cases behind : sweep.nextGroup ≤ index
    · rw [if_pos behind]
      exact located.coming index old foundOld behind
    · rw [if_neg behind]
      exact located.passed index old foundOld (Nat.lt_of_not_le behind)
  jumps := by
    intro id jump own found foundOwn
    have foundVisited : sweep.visited[id]? = some jump := by
      change (sweep.visited ++ ([] : List Jump))[id]? = some jump at found
      rw [← Array.getElem?_toList, Array.toList_appendList, List.append_nil,
        Array.getElem?_toList] at found
      exact found
    change sweep.complete.groups[jump.group.index]? = some own at foundOwn
    rw [getElem?_complete_groups] at foundOwn
    obtain ⟨old, foundOld, rfl⟩ := Option.map_eq_some_iff.mp foundOwn
    rw [if_neg (Nat.not_le_of_lt (located.entered id jump foundVisited))]
    exact located.visited id jump old foundVisited foundOld

end Sweep

end Relaxation

end Rv64Codegen
