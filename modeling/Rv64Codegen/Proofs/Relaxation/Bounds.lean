import Rv64Codegen.Proofs.Relaxation.Growth

namespace Rv64Codegen

/-!
# Bounds on offsets

A descriptor takes at most three times the bytes that it was appended with, and no
offset is above the sum of all sizes.  This holds in every state of a pass.  A pass
that has failed may have left groups and jumps behind their places, and the next
pass moves them from there, but nothing is ever moved ahead of the growth.
-/

namespace Group

theorem stop_shift (group : Group) (bytes : Nat) :
    (group.shift bytes).stop = group.stop + bytes :=
  Nat.add_right_comm _ _ _

theorem stop_grow (group : Group) (bytes : Nat) :
    (group.grow bytes).stop = group.stop + bytes :=
  (Nat.add_assoc _ _ _).symm

end Group

namespace Layout

/-- The sizes of all descriptors, added up. -/
def summedSize (descriptors : Array Descriptor) : Nat :=
  startOf descriptors descriptors.size

theorem startOf_le_summedSize
    (descriptors : Array Descriptor)
    (index : Nat) :
    startOf descriptors index ≤ summedSize descriptors := by
  by_cases inside : index ≤ descriptors.size
  · exact startOf_mono descriptors inside
  · have behind : descriptors.size ≤ index := Nat.le_of_not_le inside
    have nothing : sizeBetween descriptors descriptors.size index = 0 := by
      rw [sizeBetween, Array.extract_empty_of_size_le_start (Nat.le_refl _)]
      rfl
    rw [← startOf_add_sizeBetween descriptors behind, nothing]
    exact Nat.le_refl _

/-- No run of descriptors is larger than all of them. -/
theorem sizeBetween_le_summedSize
    (descriptors : Array Descriptor)
    (first last : Nat) :
    sizeBetween descriptors first last ≤ summedSize descriptors := by
  by_cases forward : first ≤ last
  · have whole := startOf_add_sizeBetween descriptors forward
    have inside := startOf_le_summedSize descriptors last
    omega
  · rw [sizeBetween_of_le descriptors (by omega)]
    exact Nat.zero_le _

theorem summedSize_push
    (descriptors : Array Descriptor)
    (descriptor : Descriptor) :
    summedSize (descriptors.push descriptor) = summedSize descriptors + descriptor.size := by
  rw [summedSize, Array.size_push, startOf_succ Array.getElem?_push_size, startOf,
    sizeBetween_push _ _ (Nat.le_refl _)]
  rfl

theorem summedSize_growAt
    {descriptors : Array Descriptor}
    {index : Nat}
    (bytes : Nat)
    (inside : index < descriptors.size) :
    summedSize (growAt descriptors index bytes) = summedSize descriptors + bytes := by
  rw [summedSize, size_growAt, startOf, sizeBetween_growAt bytes _ _ inside,
    if_pos ⟨Nat.zero_le _, inside⟩]
  rfl

/-- The descriptors with the sizes that they were appended with. -/
def asAppended (descriptors : Array Descriptor) : Array Descriptor :=
  descriptors.map fun descriptor => .ofOperation descriptor.operation

theorem asAppended_push
    (descriptors : Array Descriptor)
    (operation : Operation) :
    asAppended (descriptors.push (.ofOperation operation)) =
      (asAppended descriptors).push (.ofOperation operation) :=
  Array.map_push

/-- A later state of a layout has been appended in the same way. -/
theorem Evolves.asAppended_eq
    {before after : Layout}
    (evolves : before.Evolves after) :
    asAppended after.descriptors = asAppended before.descriptors := by
  apply Array.ext_getElem?
  intro index
  rw [asAppended, asAppended, Array.getElem?_map, Array.getElem?_map]
  cases found : before.descriptors[index]? with
  | none =>
      have outside := Array.getElem?_eq_none_iff.mp found
      rw [← evolves.descriptors.size] at outside
      rw [Array.getElem?_eq_none outside]
  | some old =>
      obtain ⟨new, foundNew, operation, -⟩ := evolves.descriptors.forward index old found
      rw [foundNew, Option.map_some, Option.map_some, operation]

/-- A descriptor is at most three times as large as it was when it was appended. -/
theorem WellFormed.sizeAt_le
    {layout : Layout}
    (wellFormed : layout.WellFormed)
    (index : Nat) :
    sizeAt layout.descriptors index ≤ 3 * sizeAt (asAppended layout.descriptors) index := by
  cases found : layout.descriptors[index]? with
  | none =>
      rw [sizeAt_of_none found]
      exact Nat.zero_le _
  | some descriptor =>
      have appended :
          (asAppended layout.descriptors)[index]? =
            some (.ofOperation descriptor.operation) := by
        rw [asAppended, Array.getElem?_map, found]
        rfl
      rw [sizeAt_of_getElem? found, sizeAt_of_getElem? appended]
      rcases wellFormed.descriptor_cases found with ⟨id, jump, -, -, rfl⟩ | ⟨-, isPlain⟩
      · exact (jump.size_bounds jump.form).2.1
      · rw [isPlain]
        exact Nat.le_mul_of_pos_left _ (by decide)

theorem WellFormed.summedSize_le
    {layout : Layout}
    (wellFormed : layout.WellFormed) :
    summedSize layout.descriptors ≤ 3 * summedSize (asAppended layout.descriptors) := by
  have upTo (index : Nat) :
      startOf layout.descriptors index ≤ 3 * startOf (asAppended layout.descriptors) index := by
    induction index with
    | zero =>
        rw [startOf_zero]
        exact Nat.zero_le _
    | succ index inductionHypothesis =>
        have here := wellFormed.sizeAt_le index
        unfold startOf at inductionHypothesis ⊢
        rw [sizeBetween_succ _ (Nat.zero_le index), sizeBetween_succ _ (Nat.zero_le index)]
        omega
  have size : (asAppended layout.descriptors).size = layout.descriptors.size :=
    Array.size_map
  rw [summedSize, summedSize, size]
  exact upTo _

/--
Every sum of sizes, the start and the end of every group, and the offset of every
jump in its group are at most a bound.
-/
structure OffsetsWithin
    (bound : Nat)
    (descriptors : Array Descriptor)
    (groups : Array Group)
    (jumps : Array Jump) :
    Prop where
  sizes : ∀ first last, sizeBetween descriptors first last ≤ bound
  groups : ∀ group ∈ groups, group.offset ≤ bound ∧ group.stop ≤ bound
  jumps : ∀ jump ∈ jumps, jump.offset ≤ bound

theorem OffsetsWithin.mono
    {low high : Nat}
    {descriptors : Array Descriptor}
    {groups : Array Group}
    {jumps : Array Jump}
    (within : OffsetsWithin low descriptors groups jumps)
    (fits : low ≤ high) :
    OffsetsWithin high descriptors groups jumps where
  sizes := fun first last => Nat.le_trans (within.sizes first last) fits
  groups := fun group member =>
    ⟨Nat.le_trans (within.groups group member).1 fits,
      Nat.le_trans (within.groups group member).2 fits⟩
  jumps := fun jump member => Nat.le_trans (within.jumps jump member) fits

/-- No group ends and no jump stands behind the sum of all sizes. -/
def Contained (layout : Layout) : Prop :=
  OffsetsWithin (summedSize layout.descriptors) layout.descriptors layout.groups layout.jumps

/-- The end of a group bounds its start, and all sizes together bound some of them. -/
theorem contained_of_stops
    {descriptors : Array Descriptor}
    {groups : Array Group}
    {jumps : Array Jump}
    (stops : ∀ group ∈ groups, group.stop ≤ summedSize descriptors)
    (offsets : ∀ jump ∈ jumps, jump.offset ≤ summedSize descriptors) :
    OffsetsWithin (summedSize descriptors) descriptors groups jumps where
  sizes := sizeBetween_le_summedSize descriptors
  groups := fun group member =>
    ⟨Nat.le_trans (Nat.le_add_right _ _) (stops group member), stops group member⟩
  jumps := offsets

end Layout

namespace Relaxation

open Layout (summedSize sizeBetween asAppended)

namespace Sweep

/-!
## States of a pass
-/

/--
What a pass has added up so far is at most the sum of all sizes.  Groups and jumps
that it has not reached leave room for the growth, which they may take over.
-/
structure Bounded
    (sweep : Sweep)
    (pending : List Jump) :
    Prop where
  groups :
    ∀ (index : Nat) (group : Group),
      sweep.groups[index]? = some group → group.stop ≤ summedSize sweep.descriptors
  coming :
    ∀ (index : Nat) (group : Group),
      sweep.groups[index]? = some group → sweep.nextGroup ≤ index →
        group.stop + sweep.growth ≤ summedSize sweep.descriptors
  visited : ∀ jump ∈ sweep.visited, jump.offset ≤ summedSize sweep.descriptors
  pending : ∀ jump ∈ pending, jump.offset + sweep.growth ≤ summedSize sweep.descriptors
  growth : sweep.growth ≤ summedSize sweep.descriptors
  groupGrowth : sweep.groupGrowth ≤ sweep.growth

namespace Bounded

variable
  {sweep : Sweep}
  {jump : Jump}
  {pending : List Jump}

theorem begin
    {layout : Layout}
    (contained : layout.Contained) :
    (begin layout).Bounded layout.jumps.toList where
  groups := fun _ group found => (contained.groups group (Array.mem_of_getElem? found)).2
  coming := fun _ group found _ => (contained.groups group (Array.mem_of_getElem? found)).2
  visited := fun jump member => absurd member (Array.not_mem_empty jump)
  pending := by
    intro jump member
    exact contained.jumps jump (Array.mem_toList_iff.mp member)
  growth := Nat.zero_le _
  groupGrowth := Nat.le_refl _

/-- Groups that a pass reaches take over the growth that there is room for. -/
theorem enter
    (bounded : sweep.Bounded pending)
    {group : GroupId}
    (ahead : sweep.nextGroup ≤ group.index + 1) :
    (sweep.enter group).Bounded pending where
  groups := by
    intro index after found
    rw [getElem?_enter_groups] at found
    obtain ⟨before, foundBefore, rfl⟩ := Option.map_eq_some_iff.mp found
    rw [enter_descriptors]
    split
    · rename_i reached
      rw [Group.stop_shift]
      exact bounded.coming index before foundBefore reached.1
    · exact bounded.groups index before foundBefore
  coming := by
    intro index after found coming
    rw [enter_nextGroup] at coming
    rw [getElem?_enter_groups] at found
    obtain ⟨before, foundBefore, rfl⟩ := Option.map_eq_some_iff.mp found
    rw [enter_descriptors, enter_growth, if_neg (by omega)]
    exact bounded.coming index before foundBefore (Nat.le_trans ahead coming)
  visited := by
    rw [enter_visited, enter_descriptors]
    exact bounded.visited
  pending := by
    rw [enter_growth, enter_descriptors]
    exact bounded.pending
  growth := by
    rw [enter_growth, enter_descriptors]
    exact bounded.growth
  groupGrowth := by
    rw [enter_groupGrowth, enter_growth]
    split
    · exact bounded.groupGrowth
    · exact Nat.zero_le _

/-- The growth of a jump of a group that the pass has reached is part of the sum. -/
theorem grow
    (bounded : sweep.Bounded pending)
    {before : Jump}
    (reached : before.group.index < sweep.nextGroup)
    (inside : before.descriptor < sweep.descriptors.size)
    (after : Jump) :
    (sweep.grow before after).Bounded pending := by
  have sum :
      summedSize (sweep.grow before after).descriptors =
        summedSize sweep.descriptors + (after.size - before.size) := by
    rw [grow_descriptors, Layout.summedSize_growAt _ inside]
  refine ⟨?_, ?_, ?_, ?_, ?_, ?_⟩
  · intro index group found
    rw [grow_groups, Array.getElem?_modify] at found
    rw [sum]
    split at found
    · obtain ⟨old, foundOld, rfl⟩ := Option.map_eq_some_iff.mp found
      rw [Group.stop_grow]
      exact Nat.add_le_add_right (bounded.groups index old foundOld) _
    · exact Nat.le_add_right_of_le (bounded.groups index group found)
  · intro index group found coming
    rw [grow_nextGroup] at coming
    -- A group that is still to come is not the one that grows.
    rw [grow_groups, Array.getElem?_modify, if_neg (by omega)] at found
    rw [sum, grow_growth, ← Nat.add_assoc]
    exact Nat.add_le_add_right (bounded.coming index group found coming) _
  · intro jump member
    rw [grow_visited] at member
    rw [sum]
    exact Nat.le_add_right_of_le (bounded.visited jump member)
  · intro jump member
    rw [sum, grow_growth, ← Nat.add_assoc]
    exact Nat.add_le_add_right (bounded.pending jump member) _
  · rw [sum, grow_growth]
    exact Nat.add_le_add_right bounded.growth _
  · rw [grow_groupGrowth, grow_growth]
    exact Nat.add_le_add_right bounded.groupGrowth _

theorem record
    (bounded : sweep.Bounded (jump :: pending))
    {visited : Jump}
    (inside : visited.offset ≤ summedSize sweep.descriptors) :
    (sweep.record visited).Bounded pending where
  groups := bounded.groups
  coming := bounded.coming
  visited := by
    intro other member
    rcases Array.mem_push.mp member with earlier | rfl
    · exact bounded.visited other earlier
    · exact inside
  pending := fun other member => bounded.pending other (List.mem_cons_of_mem _ member)
  growth := bounded.growth
  groupGrowth := bounded.groupGrowth

/-- A visit keeps all sums bounded, whether it succeeds or fails. -/
theorem visit
    {setting : Setting}
    (bounded : sweep.Bounded (jump :: pending))
    (wellFormed : (sweep.toLayout setting.labels (jump :: pending)).WellFormed)
    (ahead : sweep.nextGroup ≤ jump.group.index + 1) :
    let visit := sweep.visit setting pending jump
    (visit.sweep.record visit.jump).Bounded pending := by
  intro visit
  have advances : sweep.Advances _ jump visit := visit_advances wellFormed
  have holds := wellFormed.holds _ jump (sweep.getElem?_toLayout_jumps _ jump pending)
  obtain ⟨inside, -⟩ := Array.getElem?_eq_some_iff.mp holds.described
  obtain ⟨bound, group, descriptor, -, isSweep⟩ := advances.sweep
  have entered := bounded.enter ahead
  have grown : visit.sweep.Bounded (jump :: pending) := by
    rw [isSweep]
    refine entered.grow ?_ ?_ visit.jump
    · rw [group, enter_nextGroup]
      exact Nat.lt_succ_self _
    · rw [descriptor, enter_descriptors]
      exact inside
  refine grown.record ?_
  -- The jump moves by the growth in its group, and there is room for all of the growth.
  have offset : visit.jump.offset = jump.offset + (sweep.enter jump.group).groupGrowth :=
    advances.offset
  have room := grown.pending jump (List.mem_cons_self ..)
  have part := entered.groupGrowth
  have notLess : (sweep.enter jump.group).growth ≤ visit.sweep.growth := by
    rw [isSweep, grow_growth]
    exact Nat.le_add_right _ _
  omega

/-- A pass that stops leaves the jumps behind as they are. -/
theorem stop
    (bounded : sweep.Bounded pending) :
    { sweep with visited := sweep.visited ++ pending }.Bounded [] where
  groups := bounded.groups
  coming := bounded.coming
  visited := by
    intro jump member
    rw [← Array.mem_toList_iff, Array.toList_appendList, List.mem_append,
      Array.mem_toList_iff] at member
    rcases member with earlier | later
    · exact bounded.visited jump earlier
    · exact Nat.le_of_add_right_le (bounded.pending jump later)
  pending := fun jump member => absurd member List.not_mem_nil
  growth := bounded.growth
  groupGrowth := bounded.groupGrowth

theorem complete
    (bounded : sweep.Bounded []) :
    sweep.complete.Bounded [] where
  groups := by
    intro index after found
    rw [getElem?_complete_groups] at found
    obtain ⟨before, foundBefore, rfl⟩ := Option.map_eq_some_iff.mp found
    show _ ≤ summedSize sweep.descriptors
    split
    · rename_i coming
      rw [Group.stop_shift]
      exact bounded.coming index before foundBefore coming
    · exact bounded.groups index before foundBefore
  coming := by
    intro index group found behind
    obtain ⟨inside, -⟩ := Array.getElem?_eq_some_iff.mp found
    have size : sweep.complete.groups.size = sweep.groups.size := size_shiftGroups ..
    have reached : sweep.groups.size ≤ index := behind
    omega
  visited := bounded.visited
  pending := bounded.pending
  growth := bounded.growth
  groupGrowth := bounded.groupGrowth

/-- What a pass has done so far is contained in the sum of the sizes. -/
theorem contained
    (bounded : sweep.Bounded pending) :
    Layout.OffsetsWithin (summedSize sweep.descriptors) sweep.descriptors sweep.groups
      sweep.visited := by
  refine Layout.contained_of_stops ?_ bounded.visited
  intro group member
  obtain ⟨index, found⟩ := Array.mem_iff_getElem?.mp member
  exact bounded.groups index group found

end Bounded

/-- All that a pass adds up is at most a bound. -/
structure Within
    (bound : Nat)
    (sweep : Sweep) :
    Prop where
  growth : sweep.growth ≤ bound
  groupGrowth : sweep.groupGrowth ≤ bound
  offsets : Layout.OffsetsWithin bound sweep.descriptors sweep.groups sweep.visited

theorem Bounded.within
    {sweep : Sweep}
    {pending : List Jump}
    {bound : Nat}
    (bounded : sweep.Bounded pending)
    (fits : summedSize sweep.descriptors ≤ bound) :
    sweep.Within bound where
  growth := Nat.le_trans bounded.growth fits
  groupGrowth := Nat.le_trans (Nat.le_trans bounded.groupGrowth bounded.growth) fits
  offsets := bounded.contained.mono fits

theorem Within.mono
    {low high : Nat}
    {sweep : Sweep}
    (within : sweep.Within low)
    (fits : low ≤ high) :
    sweep.Within high where
  growth := Nat.le_trans within.growth fits
  groupGrowth := Nat.le_trans within.groupGrowth fits
  offsets := within.offsets.mono fits

/--
The states of a walk: in front of every jump, in its group, and behind it, up to the
end or to the jump that stops the walk.
-/
def trace
    (setting : Setting) :
    List Jump → Sweep → List Sweep
  | [], sweep =>
      [sweep, sweep.complete]
  | jump :: pending, sweep =>
      let visit := sweep.visit setting pending jump
      let next := visit.sweep.record visit.jump
      sweep :: sweep.enter jump.group ::
        match visit.failure with
        | none =>
            trace setting pending next
        | some _ =>
            [next, { next with visited := next.visited ++ pending }]

/-- The last state of a walk is what it leaves behind. -/
theorem getLast?_trace
    (setting : Setting)
    (jumps : List Jump)
    (sweep : Sweep) :
    (trace setting jumps sweep).getLast? = some (walk setting jumps sweep).2 := by
  induction jumps generalizing sweep with
  | nil =>
      rfl
  | cons jump pending inductionHypothesis =>
      rw [trace, walk]
      cases (sweep.visit setting pending jump).failure with
      | none =>
          have rest := inductionHypothesis
            ((sweep.visit setting pending jump).sweep.record
              (sweep.visit setting pending jump).jump)
          rw [List.getLast?_cons, List.getLast?_cons, rest]
          rfl
      | some failure =>
          rfl

/-- A state between two visits, with the accounts of the pass and all sums bounded. -/
structure Accounted
    (layout : Layout)
    (sweep : Sweep)
    (pending : List Jump) :
    Prop where
  ledger : sweep.Ledger layout pending
  evolves : layout.Evolves (sweep.toLayout layout.labels pending)
  bounded : sweep.Bounded pending

theorem accounted_begin
    {layout : Layout}
    (wellFormed : layout.WellFormed)
    (contained : layout.Contained) :
    (begin layout).Accounted layout layout.jumps.toList where
  ledger := ledger_begin wellFormed
  evolves := by
    rw [toLayout_begin]
    exact Layout.Evolves.refl layout
  bounded := .begin contained

theorem Accounted.visit
    (config : Config)
    {layout : Layout}
    {sweep : Sweep}
    {jump : Jump}
    {pending : List Jump}
    (accounted : sweep.Accounted layout (jump :: pending)) :
    let visit := sweep.visit (.of config layout) pending jump
    (visit.sweep.record visit.jump).Accounted layout pending where
  ledger := accounted.ledger.visit config
  evolves :=
    accounted.evolves.trans
      (wellFormed_visit (.of config layout) accounted.ledger.wellFormed).2
  bounded :=
    accounted.bounded.visit accounted.ledger.wellFormed
      (accounted.ledger.ahead jump (List.mem_cons_self ..))

/-- The sum of all sizes is at most three times what it was when all was appended. -/
theorem Accounted.summedSize_le
    {layout : Layout}
    {sweep : Sweep}
    {pending : List Jump}
    (accounted : sweep.Accounted layout pending) :
    summedSize sweep.descriptors ≤ 3 * summedSize (asAppended layout.descriptors) := by
  rw [← accounted.evolves.asAppended_eq]
  exact accounted.ledger.wellFormed.summedSize_le

theorem Accounted.within_trace
    (config : Config)
    {layout : Layout}
    {jumps : List Jump}
    {sweep : Sweep}
    (accounted : sweep.Accounted layout jumps) :
    ∀ state ∈ trace (.of config layout) jumps sweep,
      state.Within (3 * summedSize (asAppended layout.descriptors)) := by
  induction jumps generalizing sweep with
  | nil =>
      intro state member
      have fits := accounted.summedSize_le
      rw [trace, List.mem_cons, List.mem_singleton] at member
      rcases member with rfl | rfl
      · exact accounted.bounded.within fits
      · exact accounted.bounded.complete.within fits
  | cons jump pending inductionHypothesis =>
      intro state member
      have next := accounted.visit config
      rw [trace] at member
      rw [List.mem_cons, List.mem_cons] at member
      rcases member with rfl | rfl | later
      · exact accounted.bounded.within accounted.summedSize_le
      · refine (accounted.bounded.enter
          (accounted.ledger.ahead jump (List.mem_cons_self ..))).within ?_
        rw [enter_descriptors]
        exact accounted.summedSize_le
      · split at later
        · exact inductionHypothesis next state later
        · -- Behind a visit that fails, the walk only puts back the jumps that are ahead.
          rw [List.mem_cons, List.mem_singleton] at later
          rcases later with rfl | rfl
          · exact next.bounded.within next.summedSize_le
          · exact next.bounded.stop.within next.summedSize_le

/-- The code of a pass that is under way is not smaller than at its start. -/
theorem Accounted.codeSize_le
    {layout : Layout}
    {sweep : Sweep}
    {pending : List Jump}
    (accounted : sweep.Accounted layout pending) :
    layout.codeSize ≤ (sweep.toLayout layout.labels pending).codeSize := by
  obtain ⟨final, found⟩ := accounted.ledger.wellFormed.partitioned.exists_last
  rw [Layout.codeSize_of_back found, accounted.ledger.ends final found]
  exact Nat.le_add_right _ _

end Sweep

/-- Every pass, also one that fails, keeps a layout contained and lets no code shrink. -/
theorem contained_runPass
    (config : Config)
    {layout : Layout}
    (wellFormed : layout.WellFormed)
    (contained : layout.Contained) :
    (runPass config layout).layout.Contained ∧
      layout.codeSize ≤ (runPass config layout).layout.codeSize := by
  rcases Sweep.walk_induction (.of config layout)
      (fun sweep jump pending accounted _ => Sweep.Accounted.visit config accounted)
      (Sweep.accounted_begin wellFormed contained) with
    ⟨final, accounted, walked⟩ | ⟨failure, before, jump, pending, accounted, -, walked⟩
  · rw [(runPass_of_completed walked).2]
    refine ⟨accounted.bounded.complete.contained, ?_⟩
    rw [accounted.ledger.ends.complete accounted.ledger.wellFormed.partitioned.nonempty]
    exact Nat.le_add_right _ _
  · have stopped := accounted.visit config
    rw [(runPass_of_stopped walked).2]
    exact ⟨stopped.bounded.stop.contained, stopped.codeSize_le⟩

end Relaxation

end Rv64Codegen
