import Rv64Codegen.Proofs.Relaxation.Bounds
import Rv64Codegen.Proofs.Session.PassBudget

namespace Rv64Codegen

/-!
# Offsets stay within three times the limit

The limit on the code is checked where something is appended, against the end of the
last group.  Relaxation checks it only behind a pass, and a pass that fails is not
undone, so the code may be above the limit.  What was appended is always within it,
and that bounds everything else.
-/

namespace Layout

open Relaxation (runPass)

/-- Offsets are contained, and what was appended fits into the code and into a limit. -/
structure Charged
    (limit : Nat)
    (layout : Layout) :
    Prop where
  contained : layout.Contained
  appended : summedSize (asAppended layout.descriptors) ≤ layout.codeSize
  limited : summedSize (asAppended layout.descriptors) ≤ limit

theorem summedSize_asAppended_empty :
    summedSize (asAppended empty.descriptors) = 0 := by
  rw [asAppended, empty, Array.map_empty]
  rfl

theorem charged_empty (limit : Nat) :
    empty.Charged limit where
  contained := by
    refine contained_of_stops ?_ ?_
    · intro group member
      rw [Array.mem_singleton.mp member]
      exact Nat.le_refl 0
    · intro jump member
      exact absurd member (Array.not_mem_empty jump)
  appended := Nat.le_of_eq summedSize_asAppended_empty
  limited := by
    rw [summedSize_asAppended_empty]
    exact Nat.zero_le limit

/-- The code ends within the sum of all sizes. -/
theorem Contained.codeSize_le
    {layout : Layout}
    (contained : layout.Contained)
    (wellFormed : layout.WellFormed) :
    layout.codeSize ≤ summedSize layout.descriptors := by
  obtain ⟨final, found⟩ := wellFormed.partitioned.exists_last
  rw [codeSize_of_back found]
  exact (contained.groups final (Array.mem_of_getElem? found)).2

theorem push_descriptors
    (layout : Layout)
    (descriptor : Descriptor) :
    (layout.push descriptor).descriptors = layout.descriptors.push descriptor :=
  rfl

theorem WellFormed.codeSize_push
    {layout : Layout}
    (wellFormed : layout.WellFormed)
    (descriptor : Descriptor) :
    (layout.push descriptor).codeSize = layout.codeSize + descriptor.size := by
  obtain ⟨final, found⟩ := wellFormed.partitioned.exists_last
  have foundNew :
      (layout.push descriptor).groups[(layout.push descriptor).groups.size - 1]? =
        some (final.extend descriptor.size) := by
    unfold push
    rw [Array.size_modify, Array.getElem?_modify, if_pos rfl, found]
    rfl
  rw [codeSize_of_back found, codeSize_of_back foundNew, Group.stop_extend]

/-- Only the last group ends later, and by no more than the sum of all sizes grows. -/
theorem Contained.push
    {layout : Layout}
    (contained : layout.Contained)
    (descriptor : Descriptor) :
    (layout.push descriptor).Contained := by
  refine contained_of_stops ?_ ?_
  · intro group member
    obtain ⟨index, found⟩ := Array.mem_iff_getElem?.mp member
    rw [push_descriptors, summedSize_push]
    unfold Layout.push at found
    rw [Array.getElem?_modify] at found
    split at found
    · obtain ⟨old, foundOld, rfl⟩ := Option.map_eq_some_iff.mp found
      have known := (contained.groups old (Array.mem_of_getElem? foundOld)).2
      rw [Group.stop_extend]
      exact Nat.add_le_add_right known _
    · have known := (contained.groups group (Array.mem_of_getElem? found)).2
      exact Nat.le_add_right_of_le known
  · intro jump member
    rw [push_descriptors, summedSize_push]
    exact Nat.le_add_right_of_le (contained.jumps jump member)

namespace Charged

variable
  {limit : Nat}
  {before after layout : Layout}

/-- Where nothing stands at a new place and nothing is appended, nothing changes. -/
theorem congr
    (charged : before.Charged limit)
    (descriptors : after.descriptors = before.descriptors)
    (stays : before.Stays after)
    (codeSize : after.codeSize = before.codeSize) :
    after.Charged limit where
  contained := by
    refine contained_of_stops ?_ ?_
    · intro group member
      obtain ⟨old, known, stop⟩ := stays.groups group member
      rw [stop, descriptors]
      exact (charged.contained.groups old known).2
    · intro jump member
      obtain ⟨old, known, offset⟩ := stays.jumps jump member
      rw [offset, descriptors]
      exact charged.contained.jumps old known
  appended := by
    rw [descriptors, codeSize]
    exact charged.appended
  limited := by
    rw [descriptors]
    exact charged.limited

theorem openGroup
    (charged : layout.Charged limit)
    (wellFormed : layout.WellFormed) :
    layout.openGroup.Charged limit := by
  refine charged.congr rfl (.openGroup wellFormed) ?_
  obtain ⟨final, found⟩ := wellFormed.partitioned.exists_last
  rw [openGroup_eq found, codeSize_of_back found, codeSize, Array.back?_push]
  rfl

theorem bindLabel
    (charged : layout.Charged limit)
    (wellFormed : layout.WellFormed)
    (label : LabelId)
    (group : GroupId) :
    (layout.bindLabel label group).Charged limit := by
  have same := stops_bindLabel layout group
  obtain ⟨final, found⟩ := wellFormed.partitioned.exists_last
  obtain ⟨target, foundTarget, stop⟩ := same.forward _ final found
  refine charged.congr rfl (.bindLabel layout label group) ?_
  rw [← same.size] at foundTarget
  rw [codeSize_of_back found, codeSize_of_back foundTarget, stop]

theorem keepLong
    (charged : layout.Charged limit)
    (id : Nat) :
    { layout with
      jumps := layout.jumps.modify id ({ · with keepLong := true }) }.Charged limit :=
  charged.congr rfl (.keepLong layout id) rfl

/-- What is appended where there is room for it stays within the limit. -/
theorem push
    (charged : layout.Charged limit)
    (wellFormed : layout.WellFormed)
    (operation : Operation)
    (room : layout.codeSize + operation.initialSize ≤ limit) :
    (layout.push (.ofOperation operation)).Charged limit := by
  have charge :
      summedSize (asAppended (layout.push (.ofOperation operation)).descriptors) =
        summedSize (asAppended layout.descriptors) + operation.initialSize := by
    rw [push_descriptors, asAppended_push, summedSize_push]
    rfl
  -- The room was judged by the end of the code, which is never in front of what was appended.
  have fits := Nat.add_le_add_right charged.appended operation.initialSize
  refine ⟨charged.contained.push _, ?_, ?_⟩
  · rw [charge, wellFormed.codeSize_push]
    exact fits
  · rw [charge]
    exact Nat.le_trans fits room

/-- A new jump stands at the end of its group. -/
theorem pushFresh
    (charged : layout.Charged limit)
    (wellFormed : layout.WellFormed)
    (kind : JumpKind)
    (target : JumpTarget)
    (room : layout.codeSize + 4 ≤ limit) :
    (layout.pushFresh kind target).Charged limit := by
  have pushed := charged.push wellFormed (.jump ⟨layout.jumps.size⟩) room
  refine ⟨contained_of_stops (fun group member => (pushed.contained.groups group member).2) ?_,
    pushed.appended, pushed.limited⟩
  intro jump member
  rcases Array.mem_push.mp member with known | rfl
  · exact pushed.contained.jumps jump known
  · change layout.currentSize ≤ summedSize (layout.descriptors.push _)
    rw [summedSize_push]
    have inside := charged.contained.codeSize_le wellFormed
    have part := layout.currentSize_le_codeSize
    omega

/-- A pass appends nothing, and the code does not shrink. -/
theorem afterPasses
    (charged : layout.Charged limit)
    (wellFormed : layout.WellFormed)
    (config : Config)
    (count : Nat) :
    (layout.afterPasses config count).Charged limit := by
  induction count generalizing layout with
  | zero =>
      exact charged
  | succ count inductionHypothesis =>
      obtain ⟨stillWellFormed, evolves⟩ := Relaxation.wellFormed_runPass config wellFormed
      obtain ⟨contained, codeSize⟩ :=
        Relaxation.contained_runPass config wellFormed charged.contained
      refine inductionHypothesis ⟨contained, ?_, ?_⟩ stillWellFormed
      · rw [evolves.asAppended_eq]
        exact Nat.le_trans charged.appended codeSize
      · rw [evolves.asAppended_eq]
        exact charged.limited

/-- All offsets are within three times the limit. -/
theorem offsetsWithin
    (charged : layout.Charged limit)
    (wellFormed : layout.WellFormed) :
    OffsetsWithin (3 * limit) layout.descriptors layout.groups layout.jumps :=
  charged.contained.mono
    (Nat.le_trans wellFormed.summedSize_le (Nat.mul_le_mul_left 3 charged.limited))

/-- With a limit of a gigabyte the layout fits. -/
theorem fits
    (charged : layout.Charged limit)
    (wellFormed : layout.WellFormed)
    (small : limit ≤ 0x40000000) :
    layout.fits = true := by
  have within := charged.offsetsWithin wellFormed
  have bound : 3 * limit < offsetRange := by
    rw [offsetRange]
    omega
  refine fits_iff.mpr ⟨?_, ?_⟩
  · intro group member
    exact Nat.lt_of_le_of_lt (within.groups group member).2 bound
  · intro jump member
    exact Nat.lt_of_le_of_lt (within.jumps jump member) bound

end Charged

/-- Relaxation, also one that fails, leaves the layout behind some number of passes. -/
theorem exists_afterPasses_of_relaxWithin
    (config : Config)
    (budget passes upgrades : Nat)
    (notices : Array Notice)
    (remaining : Nat)
    (layout : Layout) :
    ∃ count,
      (relaxWithin config budget passes upgrades notices remaining layout).layout =
        layout.afterPasses config count := by
  refine Relaxation.relaxWithin_induction
    (motive := fun later => ∃ count, later = layout.afterPasses config count)
    ?_ budget passes upgrades notices remaining ⟨0, rfl⟩
  rintro later ⟨count, rfl⟩
  refine ⟨count + 1, ?_⟩
  rw [afterPasses, afterPasses, Function.iterate_succ_apply']

end Layout

namespace Session

/-- No change takes what was appended above the limit. -/
theorem Changes.charged
    {terms : Terms}
    {before after : Session}
    (changes : Changes terms before after)
    (wellFormed : before.layout.WellFormed)
    (charged : before.layout.Charged before.config.maxCodeBytes) :
    after.layout.Charged before.config.maxCodeBytes := by
  induction changes with
  | refl =>
      exact charged
  | @tail middle after earlier change inductionHypothesis =>
      have stillWellFormed := Changes.wellFormed earlier wellFormed
      have config := Changes.config earlier
      cases change with
      | openGroup =>
          exact inductionHypothesis.openGroup stillWellFormed
      | bindLabel label =>
          exact inductionHypothesis.bindLabel stillWellFormed label _
      | operation operation _ room =>
          have limit := room.limit
          rw [config] at limit
          exact inductionHypothesis.push stillWellFormed operation limit
      | jump kind target _ room =>
          have limit := room.limit
          rw [config] at limit
          exact inductionHypothesis.pushFresh stillWellFormed kind target limit
      | keepLong id =>
          exact inductionHypothesis.keepLong id.index
      | relax =>
          obtain ⟨count, reached⟩ :=
            Layout.exists_afterPasses_of_relaxWithin middle.config
              (middle.layout.passBudget middle.config) 0 0 #[]
              (middle.layout.passBudget middle.config) middle.layout
          change Layout.Charged _ (Layout.relaxWithin _ _ 0 0 #[] _ middle.layout).layout
          rw [reached]
          exact inductionHypothesis.afterPasses stillWellFormed _ count
      | _ =>
          exact inductionHypothesis.congr rfl (.of_eq rfl rfl) rfl

theorem charged_run
    (config : Config)
    (commands : List Command) :
    ((start config).run commands).layout.Charged config.maxCodeBytes :=
  Changes.charged (run_changes_any (start config) commands) Layout.wellFormed_empty
    (Layout.charged_empty _)

/--
Whatever commands a session has been given, refused ones and failing relaxations
included, every offset of its layout and every sum of sizes is at most three times
the limit on the code, and with a limit of a gigabyte that is below 2^32.  The same
holds in front of every pass of a relaxation and in every state of a pass, for the
growth that moves later groups and for the part of it that moves later jumps of a
group as well.
-/
theorem offsets_never_wrap
    (config : Config)
    (small : config.maxCodeBytes ≤ 0x40000000)
    (commands : List Command) :
    let session := (start config).run commands
    let bound := 3 * config.maxCodeBytes
    bound < 0x100000000 ∧
      Layout.OffsetsWithin bound session.layout.descriptors session.layout.groups
        session.layout.jumps ∧
      (∃ count, session.relax.2.layout = session.layout.afterPasses config count) ∧
      ∀ count,
        let before := session.layout.afterPasses config count
        let states :=
          Relaxation.Sweep.trace (.of config before) before.jumps.toList (.begin before)
        Layout.OffsetsWithin bound before.descriptors before.groups before.jumps ∧
          (∀ state ∈ states, state.Within bound) ∧
          ∃ final,
            states.getLast? = some final ∧
              session.layout.afterPasses config (count + 1) =
                { before with
                  groups := final.groups
                  descriptors := final.descriptors
                  jumps := final.visited } := by
  intro session bound
  have wellFormed : session.layout.WellFormed := wellFormed_run config commands
  have charged : session.layout.Charged config.maxCodeBytes := charged_run config commands
  have sameConfig : session.config = config := config_run config commands
  refine ⟨by omega, charged.offsetsWithin wellFormed, ?_, ?_⟩
  · rw [← sameConfig]
    exact Layout.exists_afterPasses_of_relaxWithin _ _ 0 0 #[] _ _
  · intro count before states
    have beforeWellFormed : before.WellFormed :=
      Layout.wellFormed_afterPasses config wellFormed count
    have beforeCharged : before.Charged config.maxCodeBytes :=
      charged.afterPasses wellFormed config count
    refine ⟨beforeCharged.offsetsWithin beforeWellFormed, ?_,
      _, Relaxation.Sweep.getLast?_trace .., Function.iterate_succ_apply' ..⟩
    intro state member
    exact ((Relaxation.Sweep.accounted_begin beforeWellFormed
      beforeCharged.contained).within_trace config state member).mono
        (Nat.mul_le_mul_left 3 beforeCharged.limited)

/--
Three branches that are kept long, the second of them to a label that is bound too
late for the first relaxation.
-/
def threefold : List Command :=
  [.newLabel, .newLabel, .bindLabel ⟨0⟩,
    .branch .beq (.x 10) (.x 11) ⟨0⟩, .keepLong ⟨0⟩,
    .branch .bne (.x 10) (.x 11) ⟨1⟩, .keepLong ⟨1⟩,
    .branch .blt (.x 10) (.x 11) ⟨0⟩, .keepLong ⟨2⟩,
    .relax, .bindLabel ⟨1⟩]

/--
The first relaxation stops at the second branch and leaves the third one behind its
place, the next one ends above the limit, and an instruction is refused then.  The
code is three times as large as the limit.
-/
theorem offsets_never_wrap_threefold :
    let config : Config := { maxCodeBytes := 12 }
    let early := ((start config).run threefold).layout
    let late := ((start config).run (threefold ++ [.relax, .upper .lui (.x 5) 0])).layout
    let states := Relaxation.Sweep.trace (.of config early) early.jumps.toList (.begin early)
    config.maxCodeBytes ≤ 0x40000000 ∧
      early.jumps.toList.map (·.offset) = [0, 12, 8] ∧
      states.map (·.growth) = [0, 0, 0, 0, 8, 8, 16, 16] ∧
      (∀ state ∈ states, state.Within 36) ∧
      late.codeSize = 36 ∧
      late.jumps.toList.map (·.offset) = [0, 12, 16] ∧
      Layout.OffsetsWithin 36 late.descriptors late.groups late.jumps := by
  dsimp only
  obtain ⟨-, -, -, passes⟩ := offsets_never_wrap { maxCodeBytes := 12 } (by decide) threefold
  obtain ⟨-, within, -⟩ :=
    offsets_never_wrap { maxCodeBytes := 12 } (by decide)
      (threefold ++ [.relax, .upper .lui (.x 5) 0])
  refine ⟨by decide, ?_, ?_, (passes 0).2.1, ?_, ?_, within⟩
  · decide +kernel
  · decide +kernel
  · decide +kernel
  · decide +kernel

end Session

end Rv64Codegen
