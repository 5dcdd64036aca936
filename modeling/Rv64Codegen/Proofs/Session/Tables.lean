import Rv64Codegen.Proofs.Output.Agreement
import Rv64Codegen.Proofs.Output.Landing
import Rv64Codegen.Proofs.Session.Labels
import Rv64Codegen.Proofs.Session.Relocations

namespace Rv64Codegen

/-!
# Tables of finished code

Finished code comes with the offsets of its groups, labels and targets.  The code is
cut into pieces, one for each operation that was appended.  A label that was bound
has the offset that the pieces of the operations in front of it add up to, however
far relaxation has moved them, and the targets are the offsets of all labels.  None
of this asks for a session in which every relaxation has succeeded: a layout that
is written at all is in place.
-/

namespace Layout

theorem tables_of_write
    {layout : Layout}
    {pool : DataPool}
    {config : Config}
    {stats : RelaxStats}
    {emitted : EmittedCode}
    (result : layout.write pool config stats = .ok emitted) :
    emitted.groupOffsets = layout.groups.map Group.offset ∧
      emitted.targetOffsets = layout.targetOffsets := by
  obtain ⟨dataOffset, -, result⟩ := bind_eq_ok_iff.mp result
  obtain ⟨code, -, isEmitted⟩ := bind_eq_ok_iff.mp result
  cases isEmitted
  exact ⟨rfl, rfl⟩

/-- What has been appended stays in front of what is appended later. -/
theorem Keeps.prefix_operations
    {before after : Layout}
    (keeps : before.Keeps after) :
    before.operations <+: after.operations := by
  rw [List.prefix_iff_getElem?]
  intro index inside
  have insideBefore : index < before.descriptors.size := by
    rw [← length_operations]
    exact inside
  obtain ⟨later, foundLater, same⟩ :=
    keeps.descriptors index _ (Array.getElem?_eq_getElem insideBefore)
  simp [operations, foundLater, same]

/-- The targets are the offsets of labels. -/
theorem Marked.mem_targetOffsets_iff_labelOffsets
    {layout : Layout}
    (marked : layout.Marked)
    (partitioned : Partitioned layout.groups layout.descriptors)
    (placed : Placed layout.groups layout.descriptors)
    {offset : Nat} :
    offset ∈ layout.targetOffsets ↔ some offset ∈ layout.labelOffsets := by
  rw [marked.mem_targetOffsets_iff partitioned placed, Array.mem_iff_getElem?]
  constructor
  · rintro ⟨label, place, stands, isOffset⟩
    exact ⟨label.index,
      (getElem?_labelOffsets_iff placed label).mpr ⟨place, stands, isOffset⟩⟩
  · rintro ⟨index, found⟩
    obtain ⟨place, stands, isOffset⟩ :=
      (getElem?_labelOffsets_iff placed ⟨index⟩).mp found
    exact ⟨⟨index⟩, place, stands, isOffset⟩

/-!
## Pieces of code
-/

/-- Code that is cut where descriptors start. -/
def cut
    (descriptors : Array Descriptor)
    (code : Array UInt8) :
    List (List UInt8) :=
  (List.range descriptors.size).map fun index =>
    (code.extract (startOf descriptors index) (startOf descriptors (index + 1))).toList

theorem getElem?_cut
    {descriptors : Array Descriptor}
    (code : Array UInt8)
    {index : Nat}
    (inside : index < descriptors.size) :
    (cut descriptors code)[index]? =
      some (code.extract (startOf descriptors index) (startOf descriptors (index + 1))).toList := by
  simp [cut, inside]

/-- The first pieces are the code up to where the next descriptor starts. -/
theorem flatten_take_cut
    {descriptors : Array Descriptor}
    (code : Array UInt8)
    {count : Nat}
    (inside : count ≤ descriptors.size) :
    ((cut descriptors code).take count).flatten =
      (code.extract 0 (startOf descriptors count)).toList := by
  induction count with
  | zero =>
      simp
  | succ count inductionHypothesis =>
      have forward := startOf_mono descriptors (Nat.le_succ count)
      rw [List.take_add_one, List.flatten_append, inductionHypothesis (by omega),
        getElem?_cut code inside, Option.toList_some, List.flatten_singleton,
        ← Array.toList_append, Array.extract_append_extract, Nat.zero_min,
        Nat.max_eq_right forward]

namespace Finished

variable
  {layout : Layout}
  {pool : DataPool}
  {scratch : Register}
  {emitted : EmittedCode}
  (finished : layout.Finished pool scratch emitted)

include finished

theorem length_flatten_take_cut
    {count : Nat}
    (inside : count ≤ layout.descriptors.size) :
    ((cut layout.descriptors emitted.code).take count).flatten.length =
      startOf layout.descriptors count := by
  have within := finished.startOf_le_size inside
  rw [flatten_take_cut _ inside, Array.length_toList, Array.size_extract]
  omega

theorem flatten_cut :
    (cut layout.descriptors emitted.code).flatten = emitted.code.toList := by
  have whole := flatten_take_cut emitted.code (Nat.le_refl layout.descriptors.size)
  rw [← finished.size, Array.extract_size, List.take_of_length_le (by simp [cut])] at whole
  exact whole

/-- Every piece is what its descriptor is encoded to where it stands. -/
theorem exists_getElem?_cut
    {index : Nat}
    {descriptor : Descriptor}
    (found : layout.descriptors[index]? = some descriptor) :
    ∃ buffer,
      (Placement.of layout emitted.dataOffset scratch).encode
          ((cut layout.descriptors emitted.code).take index).flatten.length
          descriptor.operation =
        .ok buffer ∧
        (cut layout.descriptors emitted.code)[index]? = some buffer.bytes := by
  obtain ⟨inside, -⟩ := Array.getElem?_eq_some_iff.mp found
  obtain ⟨buffer, encoded, -, bytes⟩ := finished.written index descriptor found
  refine ⟨buffer, ?_, ?_⟩
  · rw [finished.length_flatten_take_cut (Nat.le_of_lt inside)]
    exact encoded
  · rw [getElem?_cut _ inside, startOf_succ found]
    exact congrArg some bytes

end Finished

end Layout

namespace Session

/--
Finished code as pieces, one for each operation of a session in the order in which
they were appended: each piece is what its operation is encoded to behind the pieces
in front of it.
-/
structure Pieces
    (session : Session)
    (emitted : EmittedCode)
    (pieces : List (List UInt8)) :
    Prop where
  whole : pieces.flatten = emitted.code.toList
  count : pieces.length = session.layout.operations.length
  each :
    ∀ (index : Nat) (operation : Operation),
      session.layout.operations[index]? = some operation →
        ∃ buffer,
          (Placement.of session.relax.2.layout emitted.dataOffset
              session.config.longJumpScratch).encode
              (pieces.take index).flatten.length operation =
            .ok buffer ∧
            pieces[index]? = some buffer.bytes

variable
  {session : Session}
  {emitted : EmittedCode}

/-- The code of a session that is finished is cut into pieces where its descriptors start. -/
theorem pieces_cut
    (wellFormed : session.layout.WellFormed)
    (finished :
      session.relax.2.layout.Finished session.pool session.config.longJumpScratch emitted) :
    session.Pieces emitted
      (Layout.cut session.relax.2.layout.descriptors emitted.code) where
  whole := finished.flatten_cut
  count := by
    rw [← (evolves_relax wellFormed).operations_eq, Layout.length_operations]
    simp [Layout.cut]
  each := by
    intro index operation found
    rw [← (evolves_relax wellFormed).operations_eq, Layout.operations, List.getElem?_map,
      Array.getElem?_toList] at found
    obtain ⟨descriptor, foundDescriptor, rfl⟩ := Option.map_eq_some_iff.mp found
    exact finished.exists_getElem?_cut foundDescriptor

/-- What some commands have appended is in front of what is appended behind them. -/
theorem prefix_operations_run
    (config : Config)
    (front back : List Command) :
    ((start config).run front).layout.operations <+:
      ((start config).run (front ++ back)).layout.operations := by
  rw [run_append]
  exact ((run_changes_any _ back).keeps (wellFormed_run config front)).prefix_operations

/-- The pieces of what some commands have appended end where the next descriptor starts. -/
theorem length_pieces_run
    {config : Config}
    {front back : List Command}
    (finished :
      ((start config).run (front ++ back)).relax.2.layout.Finished
        ((start config).run (front ++ back)).pool
        ((start config).run (front ++ back)).config.longJumpScratch emitted) :
    Layout.startOf ((start config).run (front ++ back)).relax.2.layout.descriptors
        ((start config).run front).layout.descriptors.size =
      ((Layout.cut ((start config).run (front ++ back)).relax.2.layout.descriptors
        emitted.code).take ((start config).run front).layout.operations.length).flatten.length := by
  have inside := (keeps_relax config front back).prefix_operations.length_le
  rw [Layout.length_operations, Layout.length_operations] at inside
  rw [Layout.length_operations, finished.length_flatten_take_cut inside]

/--
The tables of finished code agree with the commands, with the code and with each
other, whatever the commands were and whether they were carried out or refused.  The
code is cut into pieces, one for each operation.  Group offsets never descend.  There
is an entry for each label that was created, it has an offset exactly when the label
was bound, and the offset is the number of bytes of the operations that had been
appended then.  Target offsets ascend strictly and are the offsets of the labels.
-/
theorem finished_tables_agree
    (config : Config)
    (commands : List Command)
    (emitted : EmittedCode)
    (finishes : ((start config).run commands).finish = .ok emitted) :
    ∃ pieces : List (List UInt8),
      ((start config).run commands).Pieces emitted pieces ∧
        (∀ front back,
          commands = front ++ back →
            ((start config).run front).layout.operations <+:
              ((start config).run commands).layout.operations) ∧
        emitted.groupOffsets.toList.Pairwise (· ≤ ·) ∧
        emitted.labelOffsets.size = commands.count .newLabel ∧
        (∀ (label : LabelId) (offset : Nat),
          emitted.labelOffsets[label.index]? = some (some offset) ↔
            ∃ front back,
              commands = front ++ .bindLabel label :: back ∧
                (((start config).run front).perform (.bindLabel label)).1.isOk = true ∧
                  offset =
                    (pieces.take
                      ((start config).run front).layout.operations.length).flatten.length) ∧
        emitted.targetOffsets.toList.Pairwise (· < ·) ∧
        ∀ offset, offset ∈ emitted.targetOffsets ↔ some offset ∈ emitted.labelOffsets := by
  have wellFormed := wellFormed_run config commands
  have evolves := evolves_relax wellFormed
  have partitioned := (wellFormed_relax wellFormed).partitioned
  have marked := (marked_run config commands).of_evolves evolves
  obtain ⟨stats, -, writes⟩ := exists_relax_of_finish finishes
  obtain ⟨groupOffsets, targetOffsets⟩ := Layout.tables_of_write writes
  obtain ⟨-, finished⟩ := finish_eq_ok wellFormed finishes
  have placed := finished.placed
  refine ⟨_, pieces_cut wellFormed finished, ?_, ?_, ?_, ?_, ?_, ?_⟩
  · rintro front back rfl
    exact prefix_operations_run config front back
  · rw [groupOffsets, Array.toList_map, List.pairwise_map]
    exact partitioned.pairwise_offset placed
  · rw [finished.labels, Layout.labelOffsets, Array.size_map, evolves.labels]
    exact size_labels_run config commands
  · intro label offset
    rw [finished.labels, Layout.getElem?_labelOffsets_iff placed label]
    simp only [evolves.labelPlace?_eq wellFormed label, labelPlace?_run_eq_some_iff]
    constructor
    · rintro ⟨place, ⟨front, back, rfl, succeeds, rfl⟩, rfl⟩
      exact ⟨front, back, rfl, succeeds, length_pieces_run finished⟩
    · rintro ⟨front, back, rfl, succeeds, rfl⟩
      exact ⟨_, ⟨front, back, rfl, succeeds, rfl⟩, length_pieces_run finished⟩
  · rw [targetOffsets]
    exact Layout.pairwise_targetOffsets partitioned placed
  · intro offset
    rw [targetOffsets, finished.labels]
    exact marked.mem_targetOffsets_iff_labelOffsets partitioned placed

/--
A branch in its far form, a relaxation that fails, three labels in front of the same
constant, two of them in one group and the third in an empty group before it, a label
that is bound twice and one that is never bound.
-/
def sharedTargets : List Command :=
  [.newLabel, .newLabel, .newLabel, .newLabel, .newLabel,
    .branch .beq (.x 10) (.x 11) ⟨4⟩, .keepLong ⟨0⟩, .relax, .bindLabel ⟨0⟩, .newGroup,
    .bindLabel ⟨1⟩, .bindLabel ⟨2⟩, .bindLabel ⟨1⟩, .loadConstant (.x 12) 0x12345678,
    .newGroup, .bindLabel ⟨4⟩, .jump ⟨0⟩]

theorem finished_tables_agree_sharedTargets :
    ∃ emitted,
      ((start {}).run sharedTargets).finish = .ok emitted ∧
        emitted.groupOffsets = #[0, 12, 12, 20] ∧
        emitted.labelOffsets = #[some 12, some 12, some 12, none, some 20] ∧
        emitted.targetOffsets = #[12, 20] ∧
        emitted.targetOffsets.toList.Pairwise (· < ·) ∧
        ∃ pieces : List (List UInt8),
          ((start {}).run sharedTargets).Pieces emitted pieces ∧
            (pieces.take 1).flatten.length = 12 ∧ (pieces.take 2).flatten.length = 20 := by
  have finishes :
      ((start {}).run sharedTargets).finish.map
          (fun emitted =>
            (emitted.groupOffsets, emitted.labelOffsets, emitted.targetOffsets)) =
        .ok
          (#[0, 12, 12, 20], #[some 12, some 12, some 12, none, some 20], #[12, 20]) := by
    decide +kernel
  obtain ⟨emitted, finishes, outcome⟩ := map_eq_ok_iff.mp finishes
  obtain ⟨groupOffsets, outcome⟩ := Prod.mk.inj outcome
  obtain ⟨labelOffsets, targetOffsets⟩ := Prod.mk.inj outcome
  obtain ⟨pieces, isPieces, -, -, -, labels, ascending, -⟩ :=
    finished_tables_agree {} sharedTargets emitted finishes
  have second :=
    (labels ⟨1⟩ _).mpr
      ⟨sharedTargets.take 10, sharedTargets.drop 11, rfl, by decide +kernel, rfl⟩
  have last :=
    (labels ⟨4⟩ _).mpr
      ⟨sharedTargets.take 15, sharedTargets.drop 16, rfl, by decide +kernel, rfl⟩
  have beforeSecond :
      ((start {}).run (sharedTargets.take 10)).layout.operations.length = 1 := by
    decide +kernel
  have beforeLast :
      ((start {}).run (sharedTargets.take 15)).layout.operations.length = 2 := by
    decide +kernel
  rw [labelOffsets, beforeSecond] at second
  rw [labelOffsets, beforeLast] at last
  exact ⟨emitted, finishes, groupOffsets, labelOffsets, targetOffsets, ascending, pieces,
    isPieces, (Option.some.inj (Option.some.inj second)).symm,
    (Option.some.inj (Option.some.inj last)).symm⟩

end Session

end Rv64Codegen
