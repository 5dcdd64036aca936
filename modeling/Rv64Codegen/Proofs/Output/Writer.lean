import Rv64Codegen.Output.Writer
import Rv64Codegen.Proofs.DataPool
import Rv64Codegen.Proofs.Isa.Run
import Rv64Codegen.Proofs.Outcome
import Rv64Codegen.Proofs.Program.Offsets

namespace Rv64Codegen

/-!
# What the writer leaves behind

The writer checks the place of every group and the size of every descriptor, so
a layout that it accepts is placed, and the words of every descriptor stand in
the code at the sum of all sizes in front of it.  It fails only where some
descriptor cannot be encoded or has another size than the layout says.
-/

/-- What stands inside of the first part stays there when more follows. -/
theorem extract_append_of_le
    {first : Array α}
    {start stop : Nat}
    (inside : stop ≤ first.size)
    (second : Array α) :
    (first ++ second).extract start stop = first.extract start stop := by
  have nothing : second.extract (start - first.size) (stop - first.size) = #[] :=
    Array.extract_empty_of_stop_le_start (by omega)
  rw [Array.extract_append, nothing, Array.append_empty]

namespace Layout

/-- The bytes of a descriptor stand where the descriptor starts. -/
structure Written
    (placement : Placement)
    (code : Array UInt8)
    (index : Nat)
    (descriptor : Descriptor)
    (buffer : WordBuffer) :
    Prop where
  encoded :
    placement.encode (startOf placement.layout.descriptors index) descriptor.operation =
      .ok buffer
  size : buffer.byteLength = descriptor.size
  bytes :
    (code.extract (startOf placement.layout.descriptors index)
      (startOf placement.layout.descriptors index + descriptor.size)).toList = buffer.bytes

variable
  {placement : Placement}

/-- Code that is appended later does not touch what is written. -/
theorem Written.append
    {code : Array UInt8}
    {index : Nat}
    {descriptor : Descriptor}
    {buffer : WordBuffer}
    (written : Written placement code index descriptor buffer)
    (inside :
      startOf placement.layout.descriptors index + descriptor.size ≤ code.size)
    (more : Array UInt8) :
    Written placement (code ++ more) index descriptor buffer where
  encoded := written.encoded
  size := written.size
  bytes := by
    rw [extract_append_of_le inside more]
    exact written.bytes

theorem length_bytes_eq (buffer : WordBuffer) :
    buffer.bytes.length = buffer.byteLength := by
  rw [WordBuffer.bytes, length_flatMap_bytes, WordBuffer.byteLength, Nat.mul_comm]

theorem size_append_bytes
    (code : Array UInt8)
    (buffer : WordBuffer) :
    (code ++ buffer.bytes).size = code.size + buffer.byteLength := by
  rw [← Array.length_toList, Array.toList_appendList, List.length_append,
    Array.length_toList, length_bytes_eq]

/-- The first descriptor of a run that is not empty. -/
theorem toList_extract_eq_cons
    {descriptors : Array Descriptor}
    {first last : Nat}
    (forward : first < last)
    (inside : last ≤ descriptors.size) :
    ∃ descriptor,
      descriptors[first]? = some descriptor ∧
        (descriptors.extract first last).toList =
          descriptor :: (descriptors.extract (first + 1) last).toList := by
  have firstInside : first < descriptors.size := by omega
  refine ⟨descriptors[first], Array.getElem?_eq_getElem firstInside, ?_⟩
  rw [Array.toList_extract, Array.toList_extract, List.extract_eq_take_drop,
    List.extract_eq_take_drop, List.drop_eq_getElem_cons (by simpa using firstInside),
    show last - first = last - (first + 1) + 1 by omega, List.take_succ_cons]
  simp

/-- Writing goes on behind a descriptor that is encoded in the size it has. -/
theorem writeDescriptors_cons_eq_ok
    {pc : Nat}
    {descriptor : Descriptor}
    {rest : List Descriptor}
    {code longer : Array UInt8}
    (result : writeDescriptors placement pc (descriptor :: rest) code = .ok longer) :
    ∃ buffer,
      placement.encode pc descriptor.operation = .ok buffer ∧
        buffer.byteLength = descriptor.size ∧
          writeDescriptors placement (pc + descriptor.size) rest (code ++ buffer.bytes) =
            .ok longer := by
  rw [writeDescriptors] at result
  split at result
  · cases result
  · rename_i buffer encoded
    split at result
    · rename_i sized
      exact ⟨buffer, encoded, sized, result⟩
    · cases result

/-- Descriptors that have been written stand in the code one behind the other. -/
theorem writeDescriptors_eq_ok
    {first last : Nat}
    {code longer : Array UInt8}
    (forward : first ≤ last)
    (inside : last ≤ placement.layout.descriptors.size)
    (here : code.size = startOf placement.layout.descriptors first)
    (result :
      writeDescriptors placement code.size
        (placement.layout.descriptors.extract first last).toList code = .ok longer) :
    (∃ more, longer = code ++ more) ∧
      longer.size = startOf placement.layout.descriptors last ∧
        ∀ (index : Nat) (descriptor : Descriptor),
          first ≤ index → index < last →
            placement.layout.descriptors[index]? = some descriptor →
              ∃ buffer, Written placement longer index descriptor buffer := by
  -- The induction is on the number of descriptors that are left.
  generalize remaining : last - first = count
  induction count generalizing first code with
  | zero =>
      obtain rfl : first = last := by omega
      rw [Array.extract_empty_of_stop_le_start (Nat.le_refl first)] at result
      cases result
      refine ⟨⟨#[], by simp⟩, here, ?_⟩
      intro index descriptor lower upper
      omega
  | succ count inductionHypothesis =>
      obtain ⟨descriptor, found, isCons⟩ :=
        toList_extract_eq_cons (show first < last by omega) inside
      rw [isCons] at result
      obtain ⟨buffer, encoded, sized, resultRest⟩ := writeDescriptors_cons_eq_ok result
      have moved : code.size + descriptor.size = (code ++ buffer.bytes).size := by
        rw [size_append_bytes, sized]
      have grown :
          (code ++ buffer.bytes).size =
            startOf placement.layout.descriptors (first + 1) := by
        rw [startOf_succ found, ← moved, here]
      rw [moved] at resultRest
      obtain ⟨⟨more, isMore⟩, size, later⟩ :=
        inductionHypothesis (by omega) grown resultRest (by omega)
      have written :
          Written placement (code ++ buffer.bytes) first descriptor buffer := by
        refine ⟨here ▸ encoded, sized, ?_⟩
        rw [← here, Array.toList_extract, Array.toList_appendList, ← sized,
          ← length_bytes_eq]
        simp [List.extract_eq_take_drop]
      refine ⟨⟨buffer.bytes.toArray ++ more, ?_⟩, size, ?_⟩
      · rw [isMore]
        apply Array.toList_inj.mp
        simp
      · intro index other lower upper foundOther
        by_cases isFirst : index = first
        · subst isFirst
          rw [found] at foundOther
          cases foundOther
          rw [isMore]
          refine ⟨buffer, written.append ?_ more⟩
          exact Nat.le_of_eq ((startOf_succ found).symm.trans grown.symm)
        · exact later index other (by omega) upper foundOther

/-- Groups that have been written start where their descriptors do. -/
theorem writeGroups_eq_ok
    {start : Nat}
    {groups : List Group}
    {code longer : Array UInt8}
    (tiled : Tiles placement.layout.descriptors start groups)
    (here : code.size = startOf placement.layout.descriptors start)
    (result : writeGroups placement groups code = .ok longer) :
    (∃ more, longer = code ++ more) ∧
      longer.size =
          startOf placement.layout.descriptors placement.layout.descriptors.size ∧
        (∀ group ∈ groups,
          group.offset = startOf placement.layout.descriptors group.first) ∧
          ∀ (index : Nat) (descriptor : Descriptor),
            start ≤ index →
              placement.layout.descriptors[index]? = some descriptor →
                ∃ buffer, Written placement longer index descriptor buffer := by
  induction groups generalizing start code with
  | nil =>
      cases result
      obtain rfl : start = placement.layout.descriptors.size := tiled
      refine ⟨⟨#[], by simp⟩, here, by simp, ?_⟩
      intro index descriptor lower found
      obtain ⟨inside, -⟩ := Array.getElem?_eq_some_iff.mp found
      omega
  | cons group rest inductionHypothesis =>
      obtain ⟨rfl, inside, tiledRest⟩ := tiled
      rw [writeGroups] at result
      split at result
      · rename_i atOffset
        split at result
        · cases result
        · rename_i middle wrote
          rw [atOffset] at wrote
          obtain ⟨⟨more, isMore⟩, size, inGroup⟩ :=
            writeDescriptors_eq_ok (first_le_last group) inside here wrote
          obtain ⟨⟨later, isLater⟩, total, offsets, behind⟩ :=
            inductionHypothesis tiledRest size result
          refine ⟨⟨more ++ later, by rw [isLater, isMore, Array.append_assoc]⟩, total, ?_, ?_⟩
          · intro other member
            rcases List.mem_cons.mp member with rfl | inRest
            · exact atOffset.trans here
            · exact offsets other inRest
          · intro index descriptor lower found
            -- What this group has written stays in front of what the others write.
            by_cases inThis : index < group.last
            · obtain ⟨buffer, written⟩ := inGroup index descriptor lower inThis found
              rw [isLater]
              refine ⟨buffer, written.append ?_ later⟩
              rw [size, ← startOf_succ found]
              exact startOf_mono _ inThis
            · exact behind index descriptor (by omega) found
      · cases result

/-- Finished code that holds every descriptor of a layout at its place. -/
structure Finished
    (layout : Layout)
    (pool : DataPool)
    (scratch : Register)
    (emitted : EmittedCode) :
    Prop where
  placed : Placed layout.groups layout.descriptors
  size : emitted.code.size = startOf layout.descriptors layout.descriptors.size
  before : emitted.code.size ≤ emitted.dataOffset
  small : pool.bytes.isEmpty = false → emitted.dataOffset < 0x100000000
  data : emitted.data = pool.bytes
  labels : emitted.labelOffsets = layout.labelOffsets
  written :
    ∀ (index : Nat) (descriptor : Descriptor),
      layout.descriptors[index]? = some descriptor →
        ∃ buffer,
          Written (Placement.of layout emitted.dataOffset scratch) emitted.code
            index descriptor buffer

theorem write_eq_ok
    {layout : Layout}
    {pool : DataPool}
    {config : Config}
    {stats : RelaxStats}
    {emitted : EmittedCode}
    (result : layout.write pool config stats = .ok emitted) :
    layout.placeData pool config.poolAlign = .ok emitted.dataOffset ∧
      writeGroups (Placement.of layout emitted.dataOffset config.longJumpScratch)
          layout.groups.toList #[] = .ok emitted.code ∧
        emitted.data = pool.bytes ∧ emitted.labelOffsets = layout.labelOffsets ∧
          emitted.stats = stats := by
  obtain ⟨dataOffset, placesData, result⟩ := bind_eq_ok_iff.mp result
  obtain ⟨code, wrote, isEmitted⟩ := bind_eq_ok_iff.mp result
  rw [Failure.ofRefusal_eq_ok_iff] at placesData
  cases isEmitted
  exact ⟨placesData, wrote, rfl, rfl, rfl⟩

/-- The data pool starts behind the code, and a pool with bytes at a small offset. -/
theorem placeData_eq_ok
    {layout : Layout}
    {pool : DataPool}
    {poolAlign dataOffset : Nat}
    (places : layout.placeData pool poolAlign = .ok dataOffset) :
    layout.codeSize ≤ dataOffset ∧
      (pool.bytes.isEmpty = false → dataOffset < 0x100000000) := by
  unfold placeData at places
  dsimp only at places
  split at places
  · rename_i isEmpty
    cases places
    exact ⟨Nat.le_refl _, fun notEmpty => absurd (isEmpty.symm.trans notEmpty) (by simp)⟩
  · split at places
    · cases places
    · rename_i power
      split at places
      · cases places
      · rename_i small
        cases places
        refine ⟨?_, fun _ => Nat.lt_of_not_le small⟩
        have positive := pos_of_isPowerOfTwo (Decidable.not_not.mp power)
        have largerPositive : 0 < max poolAlign pool.alignment :=
          Nat.lt_of_lt_of_le positive (Nat.le_max_left _ _)
        exact (le_nextMultiple _ largerPositive).1

theorem forall_offset_of_placed
    {groups : Array Group}
    {descriptors : Array Descriptor} :
    (∀ group ∈ groups.toList, group.offset = startOf descriptors group.first) ↔
      Placed groups descriptors := by
  constructor
  · intro offsets index group found
    exact offsets group (Array.mem_toList_iff.mpr (Array.mem_of_getElem? found))
  · intro placed group member
    obtain ⟨index, inside, isGroup⟩ := List.getElem_of_mem member
    refine placed index group ?_
    rw [← Array.getElem?_toList, List.getElem?_eq_getElem inside, isGroup]

/-- What the writer accepts is placed, and it leaves every descriptor at its place. -/
theorem finished_of_write
    {layout : Layout}
    {pool : DataPool}
    {config : Config}
    {stats : RelaxStats}
    {emitted : EmittedCode}
    (partitioned : Partitioned layout.groups layout.descriptors)
    (result : layout.write pool config stats = .ok emitted) :
    layout.Finished pool config.longJumpScratch emitted := by
  obtain ⟨placesData, wrote, data, labels, -⟩ := write_eq_ok result
  have atStart : (#[] : Array UInt8).size = startOf layout.descriptors 0 :=
    (startOf_zero _).symm
  obtain ⟨-, size, offsets, written⟩ := writeGroups_eq_ok partitioned.tiles atStart wrote
  have placed := forall_offset_of_placed.mp offsets
  obtain ⟨behind, small⟩ := placeData_eq_ok placesData
  refine ⟨placed, size, ?_, small, data, labels, ?_⟩
  · rw [size]
    exact Nat.le_trans (Nat.le_of_eq (codeSize_eq partitioned placed).symm) behind
  · intro index descriptor found
    exact written index descriptor (Nat.zero_le _) found

end Layout

/-- The image starts with the code. -/
theorem EmittedCode.image_eq
    {emitted : EmittedCode}
    (before : emitted.code.size ≤ emitted.dataOffset) :
    emitted.image =
      emitted.code ++
        (Array.replicate (emitted.dataOffset - emitted.code.size) 0 ++ emitted.data) := by
  rw [EmittedCode.image, Array.extract_eq_self_of_le before, Array.append_assoc]

theorem Placement.encode_eq_ok_iff
    {placement : Placement}
    {pc : Nat}
    {operation : Operation}
    {buffer : WordBuffer} :
    placement.encode pc operation = .ok buffer ↔
      ∃ instructions,
        placement.expand pc operation = .ok instructions ∧
          Instruction.encodeAll instructions = .ok buffer.words := by
  have isBuffer (words : List Word) :
      WordBuffer.ofWords? words = some buffer ↔ words = buffer.words := by
    unfold WordBuffer.ofWords?
    constructor
    · intro made
      split at made
      · cases made
        rfl
      · cases made
    · rintro rfl
      rw [dif_pos buffer.length_le]
  constructor
  · intro encoded
    obtain ⟨instructions, expanded, encoded⟩ := bind_eq_ok_iff.mp encoded
    obtain ⟨words, encodes, made⟩ := bind_eq_ok_iff.mp encoded
    rw [Failure.ofRefusal_eq_ok_iff] at encodes
    rw [Failure.ofMissing_eq_ok_iff, isBuffer] at made
    exact ⟨instructions, expanded, made ▸ encodes⟩
  · rintro ⟨instructions, expanded, encodes⟩
    refine bind_eq_ok_iff.mpr ⟨instructions, expanded, ?_⟩
    refine bind_eq_ok_iff.mpr ⟨buffer.words, Failure.ofRefusal_eq_ok_iff.mpr encodes, ?_⟩
    exact Failure.ofMissing_eq_ok_iff.mpr ((isBuffer _).mpr rfl)

namespace Layout.Finished

variable
  {layout : Layout}
  {pool : DataPool}
  {scratch : Register}
  {emitted : EmittedCode}

/--
The words of a descriptor's instructions stand where it starts, in every image that
begins with the code.
-/
theorem wordsAt_code
    (finished : layout.Finished pool scratch emitted)
    {index : Nat}
    {descriptor : Descriptor}
    (found : layout.descriptors[index]? = some descriptor) :
    ∃ instructions words,
      (Placement.of layout emitted.dataOffset scratch).expand
          (startOf layout.descriptors index) descriptor.operation = .ok instructions ∧
        Instruction.encodeAll instructions = .ok words ∧
          4 * words.length = descriptor.size ∧
            startOf layout.descriptors index + descriptor.size ≤ emitted.code.size ∧
              ∀ more : Array UInt8,
                WordsAt (emitted.code ++ more) (startOf layout.descriptors index) words := by
  obtain ⟨buffer, encoded, size, bytes⟩ := finished.written index descriptor found
  obtain ⟨instructions, expanded, encodes⟩ := Placement.encode_eq_ok_iff.mp encoded
  have length : 4 * buffer.words.length = descriptor.size := by
    rw [← size, WordBuffer.byteLength, Nat.mul_comm]
  obtain ⟨insideDescriptors, -⟩ := Array.getElem?_eq_some_iff.mp found
  have inside :
      startOf layout.descriptors index + descriptor.size ≤ emitted.code.size := by
    rw [finished.size, ← startOf_succ found]
    exact startOf_mono _ insideDescriptors
  refine ⟨instructions, buffer.words, expanded, encodes, length, inside, ?_⟩
  intro more
  apply wordsAt_of_extract
  · rw [length, extract_append_of_le inside]
    exact bytes
  · rw [length, Array.size_append]
    omega

/-- The words of a descriptor's instructions stand in the image where it starts. -/
theorem wordsAt
    (finished : layout.Finished pool scratch emitted)
    {index : Nat}
    {descriptor : Descriptor}
    (found : layout.descriptors[index]? = some descriptor) :
    ∃ instructions words,
      (Placement.of layout emitted.dataOffset scratch).expand
          (startOf layout.descriptors index) descriptor.operation = .ok instructions ∧
        Instruction.encodeAll instructions = .ok words ∧
          4 * words.length = descriptor.size ∧
            startOf layout.descriptors index + descriptor.size ≤ emitted.code.size ∧
              WordsAt emitted.image (startOf layout.descriptors index) words := by
  obtain ⟨instructions, words, expanded, encodes, length, inside, stand⟩ :=
    finished.wordsAt_code found
  refine ⟨instructions, words, expanded, encodes, length, inside, ?_⟩
  rw [EmittedCode.image_eq finished.before]
  exact stand _

/-- What the pool holds is read from the image behind the start of the data. -/
theorem readBytes?_data
    (finished : layout.Finished pool scratch emitted)
    {slot count number : Nat}
    (reads : readBytes? pool.bytes slot count = some number) :
    readBytes? emitted.image (emitted.dataOffset + slot) count = some number := by
  have front :
      (emitted.code ++ Array.replicate (emitted.dataOffset - emitted.code.size) 0).size =
        emitted.dataOffset := by
    rw [Array.size_append, Array.size_replicate]
    have := finished.before
    omega
  have behind :=
    readBytes?_append_right
      (emitted.code ++ Array.replicate (emitted.dataOffset - emitted.code.size) 0)
      emitted.data slot count
  rw [front, finished.data] at behind
  rw [EmittedCode.image_eq finished.before, ← Array.append_assoc, finished.data, behind]
  exact reads

/-- The offset of a label is that of the group it is bound to. -/
theorem labelOffset?_eq
    (finished : layout.Finished pool scratch emitted)
    {label : LabelId}
    {target : GroupId}
    {group : Group}
    (isBound : layout.labelGroup? label = some target)
    (found : layout.groups[target.index]? = some group) :
    emitted.labelOffset? label = some group.offset := by
  rw [EmittedCode.labelOffset?, finished.labels, labelOffsets, Array.getElem?_map]
  rw [labelGroup?] at isBound
  rw [Option.join_eq_some_iff.mp isBound]
  simp [found]

end Layout.Finished

end Rv64Codegen
