import Rv64Codegen.DataPool
import Rv64Codegen.Proofs.Isa.Run
import Rv64Codegen.Proofs.Outcome

namespace Rv64Codegen

/-!
# What a data pool keeps

A number in the pool stays readable while the pool grows and while writes keep
clear of it.  The slots of shared constants hold their constants as long as no
reservation has wrapped and cut the pool.
-/

/-- Reading only depends on the bytes that are read. -/
theorem readBytes?_congr
    {before after : Array UInt8}
    {address count number : Nat}
    (same :
      ∀ index, address ≤ index → index < address + count → after[index]? = before[index]?)
    (inside : address + count ≤ after.size)
    (reads : readBytes? before address count = some number) :
    readBytes? after address count = some number := by
  unfold readBytes? at reads ⊢
  split at reads
  · rename_i insideBefore
    cases reads
    have sameBytes :
        after.extract address (address + count) =
          before.extract address (address + count) := by
      apply Array.ext_getElem?
      intro index
      rw [Array.getElem?_extract, Array.getElem?_extract]
      by_cases within : index < count
      · rw [if_pos (by omega), if_pos (by omega)]
        exact same (address + index) (by omega) (by omega)
      · rw [if_neg (by omega), if_neg (by omega)]
    rw [if_pos inside, sameBytes]
  · cases reads

theorem inside_of_readBytes?
    {bytes : Array UInt8}
    {address count number : Nat}
    (reads : readBytes? bytes address count = some number) :
    address + count ≤ bytes.size := by
  unfold readBytes? at reads
  split at reads
  · assumption
  · cases reads

theorem readBytes?_append
    {bytes : Array UInt8}
    (more : Array UInt8)
    {address count number : Nat}
    (reads : readBytes? bytes address count = some number) :
    readBytes? (bytes ++ more) address count = some number := by
  have inside := inside_of_readBytes? reads
  refine readBytes?_congr ?_ ?_ reads
  · intro index _ upper
    rw [Array.getElem?_append_left (by omega)]
  · rw [Array.size_append]
    omega

/-- What stands behind other bytes is read as it stands alone. -/
theorem readBytes?_append_right
    (front bytes : Array UInt8)
    (address count : Nat) :
    readBytes? (front ++ bytes) (front.size + address) count =
      readBytes? bytes address count := by
  have nothing :
      front.extract (front.size + address) (front.size + address + count) = #[] := by
    apply Array.extract_empty_of_size_le_start
    omega
  unfold readBytes?
  rw [Array.size_append, Array.extract_append, nothing, Array.empty_append,
    Nat.add_sub_cancel_left, show front.size + address + count - front.size = address + count
      by omega]
  simp only [Nat.add_assoc, Nat.add_le_add_iff_left]

theorem pos_of_isPowerOfTwo
    {number : Nat}
    (power : isPowerOfTwo number = true) :
    0 < number := by
  apply Nat.pos_of_ne_zero
  rintro rfl
  cases power

/-- The next multiple is not below, and less than one step above. -/
theorem le_nextMultiple
    (number : Nat)
    {align : Nat}
    (positive : 0 < align) :
    number ≤ nextMultiple number align ∧ nextMultiple number align < number + align := by
  have whole := Nat.div_add_mod (number + (align - 1)) align
  have rest := Nat.mod_lt (number + (align - 1)) positive
  unfold nextMultiple
  rw [Nat.mul_comm] at whole
  omega

namespace DataPool

/-- The pool has a 64-bit number in a slot. -/
def HoldsAt
    (pool : DataPool)
    (slot : Nat)
    (value : UInt64) :
    Prop :=
  readBytes? pool.bytes slot 8 = some value.toNat

/-- The slots of shared constants hold them. -/
def Sound (pool : DataPool) : Prop :=
  ∀ value slot, (value, slot) ∈ pool.constants → pool.HoldsAt slot value

theorem HoldsAt.inside
    {pool : DataPool}
    {slot : Nat}
    {value : UInt64}
    (holds : pool.HoldsAt slot value) :
    slot + 8 ≤ pool.bytes.size :=
  inside_of_readBytes? holds

/-- The ends of all slots of a pool lie within an extent, also of slots that it has lost. -/
structure Within (pool : DataPool) (extent : Nat → Prop) : Prop where
  bytes : ∀ stop ≤ pool.bytes.size, extent stop
  constants : ∀ value slot, (value, slot) ∈ pool.constants → extent (slot + 8)

@[simp] theorem size_resize
    (bytes : Array UInt8)
    (count : Nat) :
    (resize bytes count).size = count := by
  rw [resize, Array.size_append, Array.size_extract, Array.size_replicate]
  omega

/-- No byte is lost where the new size is not below the old one. -/
theorem resize_of_le
    {bytes : Array UInt8}
    {count : Nat}
    (grows : bytes.size ≤ count) :
    resize bytes count = bytes ++ Array.replicate (count - bytes.size) 0 := by
  rw [resize, Array.extract_eq_self_of_le grows]

/-- Reserving resizes the pool to the end of the reserved bytes, which is a machine word. -/
theorem reserve_eq_ok
    {pool reserved : DataPool}
    {count align offset : Nat}
    (reserves : pool.reserve count align = .ok (offset, reserved)) :
    reserved.bytes = resize pool.bytes ((offset + count) % UInt64.size) ∧
      reserved.constants = pool.constants ∧
        pool.bytes.size ≤ offset ∧ offset ≤ maxOffset ∧ offset % align = 0 ∧
          (offset + count) % UInt64.size ≤ maxOffset := by
  unfold reserve at reserves
  dsimp only at reserves
  split at reserves
  · cases reserves
  · rename_i power
    split at reserves
    · cases reserves
    · rename_i small
      cases reserves
      have positive : 0 < align := pos_of_isPowerOfTwo (by simpa using power)
      have notBelow := (le_nextMultiple pool.bytes.size positive).1
      exact ⟨rfl, rfl, notBelow, by omega, Nat.mul_mod_left .., by omega⟩

/-- Reserving appends zero bytes, the last of them behind an aligned offset, unless it wraps. -/
theorem reserve_appends
    {pool reserved : DataPool}
    {count align offset : Nat}
    (reserves : pool.reserve count align = .ok (offset, reserved))
    (unwrapped : offset + count < UInt64.size) :
    ∃ zeros,
      reserved.bytes = pool.bytes ++ Array.replicate zeros 0 ∧
        offset + count = reserved.bytes.size := by
  obtain ⟨bytes, -, behind, -⟩ := reserve_eq_ok reserves
  rw [Nat.mod_eq_of_lt unwrapped] at bytes
  exact ⟨_, bytes.trans (resize_of_le (by omega)), by rw [bytes, size_resize]⟩

/-- The slot of a constant is far too short to wrap. -/
theorem unwrapped_slot
    {pool reserved : DataPool}
    {slot : Nat}
    (reserves : pool.reserve 8 8 = .ok (slot, reserved)) :
    slot + 8 < UInt64.size := by
  obtain ⟨-, -, -, small, -⟩ := reserve_eq_ok reserves
  exact Nat.lt_of_le_of_lt (Nat.add_le_add_right small 8) (by decide)

theorem size_overwrite
    {bytes data : Array UInt8}
    {offset : Nat}
    (inside : offset + data.size ≤ bytes.size) :
    (overwrite bytes offset data).size = bytes.size := by
  unfold overwrite
  rw [Array.size_append, Array.size_append, Array.size_extract, Array.size_extract]
  omega

/-- Overwritten bytes are the new ones, and all others stay. -/
theorem getElem?_overwrite
    {bytes data : Array UInt8}
    {offset : Nat}
    (inside : offset + data.size ≤ bytes.size)
    (index : Nat) :
    (overwrite bytes offset data)[index]? =
      if offset ≤ index ∧ index < offset + data.size then data[index - offset]?
      else bytes[index]? := by
  have front : (bytes.extract 0 offset).size = offset := by
    rw [Array.size_extract]
    omega
  have middle : (bytes.extract 0 offset ++ data).size = offset + data.size := by
    rw [Array.size_append, front]
  unfold overwrite
  by_cases before : index < offset
  · rw [Array.getElem?_append_left (by omega), Array.getElem?_append_left (by omega),
      Array.getElem?_extract, if_pos (by omega), if_neg (by omega), Nat.zero_add]
  · by_cases within : index < offset + data.size
    · rw [Array.getElem?_append_left (by omega), Array.getElem?_append_right (by omega),
        front, if_pos (by omega)]
    · rw [Array.getElem?_append_right (by omega), middle, if_neg (by omega),
        Array.getElem?_extract]
      by_cases stored : index < bytes.size
      · rw [if_pos (by omega)]
        congr 1
        omega
      · rw [if_neg (by omega), Array.getElem?_eq_none (by omega)]

/-- A write replaces bytes and forgets the constants that it touches. -/
theorem write_eq_ok
    {pool written : DataPool}
    {offset : Nat}
    {data : Array UInt8}
    (writes : pool.write offset data = .ok written) :
    offset + data.size ≤ pool.bytes.size ∧
      written.bytes = overwrite pool.bytes offset data ∧
        written.constants =
          pool.constants.filter (fun entry => keepsClear entry.2 offset data.size) := by
  unfold write at writes
  split at writes
  · rename_i inside
    cases writes
    exact ⟨inside, rfl, rfl⟩
  · cases writes

/-- A number stays where a write keeps clear of it. -/
theorem HoldsAt.write
    {pool written : DataPool}
    {slot offset : Nat}
    {value : UInt64}
    {data : Array UInt8}
    (holds : pool.HoldsAt slot value)
    (writes : pool.write offset data = .ok written)
    (clear : keepsClear slot offset data.size = true) :
    written.HoldsAt slot value := by
  obtain ⟨inside, bytes, -⟩ := write_eq_ok writes
  have slotInside := holds.inside
  simp only [keepsClear, Bool.or_eq_true, decide_eq_true_eq] at clear
  unfold HoldsAt
  rw [bytes]
  refine readBytes?_congr ?_ ?_ holds
  · intro index lower upper
    rw [getElem?_overwrite inside, if_neg (by omega)]
  · rw [size_overwrite inside]
    exact slotInside

theorem HoldsAt.reserve
    {pool reserved : DataPool}
    {slot count align offset : Nat}
    {value : UInt64}
    (holds : pool.HoldsAt slot value)
    (reserves : pool.reserve count align = .ok (offset, reserved))
    (unwrapped : offset + count < UInt64.size) :
    reserved.HoldsAt slot value := by
  obtain ⟨zeros, bytes, -⟩ := reserve_appends reserves unwrapped
  unfold HoldsAt
  rw [bytes]
  exact readBytes?_append _ holds

theorem Sound.write
    {pool written : DataPool}
    {offset : Nat}
    {data : Array UInt8}
    (sound : pool.Sound)
    (writes : pool.write offset data = .ok written) :
    written.Sound := by
  obtain ⟨-, -, constants⟩ := write_eq_ok writes
  intro value slot member
  rw [constants, List.mem_filter] at member
  exact (sound value slot member.1).write writes member.2

theorem Sound.reserve
    {pool reserved : DataPool}
    {count align offset : Nat}
    (sound : pool.Sound)
    (reserves : pool.reserve count align = .ok (offset, reserved))
    (unwrapped : offset + count < UInt64.size) :
    reserved.Sound := by
  obtain ⟨-, constants, -⟩ := reserve_eq_ok reserves
  intro value slot member
  rw [constants] at member
  exact (sound value slot member).reserve reserves unwrapped

/-- What a write has put into the pool can be read back. -/
theorem holdsAt_of_write
    {pool written : DataPool}
    {slot : Nat}
    {value : UInt64}
    (writes :
      pool.write slot (littleEndianBytes 8 value.toNat).toArray = .ok written) :
    written.HoldsAt slot value := by
  obtain ⟨inside, bytes, -⟩ := write_eq_ok writes
  have length : (littleEndianBytes 8 value.toNat).toArray.size = 8 := by
    rw [List.size_toArray, length_littleEndianBytes]
  rw [length] at inside
  have stored :
      (overwrite pool.bytes slot (littleEndianBytes 8 value.toNat).toArray).extract
          slot (slot + 8) =
        (littleEndianBytes 8 value.toNat).toArray := by
    apply Array.ext_getElem?
    intro index
    have size := size_overwrite (show slot + _ ≤ pool.bytes.size from length.symm ▸ inside)
    rw [Array.getElem?_extract, size]
    by_cases within : index < 8
    · rw [if_pos (by omega), getElem?_overwrite (by omega), if_pos (by omega),
        Nat.add_sub_cancel_left]
    · rw [if_neg (by omega), Array.getElem?_eq_none (by omega)]
  unfold HoldsAt readBytes?
  rw [bytes, size_overwrite (by omega), if_pos inside, stored,
    littleEndian_littleEndianBytes]
  exact congrArg some (Nat.mod_eq_of_lt value.toNat_lt)

/-- A constant is given the slot it has, or a new one behind all other bytes. -/
theorem intern_cases
    {pool interned : DataPool}
    {value : UInt64}
    {slot : Nat}
    (interns : pool.intern value = .ok (slot, interned)) :
    ((value, slot) ∈ pool.constants ∧ interned = pool) ∨
      ∃ reserved written,
        pool.constants.lookup value = none ∧ pool.reserve 8 8 = .ok (slot, reserved) ∧
          reserved.write slot (littleEndianBytes 8 value.toNat).toArray = .ok written ∧
            interned = { written with constants := (value, slot) :: written.constants } := by
  unfold intern at interns
  split at interns
  · rename_i known isKnown
    cases interns
    obtain ⟨front, back, split, -⟩ := List.lookup_eq_some_iff.mp isKnown
    refine Or.inl ⟨?_, rfl⟩
    rw [split]
    simp
  · rename_i unknown
    simp only [bind_eq_ok_iff] at interns
    obtain ⟨⟨offset, reserved⟩, reserves, written, writes, isInterned⟩ := interns
    cases isInterned
    exact Or.inr ⟨reserved, written, unknown, reserves, writes, rfl⟩

/-- A constant is in the table afterwards. -/
theorem mem_of_intern
    {pool interned : DataPool}
    {value : UInt64}
    {slot : Nat}
    (interns : pool.intern value = .ok (slot, interned)) :
    (value, slot) ∈ interned.constants := by
  rcases intern_cases interns with ⟨known, rfl⟩ | ⟨_, _, -, -, -, rfl⟩
  · exact known
  · exact List.mem_cons_self

/-- A slot that is given out for a constant holds it, and no other slot suffers. -/
theorem intern_eq_ok
    {pool interned : DataPool}
    {value : UInt64}
    {slot : Nat}
    (sound : pool.Sound)
    (interns : pool.intern value = .ok (slot, interned)) :
    interned.Sound ∧ interned.HoldsAt slot value ∧
      pool.bytes.size ≤ interned.bytes.size ∧
        ∀ other number, pool.HoldsAt other number → interned.HoldsAt other number := by
  rcases intern_cases interns with
    ⟨member, rfl⟩ | ⟨reserved, written, -, reserves, writes, rfl⟩
  · exact ⟨sound, sound value slot member, Nat.le_refl _, fun _ _ holds => holds⟩
  · have unwrapped := unwrapped_slot reserves
    obtain ⟨-, -, behind, -⟩ := reserve_eq_ok reserves
    obtain ⟨zeros, bytes, -⟩ := reserve_appends reserves unwrapped
    obtain ⟨inside, overwritten, -⟩ := write_eq_ok writes
    have stored := holdsAt_of_write writes
    have keeps :
        ∀ other number, pool.HoldsAt other number → written.HoldsAt other number := by
      intro other number holds
      have before := holds.inside
      refine (holds.reserve reserves unwrapped).write writes ?_
      simp only [keepsClear, Bool.or_eq_true, decide_eq_true_eq]
      omega
    refine ⟨?_, stored, ?_, keeps⟩
    · intro known place member
      rcases List.mem_cons.mp member with isNew | isOld
      · cases isNew
        exact stored
      · exact (sound.reserve reserves unwrapped).write writes known place isOld
    · show pool.bytes.size ≤ written.bytes.size
      rw [overwritten, size_overwrite inside, bytes, Array.size_append]
      omega

end DataPool

end Rv64Codegen
