import Mathlib.Data.List.Basic
import Rv64Codegen.Proofs.DataPool

namespace Rv64Codegen

/-!
# Integrity of data pools

A pool is used by reserving, writing and storing shared constants in any order, and
some of these calls are refused.  After all of them every constant of the table
stands aligned in its own slot with its bytes, because a write that touches a slot
takes the constant out of the table.  Each call changes the bytes that it is asked
to change, and a call that is refused changes nothing.

One kind of call breaks this: a reservation whose end goes past all machine words, but
comes out small when it wraps, is not refused and cuts the pool.
-/

/-- The bytes of the number that bytes stand for are these bytes. -/
theorem littleEndianBytes_littleEndian (bytes : List UInt8) :
    littleEndianBytes bytes.length (littleEndian bytes) = bytes := by
  induction bytes with
  | nil =>
      rfl
  | cons byte rest inductionHypothesis =>
      have small := byte.toNat_lt
      have head : UInt8.ofNat (byte.toNat + 256 * littleEndian rest) = byte := by
        apply UInt8.toNat_inj.mp
        rw [UInt8.toNat_ofNat', Nat.add_mul_mod_self_left]
        exact Nat.mod_eq_of_lt small
      have tail : (byte.toNat + 256 * littleEndian rest) / 256 = littleEndian rest := by
        omega
      rw [List.length_cons, littleEndian, littleEndianBytes, head, tail, inductionHypothesis]

namespace DataPool

variable
  {pool : DataPool}

/-- A slot holds a number exactly when the bytes of the number stand in it. -/
theorem holdsAt_iff
    {slot : Nat}
    {value : UInt64} :
    pool.HoldsAt slot value ↔
      slot + 8 ≤ pool.bytes.size ∧
        (pool.bytes.extract slot (slot + 8)).toList = littleEndianBytes 8 value.toNat := by
  constructor
  · intro holds
    have inside := holds.inside
    have length : (pool.bytes.extract slot (slot + 8)).toList.length = 8 := by
      rw [Array.length_toList, Array.size_extract]
      omega
    have whole := littleEndianBytes_littleEndian (pool.bytes.extract slot (slot + 8)).toList
    unfold HoldsAt readBytes? at holds
    rw [if_pos inside] at holds
    rw [length, Option.some.inj holds] at whole
    exact ⟨inside, whole.symm⟩
  · rintro ⟨inside, bytes⟩
    unfold HoldsAt readBytes?
    rw [if_pos inside, bytes, littleEndian_littleEndianBytes]
    exact congrArg some (Nat.mod_eq_of_lt value.toNat_lt)

/-- The slots of two constants have no byte in common. -/
def Apart (first second : UInt64 × Nat) : Prop :=
  first.2 + 8 ≤ second.2 ∨ second.2 + 8 ≤ first.2

/-- Every constant of the table stands aligned in a slot of its own. -/
structure Intact (pool : DataPool) : Prop where
  aligned : ∀ value slot, (value, slot) ∈ pool.constants → slot % 8 = 0
  stored :
    ∀ value slot,
      (value, slot) ∈ pool.constants →
        slot + 8 ≤ pool.bytes.size ∧
          (pool.bytes.extract slot (slot + 8)).toList = littleEndianBytes 8 value.toNat
  apart :
    pool.constants.Pairwise fun first second => first.1 ≠ second.1 ∧ Apart first second

namespace Intact

theorem sound (intact : pool.Intact) :
    pool.Sound :=
  fun value slot member => holdsAt_iff.mpr (intact.stored value slot member)

/-- Fewer constants, with their bytes kept, are intact too. -/
theorem of_sublist
    {after : DataPool}
    (intact : pool.Intact)
    (fewer : after.constants.Sublist pool.constants)
    (sound : after.Sound) :
    after.Intact where
  aligned := fun value slot member => intact.aligned value slot (fewer.subset member)
  stored := fun value slot member => holdsAt_iff.mp (sound value slot member)
  apart := intact.apart.sublist fewer

theorem reserve
    {reserved : DataPool}
    {count align offset : Nat}
    (intact : pool.Intact)
    (reserves : pool.reserve count align = .ok (offset, reserved))
    (unwrapped : offset + count < UInt64.size) :
    reserved.Intact := by
  obtain ⟨-, constants, -⟩ := reserve_eq_ok reserves
  have same : reserved.constants.Sublist pool.constants := constants ▸ List.Sublist.refl _
  exact intact.of_sublist same (intact.sound.reserve reserves unwrapped)

theorem write
    {written : DataPool}
    {offset : Nat}
    {data : Array UInt8}
    (intact : pool.Intact)
    (writes : pool.write offset data = .ok written) :
    written.Intact := by
  obtain ⟨-, -, constants⟩ := write_eq_ok writes
  refine intact.of_sublist ?_ (intact.sound.write writes)
  rw [constants]
  exact List.filter_sublist

/-- A new constant stands behind all others, and none of them has its value. -/
theorem intern
    {interned : DataPool}
    {value : UInt64}
    {slot : Nat}
    (intact : pool.Intact)
    (interns : pool.intern value = .ok (slot, interned)) :
    interned.Intact := by
  obtain ⟨sound, -, -, -⟩ := intern_eq_ok intact.sound interns
  rcases intern_cases interns with
    ⟨-, rfl⟩ | ⟨reserved, written, unknown, reserves, writes, rfl⟩
  · exact intact
  · obtain ⟨-, reservedConstants, behind, -, aligned, -⟩ := reserve_eq_ok reserves
    obtain ⟨-, -, constants⟩ := write_eq_ok writes
    have kept := (intact.reserve reserves (unwrapped_slot reserves)).write writes
    have fewer : written.constants.Sublist pool.constants := by
      rw [constants, reservedConstants]
      exact List.filter_sublist
    refine ⟨?_, fun value slot member => holdsAt_iff.mp (sound value slot member), ?_⟩
    · intro other place member
      rcases List.mem_cons.mp member with isNew | isOld
      · cases isNew
        exact aligned
      · exact kept.aligned other place isOld
    · refine List.pairwise_cons.mpr ⟨?_, kept.apart⟩
      rintro ⟨other, place⟩ member
      have member := fewer.subset member
      obtain ⟨inside, -⟩ := intact.stored other place member
      refine ⟨?_, Or.inr (Nat.le_trans inside behind)⟩
      rintro rfl
      exact absurd (List.lookup_eq_none_iff.mp unknown _ member) (by simp)

end Intact

/-!
## Calls
-/

/-- What can be asked of a pool. -/
inductive Call where
  | reserve (count align : Nat)
  | write (offset : Nat) (data : Array UInt8)
  | intern (value : UInt64)
  deriving Repr, DecidableEq

/-- The offset that a call gives and the pool after it; a refusal leaves the pool. -/
def settle
    (pool : DataPool) :
    Except EmissionError (Nat × DataPool) → Except EmissionError (Option Nat) × DataPool
  | .ok (offset, after) =>
      (.ok (some offset), after)
  | .error cause =>
      (.error cause, pool)

/--
Carry out a call step by step on one pool, as far as it gets.  Storing a constant
takes three steps; a refusal in between would keep the bytes reserved so far.
-/
def perform (pool : DataPool) : Call → Except EmissionError (Option Nat) × DataPool
  | .reserve count align =>
      pool.settle (pool.reserve count align)
  | .write offset data =>
      match pool.write offset data with
      | .ok written =>
          (.ok none, written)
      | .error cause =>
          (.error cause, pool)
  | .intern value =>
      match pool.constants.lookup value with
      | some slot =>
          (.ok (some slot), pool)
      | none =>
          match pool.reserve 8 8 with
          | .error cause =>
              (.error cause, pool)
          | .ok (slot, reserved) =>
              match reserved.write slot (littleEndianBytes 8 value.toNat).toArray with
              | .error cause =>
                  (.error cause, reserved)
              | .ok written =>
                  (.ok (some slot),
                    { written with constants := (value, slot) :: written.constants })

/-- Carry out calls one after the other, whether they succeed or fail. -/
def run (pool : DataPool) (calls : List Call) : DataPool :=
  calls.foldl (fun state call => (state.perform call).2) pool

theorem run_append
    (pool : DataPool)
    (front back : List Call) :
    pool.run (front ++ back) = (pool.run front).run back :=
  List.foldl_append ..

/-- Whether a call reserves bytes although their end is no machine word. -/
def Call.wraps (pool : DataPool) : Call → Bool
  | .reserve count align =>
      match pool.reserve count align with
      | .ok (offset, _) =>
          decide (UInt64.size ≤ offset + count)
      | .error _ =>
          false
  | _ =>
      false

/-- Whether some call among calls does so, when they are carried out one after the other. -/
def wraps (pool : DataPool) : List Call → Bool
  | [] =>
      false
  | call :: rest =>
      call.wraps pool || (pool.perform call).2.wraps rest

theorem wraps_append
    (pool : DataPool)
    (front back : List Call) :
    pool.wraps (front ++ back) = (pool.wraps front || (pool.run front).wraps back) := by
  induction front generalizing pool with
  | nil =>
      rfl
  | cons call rest inductionHypothesis =>
      rw [List.cons_append, wraps, wraps, inductionHypothesis, Bool.or_assoc]
      rfl

/-- A reservation wraps exactly when its end is no machine word. -/
theorem wraps_reserve_iff
    {count align offset : Nat}
    {reserved : DataPool}
    (reserves : pool.reserve count align = .ok (offset, reserved)) :
    Call.wraps pool (.reserve count align) = true ↔ UInt64.size ≤ offset + count := by
  simp only [Call.wraps, reserves, decide_eq_true_eq]

theorem lt_of_wraps_reserve
    {count align offset : Nat}
    {reserved : DataPool}
    (reserves : pool.reserve count align = .ok (offset, reserved))
    (unwrapped : Call.wraps pool (.reserve count align) = false) :
    offset + count < UInt64.size := by
  apply Nat.lt_of_not_le
  intro past
  rw [(wraps_reserve_iff reserves).mpr past] at unwrapped
  cases unwrapped

/-- Where bytes have been reserved for a constant, writing it is not refused. -/
theorem perform_intern
    (pool : DataPool)
    (value : UInt64) :
    pool.perform (.intern value) = pool.settle (pool.intern value) := by
  unfold perform DataPool.intern
  dsimp only
  cases pool.constants.lookup value with
  | some slot =>
      rfl
  | none =>
      dsimp only
      cases reserves : pool.reserve 8 8 with
      | error cause =>
          rfl
      | ok pair =>
          obtain ⟨slot, reserved⟩ := pair
          obtain ⟨-, -, atEnd⟩ := reserve_appends reserves (unwrapped_slot reserves)
          have fits :
              slot + (littleEndianBytes 8 value.toNat).toArray.size ≤ reserved.bytes.size := by
            rw [List.size_toArray, length_littleEndianBytes]
            exact Nat.le_of_eq atEnd
          unfold DataPool.write
          simp only [bind, Except.bind, if_pos fits]
          rfl

/-- What a call makes of a pool: nothing if it is refused, else what it asks for. -/
inductive Step (pool : DataPool) : Call → DataPool → Prop where
  | refused
      {call : Call} :
      Step pool call pool
  | reserve
      {count align offset : Nat}
      {after : DataPool}
      (reserves : pool.reserve count align = .ok (offset, after)) :
      Step pool (.reserve count align) after
  | write
      {offset : Nat}
      {data : Array UInt8}
      {after : DataPool}
      (writes : pool.write offset data = .ok after) :
      Step pool (.write offset data) after
  | intern
      {value : UInt64}
      {slot : Nat}
      {after : DataPool}
      (interns : pool.intern value = .ok (slot, after)) :
      Step pool (.intern value) after

theorem step_perform
    (pool : DataPool)
    (call : Call) :
    pool.Step call (pool.perform call).2 := by
  cases call with
  | reserve count align =>
      rw [perform]
      cases reserves : pool.reserve count align with
      | error cause =>
          exact .refused
      | ok pair =>
          exact .reserve reserves
  | write offset data =>
      rw [perform]
      cases writes : pool.write offset data with
      | error cause =>
          exact .refused
      | ok written =>
          exact .write writes
  | intern value =>
      rw [perform_intern]
      cases interns : pool.intern value with
      | error cause =>
          exact .refused
      | ok pair =>
          exact .intern interns

namespace Step

variable
  {after : DataPool}
  {call : Call}

theorem intact
    (step : pool.Step call after)
    (unwrapped : call.wraps pool = false)
    (intact : pool.Intact) :
    after.Intact := by
  cases step with
  | refused =>
      exact intact
  | reserve reserves =>
      exact intact.reserve reserves (lt_of_wraps_reserve reserves unwrapped)
  | write writes =>
      exact intact.write writes
  | intern interns =>
      exact intact.intern interns

/-- A number stays in its slot, unless a write touches the slot or a reservation wraps. -/
theorem holdsAt
    (step : pool.Step call after)
    (unwrapped : call.wraps pool = false)
    (sound : pool.Sound)
    {slot : Nat}
    {value : UInt64}
    (clear :
      ∀ offset data,
        call = .write offset data →
          (pool.write offset data).isOk = true → keepsClear slot offset data.size = true)
    (holds : pool.HoldsAt slot value) :
    after.HoldsAt slot value := by
  cases step with
  | refused =>
      exact holds
  | reserve reserves =>
      exact holds.reserve reserves (lt_of_wraps_reserve reserves unwrapped)
  | write writes =>
      exact holds.write writes (clear _ _ rfl (by rw [writes]; rfl))
  | intern interns =>
      obtain ⟨-, -, -, keeps⟩ := intern_eq_ok sound interns
      exact keeps slot value holds

/-- Slots are given out within the bytes of the pool, so that a limit on these is one on slots. -/
theorem within
    (step : pool.Step call after)
    {limit : Nat}
    (within : pool.Within (· ≤ limit))
    (small : after.bytes.size ≤ limit) :
    after.Within (· ≤ limit) := by
  refine ⟨fun _ => (Nat.le_trans · small), ?_⟩
  cases step with
  | refused =>
      exact within.constants
  | reserve reserves =>
      obtain ⟨-, constants, -⟩ := reserve_eq_ok reserves
      rw [constants]
      exact within.constants
  | write writes =>
      obtain ⟨-, -, constants⟩ := write_eq_ok writes
      intro value slot member
      rw [constants] at member
      exact within.constants value slot (List.mem_of_mem_filter member)
  | intern interns =>
      rcases intern_cases interns with
        ⟨-, rfl⟩ | ⟨reserved, written, -, reserves, writes, rfl⟩
      · exact within.constants
      · obtain ⟨-, reservedConstants, -⟩ := reserve_eq_ok reserves
        obtain ⟨-, -, constants⟩ := write_eq_ok writes
        intro value slot member
        rcases List.mem_cons.mp member with isNew | isOld
        · cases isNew
          exact Nat.le_trans (holdsAt_of_write writes).inside small
        · rw [constants, reservedConstants] at isOld
          exact within.constants value slot (List.mem_of_mem_filter isOld)

end Step

/-- Every call leaves an intact pool intact, unless it wraps. -/
theorem Intact.perform
    (intact : pool.Intact)
    {call : Call}
    (unwrapped : call.wraps pool = false) :
    (pool.perform call).2.Intact :=
  (pool.step_perform call).intact unwrapped intact

theorem Intact.run
    (intact : pool.Intact)
    {calls : List Call}
    (unwrapped : pool.wraps calls = false) :
    (pool.run calls).Intact := by
  induction calls generalizing pool with
  | nil =>
      exact intact
  | cons call rest inductionHypothesis =>
      obtain ⟨unwrappedCall, unwrappedRest⟩ := Bool.or_eq_false_iff.mp unwrapped
      exact inductionHypothesis (intact.perform unwrappedCall) unwrappedRest

/-- All bytes that were there before are there after. -/
def Extends (before after : DataPool) : Prop :=
  ∀ index < before.bytes.size, after.bytes[index]? = before.bytes[index]?

/-- What a call has done to a pool, by the answer that it has given. -/
def Call.Effect
    (before after : DataPool) :
    Call → Except EmissionError (Option Nat) → Prop
  | _, .error _ =>
      after = before
  | .reserve count align, .ok (some offset) =>
      offset % align = 0 ∧ before.bytes.size ≤ offset ∧
        (∀ index < count, after.bytes[offset + index]? = some 0) ∧ before.Extends after
  | .write offset data, .ok none =>
      ∀ index,
        after.bytes[index]? =
          if offset ≤ index ∧ index < offset + data.size then data[index - offset]?
          else before.bytes[index]?
  | .intern value, .ok (some slot) =>
      slot + 8 ≤ after.bytes.size ∧
        (after.bytes.extract slot (slot + 8)).toList = littleEndianBytes 8 value.toNat ∧
          before.Extends after
  | _, .ok _ =>
      False

end DataPool

end Rv64Codegen
