import Mathlib.Order.Bounds.Basic
import Rv64Codegen.Proofs.DataPool.Integrity

namespace Rv64Codegen

/-!
# Alignments of data pools

A call that asks for bytes asks for an alignment as well.  The pool keeps the
largest alignment that it has granted, and every offset that it gives out is
aligned within the pool.  All alignments are powers of two, so a pool that is
placed at a multiple of the largest one is placed well for all of them.
-/

/-- The next multiple is the least of all multiples that are not below. -/
theorem isLeast_nextMultiple
    (number : Nat)
    {align : Nat}
    (positive : 0 < align) :
    IsLeast {offset | align ∣ offset ∧ number ≤ offset} (nextMultiple number align) := by
  obtain ⟨notBelow, near⟩ := le_nextMultiple number positive
  refine ⟨⟨Nat.dvd_mul_left _ _, notBelow⟩, ?_⟩
  rintro offset ⟨⟨quotient, rfl⟩, above⟩
  have fewer : (number + (align - 1)) / align < quotient + 1 := by
    rw [Nat.div_lt_iff_lt_mul positive, Nat.mul_comm, Nat.mul_succ]
    omega
  rw [nextMultiple, Nat.mul_comm]
  exact Nat.mul_le_mul_left align (Nat.le_of_lt_succ fewer)

/-- Of two powers of two, the smaller one divides the larger one. -/
theorem dvd_of_isPowerOfTwo
    {smaller larger : Nat}
    (smallerPower : isPowerOfTwo smaller = true)
    (largerPower : isPowerOfTwo larger = true)
    (ordered : smaller ≤ larger) :
    smaller ∣ larger := by
  rw [isPowerOfTwo, beq_iff_eq, Nat.one_shiftLeft] at smallerPower largerPower
  have exponents : smaller.log2 ≤ larger.log2 := by
    apply (Nat.pow_le_pow_iff_right (by decide : 1 < 2)).mp
    rw [smallerPower, largerPower]
    exact ordered
  rw [← smallerPower, ← largerPower]
  exact Nat.pow_dvd_pow 2 exponents

namespace DataPool

variable
  {pool : DataPool}

/-!
## Alignments that calls get
-/

/-- The alignment that a call asks for; a write asks for none. -/
def Call.align? : Call → Option Nat
  | .reserve _ align => some align
  | .write _ _ => none
  | .intern _ => some 8

/-- The alignment that a call gets; a call that is refused gets none. -/
def granted? (pool : DataPool) (call : Call) : Option Nat :=
  if (pool.perform call).1.isOk then
    call.align?
  else
    none

/-- The alignments that calls get, one call after the other. -/
def grantedAligns (pool : DataPool) : List Call → List Nat
  | [] =>
      []
  | call :: rest =>
      (pool.granted? call).toList ++ (pool.perform call).2.grantedAligns rest

theorem grantedAligns_append
    (pool : DataPool)
    (front back : List Call) :
    pool.grantedAligns (front ++ back) =
      pool.grantedAligns front ++ (pool.run front).grantedAligns back := by
  induction front generalizing pool with
  | nil =>
      rfl
  | cons call rest inductionHypothesis =>
      rw [List.cons_append, grantedAligns, grantedAligns, inductionHypothesis,
        List.append_assoc]
      rfl

/--
A pool that has granted some alignments: it knows the largest one, and a pool with
shared constants has granted theirs and has given them aligned slots.
-/
structure Honours (pool : DataPool) (aligns : List Nat) : Prop where
  powers : ∀ align ∈ aligns, isPowerOfTwo align = true
  bounded : ∀ align ∈ aligns, align ≤ pool.largestAlign
  attained : pool.largestAlign = 0 ∨ pool.largestAlign ∈ aligns
  shared : pool.constants ≠ [] → 8 ≤ pool.largestAlign
  slots : ∀ value slot, (value, slot) ∈ pool.constants → 8 ∣ slot
  stored : pool.bytes ≠ #[] → pool.largestAlign ≠ 0

theorem honours_empty : empty.Honours [] where
  powers := by
    intro align member
    cases member
  bounded := by
    intro align member
    cases member
  attained := Or.inl rfl
  shared := fun some => absurd rfl some
  slots := by
    intro value slot member
    cases member
  stored := fun some => absurd rfl some

/-- A pool with bytes knows the largest of all alignments that it has granted. -/
theorem Honours.isGreatest
    {aligns : List Nat}
    (honours : pool.Honours aligns)
    (nonempty : pool.bytes ≠ #[]) :
    IsGreatest {align | align ∈ aligns} pool.largestAlign :=
  ⟨honours.attained.resolve_left (honours.stored nonempty), honours.bounded⟩

theorem largestAlign_reserve
    {reserved : DataPool}
    {count align offset : Nat}
    (reserves : pool.reserve count align = .ok (offset, reserved)) :
    isPowerOfTwo align = true ∧ reserved.largestAlign = max pool.largestAlign align := by
  unfold reserve at reserves
  dsimp only at reserves
  split at reserves
  · cases reserves
  · rename_i power
    split at reserves
    · cases reserves
    · cases reserves
      exact ⟨Decidable.not_not.mp power, rfl⟩

theorem largestAlign_write
    {written : DataPool}
    {offset : Nat}
    {data : Array UInt8}
    (writes : pool.write offset data = .ok written) :
    written.largestAlign = pool.largestAlign := by
  unfold write at writes
  split at writes
  · cases writes
    rfl
  · cases writes

/-- A shared constant has the alignment 8, whether it is new or not. -/
theorem largestAlign_intern
    {aligns : List Nat}
    (honours : pool.Honours aligns)
    {interned : DataPool}
    {value : UInt64}
    {slot : Nat}
    (interns : pool.intern value = .ok (slot, interned)) :
    interned.largestAlign = max pool.largestAlign 8 := by
  rcases intern_cases interns with
    ⟨known, rfl⟩ | ⟨reserved, written, -, reserves, writes, rfl⟩
  · exact (Nat.max_eq_left (honours.shared (List.ne_nil_of_mem known))).symm
  · exact (largestAlign_write writes).trans (largestAlign_reserve reserves).2

/-- A pool whose largest alignment has been raised to a new one has granted that one as well. -/
theorem Honours.raise
    {aligns : List Nat}
    (honours : pool.Honours aligns)
    {after : DataPool}
    {align : Nat}
    (power : isPowerOfTwo align = true)
    (raised : after.largestAlign = max pool.largestAlign align)
    (shared : after.constants ≠ [] → 8 ≤ after.largestAlign)
    (slots : ∀ value slot, (value, slot) ∈ after.constants → 8 ∣ slot) :
    after.Honours (aligns ++ [align]) where
  powers := by
    intro other member
    rcases List.mem_append.mp member with earlier | isNew
    · exact honours.powers other earlier
    · rw [List.mem_singleton.mp isNew]
      exact power
  bounded := by
    intro other member
    rw [raised]
    rcases List.mem_append.mp member with earlier | isNew
    · exact Nat.le_trans (honours.bounded other earlier) (Nat.le_max_left _ _)
    · rw [List.mem_singleton.mp isNew]
      exact Nat.le_max_right _ _
  attained := by
    right
    rw [raised]
    rcases Nat.le_total pool.largestAlign align with below | above
    · rw [Nat.max_eq_right below]
      exact List.mem_append_right _ (List.mem_singleton_self align)
    · have nonzero : pool.largestAlign ≠ 0 := by
        have positive := pos_of_isPowerOfTwo power
        omega
      rw [Nat.max_eq_left above]
      exact List.mem_append_left _ (honours.attained.resolve_left nonzero)
  shared := shared
  slots := slots
  stored := by
    intro _
    have positive := pos_of_isPowerOfTwo power
    omega

theorem Honours.reserve
    {aligns : List Nat}
    (honours : pool.Honours aligns)
    {reserved : DataPool}
    {count align offset : Nat}
    (reserves : pool.reserve count align = .ok (offset, reserved)) :
    reserved.Honours (aligns ++ [align]) := by
  obtain ⟨-, constants, -⟩ := reserve_eq_ok reserves
  obtain ⟨power, raised⟩ := largestAlign_reserve reserves
  refine honours.raise power raised (fun someConstant => ?_) (constants ▸ honours.slots)
  rw [raised]
  exact Nat.le_trans (honours.shared (constants ▸ someConstant)) (Nat.le_max_left _ _)

theorem Honours.intern
    {aligns : List Nat}
    (honours : pool.Honours aligns)
    {interned : DataPool}
    {value : UInt64}
    {slot : Nat}
    (interns : pool.intern value = .ok (slot, interned)) :
    interned.Honours (aligns ++ [8]) := by
  have raised := largestAlign_intern honours interns
  refine honours.raise (by decide) raised (fun _ => ?_) ?_
  · rw [raised]
    exact Nat.le_max_right _ _
  · rcases intern_cases interns with
      ⟨-, rfl⟩ | ⟨reserved, written, -, reserves, writes, rfl⟩
    · exact honours.slots
    · obtain ⟨-, reservedConstants, -, -, aligned, -⟩ := reserve_eq_ok reserves
      obtain ⟨-, -, constants⟩ := write_eq_ok writes
      intro other place member
      rcases List.mem_cons.mp member with isNew | isOld
      · cases isNew
        exact Nat.dvd_of_mod_eq_zero aligned
      · rw [constants, reservedConstants] at isOld
        exact honours.slots other place (List.mem_of_mem_filter isOld)

theorem Honours.write
    {aligns : List Nat}
    (honours : pool.Honours aligns)
    {written : DataPool}
    {offset : Nat}
    {data : Array UInt8}
    (writes : pool.write offset data = .ok written) :
    written.Honours aligns := by
  obtain ⟨inside, bytes, constants⟩ := write_eq_ok writes
  have same := largestAlign_write writes
  refine ⟨honours.powers, ?_, ?_, ?_, ?_, ?_⟩
  · rw [same]
    exact honours.bounded
  · rw [same]
    exact honours.attained
  · intro someConstant
    rw [same]
    refine honours.shared fun nothing => someConstant ?_
    rw [constants, nothing, List.filter_nil]
  · intro value slot member
    rw [constants] at member
    exact honours.slots value slot (List.mem_of_mem_filter member)
  · intro someByte
    rw [same]
    refine honours.stored fun nothing => someByte (Array.eq_empty_of_size_eq_zero ?_)
    rw [bytes, size_overwrite inside, nothing]
    rfl

/-- Every call adds the alignment that it gets. -/
theorem Honours.perform
    {aligns : List Nat}
    (honours : pool.Honours aligns)
    (call : Call) :
    (pool.perform call).2.Honours (aligns ++ (pool.granted? call).toList) := by
  have refused : pool.Honours (aligns ++ []) := (List.append_nil aligns).symm ▸ honours
  cases call with
  | reserve count align =>
      rw [granted?, DataPool.perform]
      cases reserves : pool.reserve count align with
      | error cause =>
          exact refused
      | ok pair =>
          exact honours.reserve reserves
  | write offset data =>
      rw [granted?, DataPool.perform]
      cases writes : pool.write offset data with
      | error cause =>
          exact refused
      | ok written =>
          exact refused.write writes
  | intern value =>
      rw [granted?, perform_intern]
      cases interns : pool.intern value with
      | error cause =>
          exact refused
      | ok pair =>
          exact honours.intern interns

theorem Honours.run
    {aligns : List Nat}
    (honours : pool.Honours aligns)
    (calls : List Call) :
    (pool.run calls).Honours (aligns ++ pool.grantedAligns calls) := by
  induction calls generalizing pool aligns with
  | nil =>
      exact (List.append_nil aligns).symm ▸ honours
  | cons call rest inductionHypothesis =>
      rw [grantedAligns, ← List.append_assoc]
      exact inductionHypothesis (honours.perform call)

/-- Within the pool, every offset has the alignment that its call has asked for. -/
theorem Honours.dvd_of_perform
    {aligns : List Nat}
    (honours : pool.Honours aligns)
    {call : Call}
    {align offset : Nat}
    (asks : call.align? = some align)
    (answers : (pool.perform call).1 = .ok (some offset)) :
    align ∣ offset := by
  cases call with
  | reserve count requested =>
      cases asks
      rw [DataPool.perform] at answers
      cases reserves : pool.reserve count align with
      | error cause =>
          rw [reserves] at answers
          cases answers
      | ok pair =>
          rw [reserves] at answers
          cases answers
          obtain ⟨-, -, -, -, aligned, -⟩ := reserve_eq_ok reserves
          exact Nat.dvd_of_mod_eq_zero aligned
  | write place data =>
      cases asks
  | intern value =>
      cases asks
      rw [perform_intern] at answers
      cases interns : pool.intern value with
      | error cause =>
          rw [interns] at answers
          cases answers
      | ok pair =>
          rw [interns] at answers
          cases answers
          exact (honours.intern interns).slots value _ (mem_of_intern interns)

end DataPool

end Rv64Codegen
