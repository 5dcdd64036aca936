import Rv64Codegen.Proofs.Session.Capacity
import Rv64Codegen.Proofs.Session.Finish
import Rv64Codegen.Proofs.Session.PoolCalls
import Rv64Codegen.Proofs.Session.Readiness

namespace Rv64Codegen

/-!
# The writer accepts what relaxation accepts

A session in which no relaxation has failed can be finished, unless a label is
not bound, a relative target lies outside of its group, or the code is too large
at the fixed point of relaxation.  Nothing else stands in the way: all forms
reach their targets, all operands have words and all sizes are exact.
-/

namespace Layout

theorem Misses.cause
    {layout : Layout}
    {jump : Jump}
    {failure : Failure}
    (misses : layout.Misses jump failure) :
    (∃ label, failure = .refused (.unresolvedTarget label)) ∨
      ∃ group index count,
        failure = .refused (.relativeTargetOutOfGroup group index count) := by
  unfold Misses at misses
  split at misses
  · exact Or.inl ⟨_, misses.2⟩
  · obtain ⟨own, -, -, isFailure⟩ := misses
    exact Or.inr ⟨_, _, _, isFailure⟩

/-- A jump that reaches its target in a later state had a target from the start. -/
theorem Reached.resolves
    {before after : Layout}
    {id : Nat}
    {old new : Jump}
    (reached : after.Reached new)
    (wellFormed : after.WellFormed)
    (found : after.jumps[id]? = some new)
    (layouts : before.Evolves after)
    (jumps : old.Evolves new) :
    ∃ resolved, before.Resolves old resolved := by
  obtain ⟨resolved, -, isResolved, -⟩ := reached
  have resolves := (wellFormed.holds id new found).resolved resolved isResolved
  refine ⟨resolved, ?_⟩
  cases resolved with
  | group target =>
      obtain ⟨label, asked, isBound⟩ := resolves
      refine ⟨label, jumps.target.symm.trans asked, ?_⟩
      rw [labelGroup?, ← layouts.labels]
      exact isBound
  | inGroup position =>
      obtain ⟨count, own, asked, foundOwn, exact, inside⟩ := resolves
      rw [jumps.group] at foundOwn
      obtain ⟨oldOwn, foundOld, first, sameCount, -⟩ := layouts.groups.backward foundOwn
      rw [jumps.descriptor, first] at exact
      exact ⟨count, oldOwn, jumps.target.symm.trans asked, foundOld, exact, sameCount ▸ inside⟩

end Layout

namespace Session

/-- The limits within which distances can always be covered. -/
structure Limited (session : Session) : Prop where
  scratch : ∀ register ∈ session.config.registers, register.index < 32
  smallFunction : session.config.smallFunctionBytes ≤ 0xfff
  passes : session.config.maxRelaxPasses = none
  code : session.config.maxCodeBytes ≤ 0x10000000
  power : isPowerOfTwo session.config.poolAlign = true
  poolAlign : session.config.poolAlign ≤ 0x10000000
  alignment : session.pool.alignment ≤ 0x10000000

namespace Ready

variable
  {extent : Nat → Prop}
  {session : Session}

theorem startOf_le
    (ready : session.Ready extent)
    (limited : session.Limited)
    {index : Nat}
    (inside : index ≤ session.layout.descriptors.size) :
    Layout.startOf session.layout.descriptors index ≤ 0x10000000 := by
  have order := Layout.startOf_mono session.layout.descriptors inside
  have total := ready.within
  rw [ready.located.codeSize_eq ready.wellFormed] at total
  exact Nat.le_trans order (Nat.le_trans total limited.code)

/-- Within the limits everything is in reach from everywhere in the code. -/
theorem reaches
    (ready : session.Ready (· ≤ 0x10000000))
    (limited : session.Limited)
    {dataOffset : Nat}
    (near : dataOffset ≤ 0x20000000)
    (scratch : Register)
    {index : Nat}
    (inside : index ≤ session.layout.descriptors.size) :
    Reaches (Placement.of session.layout dataOffset scratch) (· ≤ 0x10000000)
      (Layout.startOf session.layout.descriptors index) := by
  have atMost := ready.startOf_le limited inside
  refine ⟨?_, ?_⟩
  · intro slot width inPool
    rw [PcRelative.reachable_iff]
    show -0x80000800 ≤ ((dataOffset + slot : Nat) : Int) - _ ∧
      ((dataOffset + slot : Nat) : Int) - _ < 0x7ffff800
    omega
  · intro label target isBound
    have insideGroups := ready.wellFormed.bound label target isBound
    have found := Array.getElem?_eq_getElem insideGroups
    have first := Nat.le_trans (Layout.first_le_last _)
      (ready.wellFormed.partitioned.last_le_size found)
    have offset := ready.located.groups _ _ found
    have offsetSmall := ready.startOf_le limited first
    refine ⟨_, found, ?_⟩
    rw [PcRelative.reachable_iff]
    omega

end Ready

end Session

end Rv64Codegen
