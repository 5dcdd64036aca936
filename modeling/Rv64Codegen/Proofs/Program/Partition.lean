import Rv64Codegen.Proofs.Program.Sizes

namespace Rv64Codegen.Layout

/-!
# Groups as a partition

The groups of a program cut its descriptors into contiguous runs, in order and
without gaps, and know the sizes of their runs.  Everything that happens to a
program keeps this: a new group is empty, a new descriptor belongs to the last
group, and a descriptor grows together with its group.  Offsets play no part in
it.
-/

/-- Two arrays of the same size whose entries are related one by one. -/
structure Pointwise
    (related : α → α → Prop)
    (before after : Array α) :
    Prop where
  size : after.size = before.size
  forward :
    ∀ (index : Nat) (old : α),
      before[index]? = some old → ∃ new, after[index]? = some new ∧ related old new

namespace Pointwise

variable
  {related : α → α → Prop}

theorem backward
    {before after : Array α}
    (pointwise : Pointwise related before after)
    {index : Nat}
    {new : α}
    (found : after[index]? = some new) :
    ∃ old, before[index]? = some old ∧ related old new := by
  obtain ⟨inside, -⟩ := Array.getElem?_eq_some_iff.mp found
  have insideBefore : index < before.size := by
    rw [← pointwise.size]
    exact inside
  have foundOld : before[index]? = some before[index] :=
    Array.getElem?_eq_getElem insideBefore
  obtain ⟨again, foundAgain, isRelated⟩ := pointwise.forward index _ foundOld
  rw [found] at foundAgain
  cases foundAgain
  exact ⟨_, foundOld, isRelated⟩

theorem exists_of_mem
    {before after : Array α}
    (pointwise : Pointwise related before after)
    {new : α}
    (member : new ∈ after) :
    ∃ old ∈ before, related old new := by
  obtain ⟨index, found⟩ := Array.mem_iff_getElem?.mp member
  obtain ⟨old, foundOld, isRelated⟩ := pointwise.backward found
  exact ⟨old, Array.mem_of_getElem? foundOld, isRelated⟩

theorem refl
    (reflexive : ∀ entry, related entry entry)
    (entries : Array α) :
    Pointwise related entries entries :=
  ⟨rfl, fun _ entry found => ⟨entry, found, reflexive entry⟩⟩

theorem trans
    (transitive : ∀ first second third, related first second → related second third →
      related first third)
    {first second third : Array α}
    (early : Pointwise related first second)
    (late : Pointwise related second third) :
    Pointwise related first third := by
  refine ⟨late.size.trans early.size, ?_⟩
  intro index old found
  obtain ⟨middle, foundMiddle, toMiddle⟩ := early.forward index old found
  obtain ⟨new, foundNew, fromMiddle⟩ := late.forward index middle foundMiddle
  exact ⟨new, foundNew, transitive old middle new toMiddle fromMiddle⟩

/-- One entry is changed into a related one. -/
theorem modify
    (reflexive : ∀ entry, related entry entry)
    (entries : Array α)
    (index : Nat)
    {change : α → α}
    (changed : ∀ entry, entries[index]? = some entry → related entry (change entry)) :
    Pointwise related entries (entries.modify index change) := by
  refine ⟨Array.size_modify, ?_⟩
  intro other old found
  rw [Array.getElem?_modify]
  by_cases here : index = other
  · subst here
    exact ⟨change old, by rw [if_pos rfl, found]; rfl, changed old found⟩
  · exact ⟨old, by rw [if_neg here]; exact found, reflexive old⟩

end Pointwise

/-- Two groups over the same descriptors, of the same size. -/
def SameRun (old new : Group) : Prop :=
  new.first = old.first ∧ new.count = old.count ∧ new.size = old.size

theorem sameRun_refl (group : Group) :
    SameRun group group :=
  ⟨rfl, rfl, rfl⟩

theorem first_le_last (group : Group) :
    group.first ≤ group.last :=
  Nat.le_add_right _ _

/-- The groups cut the descriptors into contiguous runs and know their sizes. -/
structure Partitioned
    (groups : Array Group)
    (descriptors : Array Descriptor) :
    Prop where
  nonempty : 0 < groups.size
  first :
    ∀ group : Group, groups[0]? = some group → group.first = 0
  next :
    ∀ (index : Nat) (group following : Group),
      groups[index]? = some group →
        groups[index + 1]? = some following → following.first = group.last
  last :
    ∀ group : Group, groups[groups.size - 1]? = some group → group.last = descriptors.size
  size :
    ∀ (index : Nat) (group : Group),
      groups[index]? = some group →
        group.size = sizeBetween descriptors group.first group.last

namespace Partitioned

variable
  {groups : Array Group}
  {descriptors : Array Descriptor}

theorem exists_last (partitioned : Partitioned groups descriptors) :
    ∃ group, groups[groups.size - 1]? = some group :=
  ⟨_, Array.getElem?_eq_getElem (by have := partitioned.nonempty; omega)⟩

/-- A group ends where a later one starts, or before. -/
theorem last_le_first
    (partitioned : Partitioned groups descriptors)
    {early late : Nat}
    {group later : Group}
    (order : early < late)
    (found : groups[early]? = some group)
    (foundLater : groups[late]? = some later) :
    group.last ≤ later.first := by
  induction late generalizing later with
  | zero =>
      omega
  | succ late inductionHypothesis =>
      obtain ⟨inside, -⟩ := Array.getElem?_eq_some_iff.mp foundLater
      have foundBetween : groups[late]? = some groups[late] :=
        Array.getElem?_eq_getElem (by omega)
      have meets := partitioned.next late _ later foundBetween foundLater
      by_cases adjacent : early = late
      · subst adjacent
        rw [found] at foundBetween
        cases foundBetween
        exact Nat.le_of_eq meets.symm
      · have between := inductionHypothesis (by omega) foundBetween
        rw [meets]
        exact Nat.le_trans between (first_le_last _)

/-- No group reaches behind the last descriptor. -/
theorem last_le_size
    (partitioned : Partitioned groups descriptors)
    {index : Nat}
    {group : Group}
    (found : groups[index]? = some group) :
    group.last ≤ descriptors.size := by
  obtain ⟨final, foundFinal⟩ := partitioned.exists_last
  obtain ⟨inside, -⟩ := Array.getElem?_eq_some_iff.mp found
  have atEnd := partitioned.last final foundFinal
  by_cases isLast : index = groups.size - 1
  · subst isLast
    rw [found] at foundFinal
    cases foundFinal
    exact Nat.le_of_eq atEnd
  · have before := partitioned.last_le_first (by omega) found foundFinal
    rw [← atEnd]
    exact Nat.le_trans before (first_le_last final)

/-- Descriptors of an earlier group stand in front of those of a later one. -/
theorem group_le_of_descriptor_lt
    (partitioned : Partitioned groups descriptors)
    {left right : Nat}
    {group other : Group}
    {early late : Nat}
    (found : groups[left]? = some group)
    (foundOther : groups[right]? = some other)
    (inGroup : group.first ≤ early)
    (inOther : late < other.last)
    (order : early < late) :
    left ≤ right := by
  apply Nat.le_of_not_lt
  intro crossed
  have apart := partitioned.last_le_first crossed foundOther found
  omega

/-- A group that does not follow another starts in front of what that one holds. -/
theorem first_le_of_le
    (partitioned : Partitioned groups descriptors)
    {early late : Nat}
    {group later : Group}
    {place : Nat}
    (order : early ≤ late)
    (found : groups[early]? = some group)
    (foundLater : groups[late]? = some later)
    (inLater : later.first ≤ place) :
    group.first ≤ place := by
  rcases Nat.lt_or_eq_of_le order with before | rfl
  · have apart := partitioned.last_le_first before found foundLater
    exact Nat.le_trans (first_le_last group) (Nat.le_trans apart inLater)
  · obtain rfl : group = later := Option.some.inj (found.symm.trans foundLater)
    exact inLater

/-- Only the runs matter, not where the groups stand. -/
theorem congr
    (partitioned : Partitioned groups descriptors)
    {moved : Array Group}
    (same : Pointwise SameRun groups moved) :
    Partitioned moved descriptors := by
  refine ⟨?_, ?_, ?_, ?_, ?_⟩
  · rw [same.size]
    exact partitioned.nonempty
  · intro group found
    obtain ⟨old, foundOld, first, -, -⟩ := same.backward found
    rw [first]
    exact partitioned.first old foundOld
  · intro index group following found foundFollowing
    obtain ⟨old, foundOld, first, count, -⟩ := same.backward found
    obtain ⟨oldNext, foundOldNext, firstNext, -, -⟩ := same.backward foundFollowing
    rw [firstNext, Group.last, first, count]
    exact partitioned.next index old oldNext foundOld foundOldNext
  · intro group found
    rw [same.size] at found
    obtain ⟨old, foundOld, first, count, -⟩ := same.backward found
    rw [Group.last, first, count]
    exact partitioned.last old foundOld
  · intro index group found
    obtain ⟨old, foundOld, first, count, size⟩ := same.backward found
    rw [size, Group.last, first, count]
    exact partitioned.size index old foundOld

/-- A new group is empty and stands behind the last one. -/
theorem push_startingAt
    (partitioned : Partitioned groups descriptors)
    {final : Group}
    (foundFinal : groups[groups.size - 1]? = some final)
    (offset : Nat) :
    Partitioned (groups.push (Group.startingAt offset final.last)) descriptors := by
  have nonempty := partitioned.nonempty
  have atEnd := partitioned.last final foundFinal
  refine ⟨?_, ?_, ?_, ?_, ?_⟩
  · rw [Array.size_push]
    exact Nat.succ_pos _
  · intro group found
    rw [Array.getElem?_push_lt nonempty, ← Array.getElem?_eq_getElem] at found
    exact partitioned.first group found
  · intro index group following found foundFollowing
    obtain ⟨inside, -⟩ := Array.getElem?_eq_some_iff.mp foundFollowing
    rw [Array.size_push] at inside
    rw [Array.getElem?_push, if_neg (by omega)] at found
    rw [Array.getElem?_push] at foundFollowing
    split at foundFollowing
    · rename_i isNew
      cases foundFollowing
      have atLast : index = groups.size - 1 := by omega
      rw [atLast, foundFinal] at found
      cases found
      rfl
    · exact partitioned.next index group following found foundFollowing
  · intro group found
    rw [Array.size_push, Nat.add_sub_cancel, Array.getElem?_push_size] at found
    cases found
    exact atEnd
  · intro index group found
    rw [Array.getElem?_push] at found
    split at found
    · cases found
      exact (sizeBetween_self _ _).symm
    · exact partitioned.size index group found

/-- A new descriptor belongs to the last group. -/
theorem push_descriptor
    (partitioned : Partitioned groups descriptors)
    (descriptor : Descriptor) :
    Partitioned (groups.modify (groups.size - 1) (Group.extend · descriptor.size))
      (descriptors.push descriptor) := by
  have nonempty := partitioned.nonempty
  -- only the last group changes, and it keeps its first descriptor
  have before :
      ∀ (index : Nat) (group : Group),
        (groups.modify (groups.size - 1) (Group.extend · descriptor.size))[index]? =
            some group →
          ∃ old : Group, groups[index]? = some old ∧ old.first = group.first ∧
            (index + 1 < groups.size → group = old) ∧
              (index + 1 = groups.size → group = old.extend descriptor.size) := by
    intro index group found
    rw [Array.getElem?_modify] at found
    split at found
    · rename_i isLast
      obtain ⟨old, foundOld, rfl⟩ := Option.map_eq_some_iff.mp found
      exact ⟨old, foundOld, rfl, fun _ => by omega, fun _ => rfl⟩
    · obtain ⟨inside, -⟩ := Array.getElem?_eq_some_iff.mp found
      exact ⟨group, found, rfl, fun _ => rfl, fun _ => by omega⟩
  refine ⟨?_, ?_, ?_, ?_, ?_⟩
  · rw [Array.size_modify]
    exact nonempty
  · intro group found
    obtain ⟨old, foundOld, first, -, -⟩ := before 0 group found
    rw [← first]
    exact partitioned.first old foundOld
  · intro index group following found foundFollowing
    obtain ⟨old, foundOld, -, keeps, -⟩ := before index group found
    obtain ⟨oldNext, foundOldNext, firstNext, -, -⟩ :=
      before (index + 1) following foundFollowing
    obtain ⟨inside, -⟩ := Array.getElem?_eq_some_iff.mp foundOldNext
    rw [← firstNext, keeps inside]
    exact partitioned.next index old oldNext foundOld foundOldNext
  · intro group found
    rw [Array.size_modify] at found
    obtain ⟨old, foundOld, -, -, extended⟩ := before _ group found
    have atEnd := partitioned.last old foundOld
    rw [extended (by omega), Array.size_push, ← atEnd]
    rfl
  · intro index group found
    obtain ⟨old, foundOld, -, keeps, extended⟩ := before index group found
    have size := partitioned.size index old foundOld
    have inside := partitioned.last_le_size foundOld
    obtain ⟨indexInside, -⟩ := Array.getElem?_eq_some_iff.mp foundOld
    by_cases isLast : index + 1 = groups.size
    · have atEnd := partitioned.last old (by rw [← isLast]; exact foundOld)
      have pushed :
          (descriptors.push descriptor)[old.last]? = some descriptor := by
        rw [atEnd, Array.getElem?_push_size]
      rw [extended isLast]
      show old.size + descriptor.size =
        sizeBetween (descriptors.push descriptor) old.first (old.last + 1)
      rw [sizeBetween_succ_of_getElem? (first_le_last old) pushed,
        sizeBetween_push descriptors descriptor inside, size]
    · rw [keeps (by omega), sizeBetween_push descriptors descriptor inside]
      exact size

/-- A descriptor grows together with its group. -/
theorem grow
    (partitioned : Partitioned groups descriptors)
    {index place : Nat}
    {own : Group}
    (found : groups[index]? = some own)
    (lower : own.first ≤ place)
    (upper : place < own.last)
    (bytes : Nat) :
    Partitioned (groups.modify index (Group.grow · bytes)) (growAt descriptors place bytes) := by
  have inside : place < descriptors.size :=
    Nat.lt_of_lt_of_le upper (partitioned.last_le_size found)
  have before :
      ∀ (other : Nat) (group : Group),
        (groups.modify index (Group.grow · bytes))[other]? = some group →
          ∃ old : Group, groups[other]? = some old ∧ old.first = group.first ∧
            old.count = group.count ∧
              group.size = old.size + if other = index then bytes else 0 := by
    intro other group foundGroup
    rw [Array.getElem?_modify] at foundGroup
    split at foundGroup
    · rename_i here
      obtain ⟨old, foundOld, rfl⟩ := Option.map_eq_some_iff.mp foundGroup
      exact ⟨old, foundOld, rfl, rfl, by rw [if_pos here.symm]; rfl⟩
    · rename_i elsewhere
      exact ⟨group, foundGroup, rfl, rfl, by rw [if_neg (Ne.symm elsewhere)]; rfl⟩
  refine ⟨?_, ?_, ?_, ?_, ?_⟩
  · rw [Array.size_modify]
    exact partitioned.nonempty
  · intro group foundGroup
    obtain ⟨old, foundOld, first, -, -⟩ := before 0 group foundGroup
    rw [← first]
    exact partitioned.first old foundOld
  · intro other group following foundGroup foundFollowing
    obtain ⟨old, foundOld, first, count, -⟩ := before other group foundGroup
    obtain ⟨oldNext, foundOldNext, firstNext, -, -⟩ :=
      before (other + 1) following foundFollowing
    rw [← firstNext, Group.last, ← first, ← count]
    exact partitioned.next other old oldNext foundOld foundOldNext
  · intro group foundGroup
    rw [Array.size_modify] at foundGroup
    obtain ⟨old, foundOld, first, count, -⟩ := before _ group foundGroup
    rw [Group.last, ← first, ← count, size_growAt]
    exact partitioned.last old foundOld
  · intro other group foundGroup
    obtain ⟨old, foundOld, first, count, grown⟩ := before other group foundGroup
    rw [grown, Group.last, ← first, ← count, sizeBetween_growAt _ _ _ inside,
      partitioned.size other old foundOld]
    congr 1
    -- the grown descriptor lies in its own group and in no other
    rcases Nat.lt_trichotomy other index with below | rfl | above
    · have apart := partitioned.last_le_first below foundOld found
      rw [if_neg (by omega), if_neg (by unfold Group.last at apart; omega)]
    · rw [found] at foundOld
      cases foundOld
      rw [if_pos rfl, if_pos ⟨lower, upper⟩]
    · have apart := partitioned.last_le_first above found foundOld
      rw [if_neg (by omega), if_neg (by omega)]

end Partitioned

end Rv64Codegen.Layout
