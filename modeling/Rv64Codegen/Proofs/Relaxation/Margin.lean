import Rv64Codegen.Proofs.Relaxation.Choice

namespace Rv64Codegen

/-!
# The margin pays for growth

A jump that is measured with a margin has a reserve for every short jump on its
way.  When one of these grows by no more than the reserve, it takes the growth out
of its own part of the margin, and what the first jump has been given still covers
the distance.  With a reserve of at least eight bytes, a pass that checks distances
is therefore final for the jumps that it starts with in the short or the far form.
-/

namespace Jump

theorem isLong_eq_false_iff (jump : Jump) :
    jump.isLong = false ↔ jump.form = .short := by
  unfold isLong form
  cases jump.state with
  | shortUnbound =>
      simp
  | shortBound =>
      simp
  | long long =>
      cases long <;> simp

theorem rank_le_far (form : Form) :
    form.rank ≤ Form.far.rank := by
  cases form <;> decide

/-- The growth of a jump is paid for when the jump stops being short. -/
theorem growth_le_reserve
    {before after : Jump}
    (evolves : before.Evolves after)
    (notNear : before.form ≠ .near)
    {reserve : Nat}
    (enough : 8 ≤ reserve) :
    (after.size - before.size) + reserve * (if after.isLong = false then 1 else 0) ≤
      reserve * (if before.isLong = false then 1 else 0) := by
  have sameSizes := (forms_of_kind evolves.kind).2
  have sameForm (same : after.form = before.form) :
      (after.size - before.size) + reserve * (if after.isLong = false then 1 else 0) ≤
        reserve * (if before.isLong = false then 1 else 0) := by
    simp only [isLong_eq_false_iff, size, sameSizes, same, Nat.sub_self, Nat.zero_add,
      Nat.le_refl]
  cases isForm : before.form with
  | short =>
      by_cases staysShort : after.form = .short
      · exact sameForm (staysShort.trans isForm.symm)
      · obtain ⟨-, atMost, -⟩ := after.size_bounds after.form
        obtain ⟨atLeast, -, -⟩ := before.size_bounds before.form
        simp only [isLong_eq_false_iff, staysShort, isForm, size]
        rw [isForm] at atLeast
        simp only [if_false, if_true]
        omega
  | near =>
      exact absurd isForm notNear
  | far =>
      have longer := evolves.rank
      rw [isForm] at longer
      exact sameForm
        ((rank_injective (Nat.le_antisymm (rank_le_far _) longer)).trans isForm.symm)

end Jump

namespace Relaxation

/-- A shorter form covers a smaller distance ahead with less margin. -/
theorem reaches_of_le
    {jump : Jump}
    {form : Form}
    {distance nearer : Int}
    {margin less : Nat}
    (notFar : form ≠ .far)
    (reaches : Reaches jump form distance margin)
    (ahead : 0 ≤ nearer)
    (closer : nearer + less ≤ distance + margin) :
    Reaches jump form nearer less := by
  have fits {bits : Nat} (fitsMore : FitsSigned bits (distance + margin)) :
      FitsSigned bits (nearer + less) := by
    obtain ⟨lower, upper⟩ := fitsMore
    exact ⟨by omega, by omega⟩
  cases form with
  | short =>
      exact fits reaches
  | near =>
      exact fits reaches
  | far =>
      exact absurd rfl notFar

end Relaxation

namespace Layout

/-- A target behind a jump is behind all of its words. -/
theorem Holds.spanTo_nonneg
    {layout : Layout}
    {id : Nat}
    {jump : Jump}
    (holds : layout.Holds id jump)
    {place : Nat}
    (forward : jump.descriptor < place) :
    0 ≤ spanTo layout.descriptors jump place jump.form := by
  have follows := startOf_succ holds.described
  have behind :
      startOf layout.descriptors (jump.descriptor + 1) ≤ startOf layout.descriptors place :=
    startOf_mono layout.descriptors forward
  obtain ⟨large, -, anchor⟩ := jump.size_bounds jump.form
  unfold spanTo
  change _ = _ + jump.sizeOf jump.form at follows
  omega

/-- A form that covers the distance covers it in every layout with the same way ahead. -/
theorem Covers.congr
    {first second : Layout}
    (firstWellFormed : first.WellFormed)
    (secondWellFormed : second.WellFormed)
    {front otherFront pending : List Jump}
    {jump : Jump}
    (isFirst : first.jumps.toList = front ++ jump :: pending)
    (isSecond : second.jumps.toList = otherFront ++ jump :: pending)
    (descriptors : second.descriptors = first.descriptors)
    {reserve place : Nat}
    {form : Form}
    (covers : first.Covers reserve jump place form) :
    second.Covers reserve jump place form := by
  unfold Covers at covers ⊢
  rw [descriptors, (secondWellFormed.shortBetween_eq isSecond place).1,
    ← (firstWellFormed.shortBetween_eq isFirst place).1]
  exact covers

/-- The form of a jump covers the distance with the margin, or is the longest there is. -/
def Secures
    (layout : Layout)
    (reserve : Nat)
    (jump : Jump) :
    Prop :=
  jump.form ≠ .far →
    ∀ place, layout.GoesTo jump place → layout.Covers reserve jump place jump.form

section Growth

variable
  {before after : Layout}
  {reserve : Nat}
  {front pending : List Jump}
  {old new : Jump}

/-- The growth of a later jump leaves what an earlier one has been given. -/
theorem Secures.of_growth
    (regrows : before.Regrows after front old new pending)
    (notNear : old.form ≠ .near)
    (enough : 8 ≤ reserve)
    {jump : Jump}
    (member : jump ∈ front)
    (secures : before.Secures reserve jump) :
    after.Secures reserve jump := by
  obtain ⟨wellFormed, laterWellFormed, evolves, jumps, isBefore, isAfter, descriptors⟩ := regrows
  intro notFar place goes
  have goesBefore := (goesTo_iff_of_evolves evolves (.refl jump) place).mp goes
  have reaches := covers_form_iff.mp (secures notFar place goesBefore)
  have order : jump.descriptor < old.descriptor := by
    have ordered := wellFormed.pairwise
    rw [isBefore, List.pairwise_append] at ordered
    exact ordered.2.2 jump member old (by simp)
  have inside : old.descriptor < before.descriptors.size := by
    have isOld : before.jumps[front.length]? = some old := by
      rw [← Array.getElem?_toList, isBefore]
      simp
    obtain ⟨inside, -⟩ :=
      Array.getElem?_eq_some_iff.mp (wellFormed.holds _ old isOld).described
    exact inside
  have start : startOf after.descriptors jump.descriptor =
      startOf before.descriptors jump.descriptor := by
    rw [descriptors, startOf_growAt_of_le _ inside (Nat.le_of_lt order)]
  rw [covers_form_iff]
  rw [isBefore, shortBetween_append, shortBetween_cons] at reaches
  rw [isAfter, shortBetween_append, shortBetween_cons, jumps.descriptor]
  by_cases onTheWay : old.descriptor < place
  · have target : startOf after.descriptors place =
        startOf before.descriptors place + (new.size - old.size) := by
      rw [descriptors, startOf_growAt_of_lt _ inside onTheWay]
    have paid := Jump.growth_le_reserve jumps notNear enough
    have forward : jump.descriptor < place := Nat.lt_trans order onTheWay
    obtain ⟨id, foundLater⟩ : ∃ id, after.jumps[id]? = some jump := by
      rw [← Array.mem_iff_getElem?, ← Array.mem_toList_iff, isAfter]
      simp [member]
    refine Relaxation.reaches_of_le notFar reaches
      ((laterWellFormed.holds id jump foundLater).spanTo_nonneg forward) ?_
    simp only [order, onTheWay, and_self, true_and]
    simp only [Nat.mul_add]
    unfold spanTo
    omega
  · have target : startOf after.descriptors place = startOf before.descriptors place := by
      rw [descriptors, startOf_growAt_of_le _ inside (Nat.le_of_not_lt onTheWay)]
    rw [if_neg (by omega)] at reaches ⊢
    unfold spanTo at reaches ⊢
    rw [start, target]
    exact reaches

/-- A form that was decided on covers the distance after the growth. -/
theorem Covers.secures_grown
    (regrows : before.Regrows after front old new pending)
    {place : Nat}
    (goes : before.GoesTo old place)
    (covers : before.Covers reserve old place new.form) :
    after.Secures reserve new := by
  obtain ⟨wellFormed, laterWellFormed, evolves, jumps, isBefore, isAfter, descriptors⟩ := regrows
  intro _ other goesLater
  obtain rfl := goes.unique ((goesTo_iff_of_evolves evolves jumps other).mp goesLater)
  obtain ⟨-, sameSizes⟩ := Jump.forms_of_kind jumps.kind
  have newSize : new.size = old.sizeOf new.form := by
    rw [Jump.size, sameSizes]
  rw [covers_form_iff, Relaxation.reaches_of_kind jumps.kind,
    (laterWellFormed.shortBetween_eq isAfter place).1, descriptors, newSize]
  unfold Covers at covers
  rw [(wellFormed.shortBetween_eq isBefore place).1] at covers
  unfold spanTo at covers ⊢
  rw [jumps.descriptor, Jump.anchor_of_kind jumps.kind]
  exact covers

end Growth

end Layout

/-!
## Passes
-/

namespace Relaxation

variable
  {config : Config}
  {layout : Layout}
  {grown : Nat}

/-- After a pass that succeeds, every jump that is kept long is far. -/
theorem wanted_eq_form_of_runPass
    (wellFormed : layout.WellFormed)
    (located : layout.Located)
    (succeeds : (runPass config layout).result = .ok grown) :
    ∀ jump ∈ (runPass config layout).layout.jumps, jump.wanted = jump.form := by
  refine forall_runPass wellFormed located ?_ succeeds
  intro sweep jump pending underway visited
  have evolves := (underway.regrows config).jump
  obtain ⟨place, -, ⟨-, longEnough, -⟩, -⟩ := underway.visit_decides visited
  unfold Jump.wanted at longEnough ⊢
  rw [evolves.keepLong]
  split
  · rename_i isKept
    rw [if_pos isKept] at longEnough
    exact Jump.rank_injective (Nat.le_antisymm longEnough (Jump.rank_le_far _))
  · rfl

/-- A pass that does not check distances leaves no jump in the near form that was not. -/
theorem form_ne_near_of_unchecked
    (wellFormed : layout.WellFormed)
    (located : layout.Located)
    (notNear : ∀ jump ∈ layout.jumps, jump.form ≠ .near)
    (unchecked : ¬config.smallFunctionBytes < layout.codeSize)
    (succeeds : (runPass config layout).result = .ok grown) :
    ∀ jump ∈ (runPass config layout).layout.jumps, jump.form ≠ .near := by
  refine forall_runPass wellFormed located ?_ succeeds
  intro sweep jump pending underway visited
  obtain ⟨place, -, ⟨-, longEnough, -⟩, least⟩ := underway.visit_decides visited
  have isForm := (underway.wellFormed.holds _ jump
    (sweep.getElem?_toLayout_jumps layout.labels jump pending)).form
  have isWanted :
      (sweep.visit (.of config layout) pending jump).jump.form = jump.wanted := by
    have shortest := least jump.wanted
      ⟨?_, Nat.le_refl _, fun checked => absurd checked unchecked⟩
    · exact Jump.rank_injective (Nat.le_antisymm shortest longEnough)
    · unfold Jump.wanted
      split
      · unfold Jump.forms
        split <;> simp
      · exact isForm
  rw [isWanted]
  unfold Jump.wanted
  split
  · simp
  · exact notNear jump (Array.mem_toList_iff.mp (underway.rest.mem (by simp)))

/-- With enough reserve, a pass that checks distances leaves every jump secure. -/
theorem secures_runPass
    (wellFormed : layout.WellFormed)
    (located : layout.Located)
    (enough : 8 ≤ config.branchGrowthReserve)
    (notNear : ∀ jump ∈ layout.jumps, jump.form ≠ .near)
    (checked : config.smallFunctionBytes < layout.codeSize)
    (succeeds : (runPass config layout).result = .ok grown) :
    ∀ jump ∈ (runPass config layout).layout.jumps,
      (runPass config layout).layout.Secures config.branchGrowthReserve jump := by
  have step (sweep : Sweep) (jump : Jump) (pending : List Jump)
      (underway : sweep.Underway layout (jump :: pending))
      (secures :
        ∀ other ∈ sweep.visited,
          (sweep.toLayout layout.labels (jump :: pending)).Secures config.branchGrowthReserve other)
      (visited : (sweep.visit (.of config layout) pending jump).failure = none) :
      let visit := sweep.visit (.of config layout) pending jump
      ∀ other ∈ (visit.sweep.record visit.jump).visited,
        ((visit.sweep.record visit.jump).toLayout layout.labels pending).Secures
          config.branchGrowthReserve other := by
    intro visit other member
    have regrows := underway.regrows config
    obtain ⟨place, goes, ⟨-, -, covers⟩, -⟩ := underway.visit_decides visited
    rw [underway.visited_visit config, Array.mem_push] at member
    rcases member with earlier | rfl
    · have isShortOrFar :=
        notNear jump (Array.mem_toList_iff.mp (underway.rest.mem (by simp)))
      exact (secures other earlier).of_growth regrows isShortOrFar enough
        (Array.mem_toList_iff.mpr earlier)
    · exact (covers checked).secures_grown regrows goes
  obtain ⟨final, underway, secures, -, after⟩ :=
    runPass_induction wellFormed located
      (motive := fun sweep pending =>
        ∀ other ∈ sweep.visited,
          (sweep.toLayout layout.labels pending).Secures config.branchGrowthReserve other)
      (fun other member => absurd member (Array.not_mem_empty other)) step succeeds
  obtain ⟨-, -, -, further, jumps, descriptors⟩ := underway.complete
  rw [after, jumps]
  intro jump member notFar place goes
  have covers :=
    secures jump member notFar place
      ((Layout.goesTo_iff_of_evolves further (.refl jump) place).mp goes)
  unfold Layout.Covers at covers ⊢
  rw [Sweep.toLayout_nil_jumps] at covers
  rw [descriptors, jumps]
  exact covers

/-- A visit keeps the form of a jump that has the form it wants and is secure. -/
theorem Sweep.Underway.form_visit_eq
    {sweep : Sweep}
    {jump : Jump}
    {pending : List Jump}
    (underway : sweep.Underway layout (jump :: pending))
    (wellFormed : layout.WellFormed)
    (same : sweep.descriptors = layout.descriptors)
    (wanted : jump.wanted = jump.form)
    (secures :
      config.smallFunctionBytes < layout.codeSize →
        layout.Secures config.branchGrowthReserve jump)
    (visited : (sweep.visit (.of config layout) pending jump).failure = none) :
    (sweep.visit (.of config layout) pending jump).jump.form = jump.form := by
  obtain ⟨place, goes, ⟨-, longEnough, -⟩, least⟩ := underway.visit_decides visited
  rw [wanted] at longEnough least
  refine Jump.rank_injective (Nat.le_antisymm ?_ longEnough)
  by_cases isFar : jump.form = .far
  · rw [isFar]
    exact Jump.rank_le_far _
  · have isForm := (underway.wellFormed.holds _ jump
      (sweep.getElem?_toLayout_jumps layout.labels jump pending)).form
    refine least jump.form ⟨isForm, Nat.le_refl _, fun checked => ?_⟩
    obtain ⟨front, isLayout⟩ := underway.rest
    have goesFirst := (Layout.goesTo_iff_of_evolves underway.evolves (.refl jump) place).mp goes
    exact (secures checked isFar place goesFirst).congr wellFormed underway.wellFormed
      isLayout.symm (underway.regrows config).isBefore same

/-- A pass over jumps that have the forms they want lets none of them grow. -/
theorem runPass_quiet
    (wellFormed : layout.WellFormed)
    (located : layout.Located)
    (wanted : ∀ jump ∈ layout.jumps, jump.wanted = jump.form)
    (secures :
      config.smallFunctionBytes < layout.codeSize →
        ∀ jump ∈ layout.jumps, layout.Secures config.branchGrowthReserve jump)
    (succeeds : (runPass config layout).result = .ok grown) :
    grown = 0 := by
  have step (sweep : Sweep) (jump : Jump) (pending : List Jump)
      (underway : sweep.Underway layout (jump :: pending))
      (unchanged : sweep.upgrades = 0 ∧ sweep.descriptors = layout.descriptors)
      (visited : (sweep.visit (.of config layout) pending jump).failure = none) :
      let visit := sweep.visit (.of config layout) pending jump
      (visit.sweep.record visit.jump).upgrades = 0 ∧
        (visit.sweep.record visit.jump).descriptors = layout.descriptors := by
    intro visit
    obtain ⟨noneGrown, same⟩ := unchanged
    have regrows := underway.regrows config
    have member : jump ∈ layout.jumps := Array.mem_toList_iff.mp (underway.rest.mem (by simp))
    have sameForm : visit.jump.form = jump.form :=
      underway.form_visit_eq wellFormed same (wanted jump member)
        (fun checked => secures checked jump member) visited
    have sameSize : visit.jump.size - jump.size = 0 := by
      rw [Jump.size, sameForm, (Jump.forms_of_kind regrows.jump.kind).2, Jump.size,
        Nat.sub_self]
    refine ⟨?_, ?_⟩
    · rw [underway.upgrades_visit config, if_pos sameSize]
      exact noneGrown
    · refine regrows.descriptors.trans ?_
      rw [sameSize, Layout.growAt_zero]
      exact same
  obtain ⟨final, -, ⟨noneGrown, -⟩, isGrown, -⟩ :=
    runPass_induction wellFormed located
      (motive := fun sweep _ => sweep.upgrades = 0 ∧ sweep.descriptors = layout.descriptors)
      ⟨rfl, rfl⟩ step succeeds
  exact isGrown.trans noneGrown

end Relaxation

end Rv64Codegen
