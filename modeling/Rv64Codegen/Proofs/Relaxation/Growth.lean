import Mathlib.Data.List.Forall2
import Rv64Codegen.Proofs.Relaxation.Choice
import Rv64Codegen.Proofs.Relaxation.FixedPoint

namespace Rv64Codegen

/-!
# What a pass adds to a layout

A jump only ever climbs from state to state, and the code grows by the bytes that
its jumps grow by.  Nothing here asks whether offsets are right.  After a
relaxation that has failed they may not be, and the pass that comes next still
keeps these accounts.
-/

/-- The place of a state on the way from unseen to far. -/
def JumpState.level : JumpState → Nat
  | .shortUnbound => 0
  | .shortBound => 1
  | .long .near => 2
  | .long .far => 3

/-- The order of the states is the order of their levels. -/
theorem JumpState.compare_ne_gt_iff
    {first second : JumpState} :
    compare first second ≠ .gt ↔ first.level ≤ second.level := by
  rcases first with _ | _ | (_ | _) <;> rcases second with _ | _ | (_ | _) <;> decide

namespace Jump

/-- A jump whose state has not gone down. -/
def Climbs (before after : Jump) : Prop :=
  compare before.state after.state ≠ .gt

theorem climbs_of_level_le
    {before after : Jump}
    (notLower : before.state.level ≤ after.state.level) :
    before.Climbs after :=
  JumpState.compare_ne_gt_iff.mpr notLower

theorem climbs_of_state_eq
    {before after : Jump}
    (same : after.state = before.state) :
    before.Climbs after :=
  climbs_of_level_le (Nat.le_of_eq (congrArg JumpState.level same.symm))

theorem Climbs.refl (jump : Jump) :
    jump.Climbs jump :=
  climbs_of_state_eq rfl

theorem Climbs.trans
    {first second third : Jump}
    (early : first.Climbs second)
    (late : second.Climbs third) :
    first.Climbs third :=
  climbs_of_level_le
    (Nat.le_trans (JumpState.compare_ne_gt_iff.mp early) (JumpState.compare_ne_gt_iff.mp late))

theorem upgrade_climbs
    (jump : Jump)
    (form : Form) :
    jump.Climbs (jump.upgrade form) := by
  unfold upgrade
  split
  · exact Climbs.refl jump
  · rename_i longer
    apply climbs_of_level_le
    unfold Jump.form at longer
    cases form with
    | short =>
        exact Nat.le_refl _
    | near =>
        rcases isState : jump.state with _ | _ | (_ | _) <;>
          simp [isState, Form.rank, JumpState.level] at longer ⊢
    | far =>
        rcases isState : jump.state with _ | _ | (_ | _) <;> simp [JumpState.level]

theorem state_upgrade_far (jump : Jump) :
    (jump.upgrade .far).state = .long .far := by
  unfold upgrade
  split
  · rename_i notLonger
    unfold form at notLonger
    rcases isState : jump.state with _ | _ | (_ | _) <;> simp [isState, Form.rank] at notLonger ⊢
  · rfl

/-- The number of longer forms that a jump may still move to. -/
def room (jump : Jump) : Nat :=
  (jump.forms.filter fun form => decide (jump.form.rank < form.rank)).length

/-- A conditional branch moves twice at most, and any other jump once. -/
theorem room_le (jump : Jump) :
    jump.room ≤ if jump.isConditional then 2 else 1 := by
  unfold room forms
  cases jump.isConditional <;> cases jump.form <;> decide

/-- Moving to a longer form takes room. -/
theorem room_lt_of_rank_lt
    {before after : Jump}
    (same : after.kind = before.kind)
    (isForm : after.form ∈ after.forms)
    (longer : before.form.rank < after.form.rank) :
    after.room < before.room := by
  rw [(forms_of_kind same).1] at isForm
  unfold room
  rw [(forms_of_kind same).1]
  revert isForm longer
  unfold forms
  cases before.isConditional <;> cases before.form <;> cases after.form <;> decide

theorem room_eq_of_rank_eq
    {before after : Jump}
    (kind : after.kind = before.kind)
    (rank : after.form.rank = before.form.rank) :
    after.room = before.room := by
  unfold room
  rw [(forms_of_kind kind).1, rank]

/-- What a measure gives for jumps, added up. -/
def total (measure : Jump → Nat) : List Jump → Nat
  | [] => 0
  | jump :: rest => measure jump + total measure rest

theorem total_append
    (measure : Jump → Nat)
    (front back : List Jump) :
    total measure (front ++ back) = total measure front + total measure back := by
  induction front with
  | nil =>
      rw [List.nil_append, total, Nat.zero_add]
  | cons jump rest inductionHypothesis =>
      rw [List.cons_append, total, total, inductionHypothesis, Nat.add_assoc]

/-- The bytes by which jumps have grown, one by one, added up. -/
def growthBetween : List Jump → List Jump → Nat
  | old :: olds, new :: news => (new.size - old.size) + growthBetween olds news
  | _, _ => 0

/-- Where no jump shrinks, the growth makes up the difference of the sizes. -/
theorem total_add_growthBetween
    {olds news : List Jump}
    (related : List.Forall₂ (fun old new : Jump => old.size ≤ new.size) olds news) :
    total size olds + growthBetween olds news = total size news := by
  induction related with
  | nil =>
      rfl
  | cons notSmaller _ inductionHypothesis =>
      rw [total, total, growthBetween]
      omega

/-- The room of jumps is bounded by their kinds. -/
theorem total_room_le (jumps : List Jump) :
    total room jumps ≤
      2 * jumps.countP (·.isConditional) + jumps.countP fun jump => !jump.isConditional := by
  induction jumps with
  | nil =>
      exact Nat.zero_le _
  | cons jump rest inductionHypothesis =>
      have atMost := jump.room_le
      rw [total, List.countP_cons, List.countP_cons]
      cases conditional : jump.isConditional <;>
        simp only [conditional, Bool.not_true, Bool.not_false, if_true, if_false,
          Bool.false_eq_true] at atMost ⊢ <;>
        omega

end Jump

namespace Layout

namespace Pointwise

variable
  {related : α → α → Prop}

/-- One entry is replaced by a related one. -/
theorem replace
    (reflexive : ∀ entry, related entry entry)
    {entries : Array α}
    {index : Nat}
    {old new : α}
    (found : entries[index]? = some old)
    (isRelated : related old new) :
    Pointwise related entries (entries.setIfInBounds index new) := by
  obtain ⟨inside, -⟩ := Array.getElem?_eq_some_iff.mp found
  refine ⟨Array.size_setIfInBounds, ?_⟩
  intro other entry foundEntry
  rw [Array.getElem?_setIfInBounds]
  by_cases here : index = other
  · subst here
    rw [found] at foundEntry
    cases foundEntry
    exact ⟨new, by rw [if_pos rfl, if_pos inside], isRelated⟩
  · exact ⟨entry, by rw [if_neg here]; exact foundEntry, reflexive entry⟩

theorem forall₂
    {before after : Array α}
    (pointwise : Pointwise related before after) :
    List.Forall₂ related before.toList after.toList := by
  rw [List.forall₂_iff_get]
  refine ⟨by simpa using pointwise.size.symm, ?_⟩
  intro index inside insideAfter
  obtain ⟨new, foundNew, isRelated⟩ :=
    pointwise.forward index before[index] (Array.getElem?_eq_getElem (by simpa using inside))
  obtain ⟨insideNew, rfl⟩ := Array.getElem?_eq_some_iff.mp foundNew
  exact isRelated

end Pointwise

/-- The bytes by which the jumps of a layout have grown. -/
theorem Evolves.forall₂_size
    {before after : Layout}
    (evolves : before.Evolves after)
    (wellFormed : before.WellFormed) :
    List.Forall₂ (fun old new : Jump => old.size ≤ new.size)
      before.jumps.toList after.jumps.toList := by
  refine Pointwise.forall₂ ⟨evolves.jumps.size, ?_⟩
  intro id old found
  obtain ⟨new, foundNew, evolved⟩ := evolves.jumps.forward id old found
  exact ⟨new, foundNew, Jump.size_le_of_evolves evolved (wellFormed.holds id old found).form⟩

end Layout

namespace Relaxation

open Jump (total)

namespace Sweep

/-- Binding a jump that relaxation has not seen takes it one state up. -/
theorem bind_climbs
    {labels : Array (Option GroupId)}
    {own : Group}
    {jump bound : Jump}
    {target : Resolved}
    (fresh : jump.resolved = none → jump.state = .shortUnbound)
    (binds : bind labels own jump = .ok (target, bound)) :
    jump.Climbs bound := by
  unfold bind at binds
  split at binds
  · cases binds
    exact Jump.Climbs.refl jump
  · rename_i unknown
    split at binds
    · cases binds
    · cases binds
      apply Jump.climbs_of_level_le
      rw [fresh unknown]
      exact Nat.zero_le _

/-- Every visit, also one that fails, leaves its jump in a state that is not lower. -/
theorem visit_climbs
    {sweep : Sweep}
    {setting : Setting}
    {pending : List Jump}
    {jump : Jump}
    (wellFormed : (sweep.toLayout setting.labels (jump :: pending)).WellFormed) :
    jump.Climbs (sweep.visit setting pending jump).jump := by
  have holds :=
    (wellFormed_enter wellFormed jump.group).holds _ jump
      ((sweep.enter jump.group).getElem?_toLayout_jumps setting.labels jump pending)
  have moved : jump.Climbs (sweep.moved jump) := Jump.climbs_of_state_eq rfl
  obtain ⟨own, found, -, -⟩ := holds.owned
  rcases visit_cases setting pending found with
    ⟨cause, -, visited⟩ | ⟨target, bound, binds, ⟨failure, -, visited⟩ | ⟨form, -, visited⟩⟩
  · rw [visited]
    exact moved
  · rw [visited]
    exact moved.trans (bind_climbs holds.fresh binds)
  · rw [visited]
    exact (moved.trans (bind_climbs holds.fresh binds)).trans (bound.upgrade_climbs form)

theorem wanted_le_of_decideForm
    {sweep : Sweep}
    {setting : Setting}
    {pending : List Jump}
    {own : Group}
    {jump : Jump}
    {target : Resolved}
    {form : Form}
    (decides : sweep.decideForm setting pending own jump target = .ok form) :
    jump.wanted.rank ≤ form.rank := by
  unfold decideForm at decides
  dsimp only at decides
  split at decides
  · split at decides
    · cases decides
    · rw [Failure.ofRefusal_eq_ok_iff, chooseForm] at decides
      split at decides
      · rename_i chosen isChosen
        cases decides
        exact of_decide_eq_true (List.mem_filter.mp (List.mem_of_find?_eq_some isChosen)).2
      · cases decides
  · cases decides
    exact Nat.le_refl _

/-- A visit that succeeds takes a jump that is kept long to the far form. -/
theorem visit_keepLong
    {sweep : Sweep}
    {setting : Setting}
    {pending : List Jump}
    {jump : Jump}
    (wellFormed : (sweep.toLayout setting.labels (jump :: pending)).WellFormed)
    (succeeds : (sweep.visit setting pending jump).failure = none)
    (isKept : (sweep.visit setting pending jump).jump.keepLong = true) :
    (sweep.visit setting pending jump).jump.state = .long .far := by
  have holds :=
    (wellFormed_enter wellFormed jump.group).holds _ jump
      ((sweep.enter jump.group).getElem?_toLayout_jumps setting.labels jump pending)
  obtain ⟨own, found, -, -⟩ := holds.owned
  obtain ⟨target, bound, form, -, decides, visited⟩ := visit_of_succeeds found succeeds
  rw [visited] at isKept ⊢
  have boundKept : bound.keepLong = true :=
    (bound.upgrade_evolves form).keepLong.symm.trans isKept
  have longEnough := wanted_le_of_decideForm decides
  rw [Jump.wanted, boundKept, if_pos rfl] at longEnough
  have isFar : form = .far := by
    cases form with
    | short =>
        exact absurd longEnough (by decide)
    | near =>
        exact absurd longEnough (by decide)
    | far =>
        rfl
  rw [isFar]
  exact bound.state_upgrade_far

/--
The last group ends where the code ended before the pass.  It takes over the growth
when the pass enters it.
-/
def EndsFrom (sweep : Sweep) (codeSize : Nat) : Prop :=
  ∀ final : Group,
    sweep.groups[sweep.groups.size - 1]? = some final →
      final.stop = codeSize + if sweep.nextGroup < sweep.groups.size then 0 else sweep.growth

theorem endsFrom_begin (layout : Layout) :
    (begin layout).EndsFrom layout.codeSize := by
  intro final found
  rw [Layout.codeSize_of_back found]
  split <;> rfl

theorem EndsFrom.enter
    {sweep : Sweep}
    {codeSize : Nat}
    (ends : sweep.EndsFrom codeSize)
    {group : GroupId}
    (ahead : sweep.nextGroup ≤ group.index + 1)
    (inside : group.index < sweep.groups.size) :
    (sweep.enter group).EndsFrom codeSize := by
  intro final found
  rw [size_enter_groups, getElem?_enter_groups] at found
  obtain ⟨old, foundOld, rfl⟩ := Option.map_eq_some_iff.mp found
  have before := ends old foundOld
  rw [size_enter_groups, enter_nextGroup, enter_growth]
  by_cases isLast : group.index + 1 < sweep.groups.size
  · rw [if_pos (by omega)] at before
    rw [if_pos isLast, if_neg (by omega)]
    exact before
  · rw [if_neg isLast]
    by_cases reached : sweep.nextGroup < sweep.groups.size
    · rw [if_pos reached] at before
      rw [if_pos (by omega)]
      show old.offset + sweep.growth + old.size = _
      rw [Nat.add_right_comm]
      exact congrArg (· + sweep.growth) before
    · rw [if_neg reached] at before
      rw [if_neg (by omega)]
      exact before

theorem EndsFrom.grow
    {sweep : Sweep}
    {codeSize : Nat}
    (ends : sweep.EndsFrom codeSize)
    (before : Jump)
    (isCurrent : sweep.nextGroup = before.group.index + 1)
    (inside : before.group.index < sweep.groups.size)
    (after : Jump) :
    (sweep.grow before after).EndsFrom codeSize := by
  have size : (sweep.grow before after).groups.size = sweep.groups.size := by
    rw [grow_groups, Array.size_modify]
  intro final found
  rw [size, grow_groups, Array.getElem?_modify] at found
  rw [size, grow_nextGroup, grow_growth]
  by_cases isLast : before.group.index = sweep.groups.size - 1
  · rw [if_pos isLast] at found
    obtain ⟨old, foundOld, rfl⟩ := Option.map_eq_some_iff.mp found
    have known := ends old foundOld
    rw [if_neg (by omega)] at known ⊢
    show old.offset + (old.size + _) = _
    rw [← Nat.add_assoc, ← Nat.add_assoc]
    exact congrArg (· + _) known
  · rw [if_neg isLast] at found
    have known := ends final found
    rw [if_pos (by omega)] at known ⊢
    exact known

/-- A pass that is complete has added its growth to the code. -/
theorem EndsFrom.complete
    {sweep : Sweep}
    {codeSize : Nat}
    (ends : sweep.EndsFrom codeSize)
    (nonempty : 0 < sweep.groups.size)
    (labels : Array (Option GroupId)) :
    (sweep.complete.toLayout labels []).codeSize = codeSize + sweep.growth := by
  have size : sweep.complete.groups.size = sweep.groups.size := size_shiftGroups ..
  have foundOld :
      sweep.groups[sweep.groups.size - 1]? = some sweep.groups[sweep.groups.size - 1] :=
    Array.getElem?_eq_getElem (by omega)
  have known := ends _ foundOld
  have found :
      (sweep.complete.toLayout labels []).groups[
        (sweep.complete.toLayout labels []).groups.size - 1]? = _ :=
    (congrArg (fun last => sweep.complete.groups[last - 1]?) size).trans
      ((sweep.getElem?_complete_groups _).trans (congrArg (Option.map _) foundOld))
  rw [Layout.codeSize_of_back found]
  dsimp only
  by_cases reached : sweep.nextGroup < sweep.groups.size
  · rw [if_pos reached] at known
    rw [if_pos (by omega)]
    show _ + sweep.growth + _ = _
    rw [Nat.add_right_comm]
    exact congrArg (· + sweep.growth) known
  · rw [if_neg reached] at known
    rw [if_neg (by omega)]
    exact known

/-- The accounts of a pass. -/
structure Ledger
    (layout : Layout)
    (sweep : Sweep)
    (pending : List Jump) :
    Prop where
  wellFormed : (sweep.toLayout layout.labels pending).WellFormed
  climbs :
    Layout.Pointwise Jump.Climbs layout.jumps (sweep.toLayout layout.labels pending).jumps
  sizes :
    total Jump.size (sweep.visited.toList ++ pending) =
      total Jump.size layout.jumps.toList + sweep.growth
  rooms :
    total Jump.room (sweep.visited.toList ++ pending) + sweep.upgrades ≤
      total Jump.room layout.jumps.toList
  ahead :
    ∀ jump ∈ pending, sweep.nextGroup ≤ jump.group.index + 1
  ends : sweep.EndsFrom layout.codeSize

theorem ledger_begin
    {layout : Layout}
    (wellFormed : layout.WellFormed) :
    (begin layout).Ledger layout layout.jumps.toList where
  wellFormed := by
    rw [toLayout_begin]
    exact wellFormed
  climbs := by
    rw [toLayout_begin]
    exact Layout.Pointwise.refl Jump.Climbs.refl _
  sizes := rfl
  rooms := Nat.le_refl _
  ahead := fun _ _ => Nat.zero_le _
  ends := endsFrom_begin layout

/-- A visit enters its growth into the accounts, whether it succeeds or fails. -/
theorem Ledger.visit
    (config : Config)
    {layout : Layout}
    {sweep : Sweep}
    {jump : Jump}
    {pending : List Jump}
    (ledger : sweep.Ledger layout (jump :: pending)) :
    let visit := sweep.visit (.of config layout) pending jump
    (visit.sweep.record visit.jump).Ledger layout pending := by
  intro visit
  have wellFormed : (sweep.toLayout layout.labels (jump :: pending)).WellFormed :=
    ledger.wellFormed
  have isNext := sweep.getElem?_toLayout_jumps layout.labels jump pending
  have holds := wellFormed.holds _ jump isNext
  have advances : sweep.Advances _ jump visit := visit_advances wellFormed
  have climbs : jump.Climbs visit.jump := visit_climbs wellFormed
  have passes := advances.passes
  have visited : (visit.sweep.record visit.jump).visited = sweep.visited.push visit.jump := by
    rw [passes.visited, enter_visited]
  have growth :
      (visit.sweep.record visit.jump).growth =
        sweep.growth + (visit.jump.size - jump.size) := by
    rw [passes.growth, enter_growth]
  have notSmaller := Jump.size_le_of_evolves advances.evolves holds.form
  have sizes := ledger.sizes
  have rooms := ledger.rooms
  rw [Jump.total_append, total] at sizes rooms
  obtain ⟨bound, group, -, sameSize, isSweep⟩ := advances.sweep
  refine ⟨(wellFormed_visit (.of config layout) wellFormed).1, ?_, ?_, ?_, ?_, ?_⟩
  · rw [advances.toLayout_record]
    refine Layout.Pointwise.trans (fun _ _ _ early => early.trans) ledger.climbs ?_
    show Layout.Pointwise _ _
      (((sweep.enter jump.group).visited ++ (jump :: pending)).setIfInBounds _ _)
    rw [enter_visited]
    exact Layout.Pointwise.replace Jump.Climbs.refl isNext climbs
  · rw [visited, growth, Array.toList_push, List.append_assoc, Jump.total_append,
      List.singleton_append, total]
    omega
  · have upgrades :
        (visit.sweep.record visit.jump).upgrades =
          if visit.jump.size - jump.size = 0 then sweep.upgrades else sweep.upgrades + 1 := by
      show visit.sweep.upgrades = _
      rw [isSweep, grow_upgrades, sameSize, enter_upgrades]
    rw [visited, upgrades, Array.toList_push, List.append_assoc, Jump.total_append,
      List.singleton_append, total]
    -- An upgrade takes room from its jump; without one, the jump keeps its size.
    rcases Nat.lt_or_eq_of_le advances.evolves.rank with longer | same
    · have less := Jump.room_lt_of_rank_lt advances.evolves.kind advances.form longer
      split <;> omega
    · have sameRoom := Jump.room_eq_of_rank_eq advances.evolves.kind same.symm
      have unchanged : visit.jump.size = jump.size := by
        rw [Jump.size, Jump.size, (Jump.forms_of_kind advances.evolves.kind).2,
          Jump.rank_injective same]
      rw [if_pos (by omega)]
      omega
  · intro other member
    rw [passes.nextGroup, enter_nextGroup]
    exact Nat.succ_le_succ (group_le_of_pending wellFormed (List.mem_cons_of_mem _ member))
  · obtain ⟨own, foundOwn, -, -⟩ := holds.owned
    obtain ⟨inside, -⟩ := Array.getElem?_eq_some_iff.mp foundOwn
    have entered :=
      ledger.ends.enter (ledger.ahead jump (List.mem_cons_self ..)) inside
    have grown :=
      entered.grow bound (by rw [enter_nextGroup, group])
        (by rw [size_enter_groups, group]; exact inside) visit.jump
    rw [← isSweep] at grown
    exact grown

end Sweep

/-- Every pass, also one that fails, lets jumps climb only. -/
theorem climbs_runPass
    (config : Config)
    {layout : Layout}
    (wellFormed : layout.WellFormed) :
    Layout.Pointwise Jump.Climbs layout.jumps (runPass config layout).layout.jumps := by
  rcases Sweep.walk_induction (.of config layout)
      (fun sweep jump pending ledger _ => Sweep.Ledger.visit config ledger)
      (Sweep.ledger_begin wellFormed) with
    ⟨final, ledger, walked⟩ | ⟨failure, before, jump, pending, ledger, -, walked⟩
  · rw [(runPass_of_completed walked).2]
    exact ledger.climbs
  · rw [(runPass_of_stopped walked).2]
    exact (ledger.visit config).climbs

/--
A pass that succeeds adds to the code what its jumps have grown by, takes room for
every jump that it reports, and takes all jumps that are kept long to the far form.
-/
theorem accounts_of_runPass
    {config : Config}
    {layout : Layout}
    {grown : Nat}
    (wellFormed : layout.WellFormed)
    (succeeds : (runPass config layout).result = .ok grown) :
    let after := (runPass config layout).layout
    after.codeSize + total Jump.size layout.jumps.toList =
        layout.codeSize + total Jump.size after.jumps.toList ∧
      total Jump.room after.jumps.toList + grown ≤ total Jump.room layout.jumps.toList ∧
        ∀ jump ∈ after.jumps, jump.keepLong = true → jump.state = .long .far := by
  intro after
  rcases Sweep.walk_induction (.of config layout)
      (motive := fun sweep pending =>
        sweep.Ledger layout pending ∧
          ∀ jump ∈ sweep.visited, jump.keepLong = true → jump.state = .long .far)
      (by
        rintro sweep jump pending ⟨ledger, far⟩ visits
        refine ⟨ledger.visit config, ?_⟩
        have advances :
            sweep.Advances _ jump (sweep.visit (.of config layout) pending jump) :=
          Sweep.visit_advances ledger.wellFormed
        intro other member isKept
        rw [advances.passes.visited, Sweep.enter_visited, Array.mem_push] at member
        rcases member with earlier | rfl
        · exact far other earlier isKept
        · exact Sweep.visit_keepLong ledger.wellFormed visits isKept)
      ⟨Sweep.ledger_begin wellFormed, fun jump member => absurd member (Array.not_mem_empty jump)⟩
      with
    ⟨final, ⟨ledger, far⟩, walked⟩ | ⟨failure, _, _, _, _, _, walked⟩
  · obtain ⟨-, isAfter⟩ := runPass_of_completed walked
    obtain rfl := upgrades_of_completed walked succeeds
    have jumps : after.jumps = final.visited := by
      rw [show after = _ from isAfter, Sweep.toLayout_nil_jumps]
      rfl
    have codeSize : after.codeSize = layout.codeSize + final.growth := by
      rw [show after = _ from isAfter]
      exact ledger.ends.complete ledger.wellFormed.partitioned.nonempty _
    have sizes := ledger.sizes
    have rooms := ledger.rooms
    rw [List.append_nil] at sizes rooms
    rw [jumps]
    exact ⟨by omega, rooms, far⟩
  · exact absurd succeeds (ne_ok_of_stopped walked _)

end Relaxation

namespace Layout

open Relaxation (runPass)

/-- Relaxation lets jumps climb only, whether it succeeds or fails. -/
theorem climbs_relaxWithin
    (config : Config)
    (budget passes upgrades : Nat)
    (notices : Array Notice)
    (remaining : Nat)
    {layout : Layout}
    (wellFormed : layout.WellFormed) :
    Pointwise Jump.Climbs layout.jumps
      (relaxWithin config budget passes upgrades notices remaining layout).layout.jumps := by
  refine (Relaxation.relaxWithin_induction
    (motive := fun later =>
      later.WellFormed ∧ Pointwise Jump.Climbs layout.jumps later.jumps)
    ?_ budget passes upgrades notices remaining
    ⟨wellFormed, Pointwise.refl Jump.Climbs.refl _⟩).2
  rintro later ⟨kept, climbs⟩
  refine ⟨(Relaxation.wellFormed_runPass config kept).1, ?_⟩
  exact Pointwise.trans (fun _ _ _ early => early.trans) climbs
    (Relaxation.climbs_runPass config kept)

/-- At the fixed point the code has grown by the growth of its jumps. -/
theorem Settles.codeSize_eq
    {config : Config}
    {layout settled : Layout}
    (settles : Settles config layout settled)
    (wellFormed : layout.WellFormed) :
    settled.codeSize =
      layout.codeSize + Jump.growthBetween layout.jumps.toList settled.jumps.toList := by
  have sizes :
      settled.codeSize + Jump.total Jump.size layout.jumps.toList =
        layout.codeSize + Jump.total Jump.size settled.jumps.toList := by
    induction settles with
    | quiet pass =>
        exact (Relaxation.accounts_of_runPass wellFormed pass).1
    | grown pass _ _ inductionHypothesis =>
        have first := (Relaxation.accounts_of_runPass wellFormed pass).1
        have rest := inductionHypothesis (Relaxation.wellFormed_runPass config wellFormed).1
        omega
  have growth :=
    Jump.total_add_growthBetween ((settles.evolves wellFormed).2.forall₂_size wellFormed)
  omega

/-- At the fixed point every jump that is kept long is far. -/
theorem Settles.keepLong_far
    {config : Config}
    {layout settled : Layout}
    (settles : Settles config layout settled)
    (wellFormed : layout.WellFormed) :
    ∀ jump ∈ settled.jumps, jump.keepLong = true → jump.state = .long .far := by
  induction settles with
  | quiet pass =>
      exact (Relaxation.accounts_of_runPass wellFormed pass).2.2
  | grown _ _ _ inductionHypothesis =>
      exact inductionHypothesis (Relaxation.wellFormed_runPass config wellFormed).1

end Layout

end Rv64Codegen
