import Rv64Codegen.Proofs.Program.Agreement
import Rv64Codegen.Proofs.Relaxation.Growth
import Rv64Codegen.Proofs.Relaxation.Margin

namespace Rv64Codegen

/-!
# Relaxation does not see groups

What a visit decides depends on the descriptors, on the jumps and on where labels
stand among the descriptors.  Two layouts that agree are therefore relaxed in the
same way: each visit chooses the same form, each pass reports the same growth, and
what relaxation leaves agrees again.
-/

theorem Jump.Agrees.size_eq
    {left right : Jump}
    (jumps : left.Agrees right) :
    right.size = left.size := by
  rw [Jump.size, Jump.size, (Jump.forms_of_kind jumps.kind).2, jumps.form]

namespace Layout

variable
  {first second : Layout}

/-- The place that a jump asks for, said without groups. -/
def Asks
    (layout : Layout)
    (jump : Jump)
    (place : Nat) :
    Prop :=
  match jump.target with
  | .label label =>
      layout.labelPlace? label = some place
  | .relative count =>
      (place : Int) = jump.descriptor + 1 + count

/-- A jump goes to the place it asks for. -/
theorem WellFormed.asks_of_goesTo
    {layout : Layout}
    (wellFormed : layout.WellFormed)
    {id : Nat}
    {jump : Jump}
    (found : layout.jumps[id]? = some jump)
    {place : Nat}
    (goes : layout.GoesTo jump place) :
    layout.Asks jump place := by
  obtain ⟨resolved, resolves, aims⟩ := goes
  cases resolved with
  | group target =>
      obtain ⟨label, asked, isBound⟩ := resolves
      obtain ⟨group, foundGroup, rfl⟩ := aims
      rw [Asks, asked]
      exact labelPlace?_eq_some_iff.mpr ⟨target, group, isBound, foundGroup, rfl⟩
  | inGroup position =>
      obtain ⟨count, own, asked, foundOwn, isPosition, -⟩ := resolves
      obtain ⟨again, foundAgain, rfl⟩ := aims
      obtain ⟨same, foundSame, lower, -⟩ := (wellFormed.holds id jump found).owned
      rw [foundOwn] at foundAgain foundSame
      cases foundAgain
      cases foundSame
      rw [Asks, asked]
      dsimp only
      omega

/-- In layouts that agree, a jump asks for one place at most. -/
theorem Agrees.asks_unique
    (agrees : first.Agrees second)
    {left right : Jump}
    (jumps : left.Agrees right)
    {leftPlace rightPlace : Nat}
    (leftAsks : first.Asks left leftPlace)
    (rightAsks : second.Asks right rightPlace) :
    rightPlace = leftPlace := by
  unfold Asks at leftAsks rightAsks
  rw [jumps.target, jumps.descriptor] at rightAsks
  cases target : left.target with
  | label label =>
      rw [target] at leftAsks rightAsks
      dsimp only at leftAsks rightAsks
      rw [agrees.places, leftAsks] at rightAsks
      exact (Option.some.inj rightAsks).symm
  | relative count =>
      rw [target] at leftAsks rightAsks
      dsimp only at leftAsks rightAsks
      omega

/-- What holds of jumps that agree together holds of equally many. -/
theorem countP_congr
    {holds : Jump → Bool}
    (together : ∀ old new : Jump, old.Agrees new → holds new = holds old)
    {olds news : List Jump}
    (related : List.Forall₂ Jump.Agrees olds news) :
    news.countP holds = olds.countP holds := by
  induction related with
  | nil =>
      rfl
  | cons here _ inductionHypothesis =>
      rw [List.countP_cons, List.countP_cons, inductionHypothesis, together _ _ here]

theorem Agrees.shortBetween_eq
    (agrees : first.Agrees second)
    (start stop : Nat) :
    shortBetween second.jumps.toList start stop =
      shortBetween first.jumps.toList start stop := by
  refine countP_congr ?_ agrees.jumps.forall₂
  intro old new same
  have sameLong : new.isLong = old.isLong := by
    rw [Bool.eq_iff_iff, ← not_iff_not, Bool.not_eq_true, Bool.not_eq_true,
      Jump.isLong_eq_false_iff, Jump.isLong_eq_false_iff, same.form]
  rw [same.descriptor, sameLong]

/-- A form covers the same distances in layouts that agree. -/
theorem Agrees.covers_iff
    (agrees : first.Agrees second)
    {left right : Jump}
    (jumps : left.Agrees right)
    (reserve place : Nat)
    (form : Form) :
    second.Covers reserve right place form ↔ first.Covers reserve left place form := by
  have sameSpan (descriptors : Array Descriptor) :
      spanTo descriptors right place form = spanTo descriptors left place form := by
    rw [spanTo, spanTo, jumps.descriptor, Jump.anchor_of_kind jumps.kind]
  rw [Covers, Covers, Relaxation.reaches_of_kind jumps.kind, sameSpan, agrees.shortBetween_eq,
    agrees.descriptors, jumps.descriptor, jumps.size_eq, (Jump.forms_of_kind jumps.kind).2]

/-- A layout that has evolved has its labels where they were. -/
theorem Evolves.labelPlace?_eq
    {before after : Layout}
    (evolves : before.Evolves after)
    (wellFormed : before.WellFormed)
    (label : LabelId) :
    after.labelPlace? label = before.labelPlace? label := by
  refine wellFormed.labelPlace?_congr ?_ ?_
  · rw [labelGroup?, evolves.labels]
    rfl
  · intro index group found
    obtain ⟨later, foundLater, sameFirst, -⟩ := evolves.groups.forward index group found
    exact ⟨later, foundLater, sameFirst⟩

/-- Layouts that agree go on to agree when their descriptors and jumps do. -/
theorem Agrees.of_evolves
    (agrees : first.Agrees second)
    (firstWellFormed : first.WellFormed)
    (secondWellFormed : second.WellFormed)
    {firstLater secondLater : Layout}
    (firstEvolves : first.Evolves firstLater)
    (secondEvolves : second.Evolves secondLater)
    (descriptors : secondLater.descriptors = firstLater.descriptors)
    (jumps : Pointwise Jump.Agrees firstLater.jumps secondLater.jumps) :
    firstLater.Agrees secondLater where
  descriptors := descriptors
  jumps := jumps
  labels := by
    rw [secondEvolves.labels, firstEvolves.labels]
    exact agrees.labels
  places := by
    intro label
    rw [secondEvolves.labelPlace?_eq secondWellFormed, firstEvolves.labelPlace?_eq firstWellFormed]
    exact agrees.places label

/-- Entries at the same place are replaced by related ones. -/
theorem Pointwise.set_both
    {related : α → α → Prop}
    {before after : Array α}
    (pointwise : Pointwise related before after)
    (index : Nat)
    {old new : α}
    (isRelated : related old new) :
    Pointwise related (before.setIfInBounds index old) (after.setIfInBounds index new) := by
  refine ⟨by rw [Array.size_setIfInBounds, Array.size_setIfInBounds, pointwise.size], ?_⟩
  intro other entry found
  rw [Array.getElem?_setIfInBounds] at found ⊢
  rw [pointwise.size]
  split at found
  · rename_i here
    split at found
    · rename_i inside
      cases found
      exact ⟨new, by rw [if_pos here, if_pos inside], isRelated⟩
    · cases found
  · rename_i elsewhere
    rw [if_neg elsewhere]
    exact pointwise.forward other entry found

end Layout

namespace Relaxation

variable
  {config : Config}
  {first second : Layout}

namespace Sweep

/-- Two passes that have got equally far over layouts that agree. -/
structure Agree
    (first second : Layout)
    (left right : Sweep)
    (leftPending rightPending : List Jump) :
    Prop where
  leftUnderway : left.Underway first leftPending
  rightUnderway : right.Underway second rightPending
  visited : right.visited.size = left.visited.size
  upgrades : right.upgrades = left.upgrades
  layouts :
    (left.toLayout first.labels leftPending).Agrees
      (right.toLayout second.labels rightPending)

variable
  {left right : Sweep}
  {leftJump rightJump : Jump}
  {leftPending rightPending : List Jump}

/-- The jumps that come next agree. -/
theorem Agree.next
    (agree : Agree first second left right (leftJump :: leftPending)
      (rightJump :: rightPending)) :
    leftJump.Agrees rightJump := by
  have leftNext := left.getElem?_toLayout_jumps first.labels leftJump leftPending
  have rightNext := right.getElem?_toLayout_jumps second.labels rightJump rightPending
  rw [agree.visited] at rightNext
  obtain ⟨other, foundOther, agrees⟩ := agree.layouts.jumps.forward _ _ leftNext
  rw [rightNext] at foundOther
  cases foundOther
  exact agrees

/-- There are equally many jumps to come. -/
theorem Agree.length_eq
    (agree : Agree first second left right leftPending rightPending) :
    rightPending.length = leftPending.length := by
  have sizes : (right.visited ++ rightPending).size = (left.visited ++ leftPending).size :=
    agree.layouts.jumps.size
  rw [← Array.length_toList, ← Array.length_toList, Array.toList_appendList,
    Array.toList_appendList, List.length_append, List.length_append, Array.length_toList,
    Array.length_toList, agree.visited] at sizes
  exact Nat.add_left_cancel sizes

/-- Two visits that succeed choose the same form. -/
theorem Agree.form_eq
    (agree : Agree first second left right (leftJump :: leftPending)
      (rightJump :: rightPending))
    (codeSize : second.codeSize = first.codeSize)
    (leftSucceeds : (left.visit (.of config first) leftPending leftJump).failure = none)
    (rightSucceeds : (right.visit (.of config second) rightPending rightJump).failure = none) :
    (right.visit (.of config second) rightPending rightJump).jump.form =
      (left.visit (.of config first) leftPending leftJump).jump.form := by
  obtain ⟨leftPlace, leftGoes, ⟨leftForm, leftWanted, leftCovers⟩, leftLeast⟩ :=
    agree.leftUnderway.visit_decides leftSucceeds
  obtain ⟨rightPlace, rightGoes, ⟨rightForm, rightWanted, rightCovers⟩, rightLeast⟩ :=
    agree.rightUnderway.visit_decides rightSucceeds
  have jumps := agree.next
  have samePlace : rightPlace = leftPlace :=
    agree.layouts.asks_unique jumps
      (agree.leftUnderway.wellFormed.asks_of_goesTo (left.getElem?_toLayout_jumps ..) leftGoes)
      (agree.rightUnderway.wellFormed.asks_of_goesTo (right.getElem?_toLayout_jumps ..) rightGoes)
  have sameWanted : rightJump.wanted = leftJump.wanted := by
    rw [Jump.wanted, Jump.wanted, jumps.keepLong, jumps.form]
  have sameForms := (Jump.forms_of_kind jumps.kind).1
  rw [samePlace] at rightCovers rightLeast
  simp only [sameWanted, sameForms, codeSize, agree.layouts.covers_iff jumps] at rightLeast
  rw [sameForms] at rightForm
  rw [sameWanted] at rightWanted
  simp only [codeSize, agree.layouts.covers_iff jumps] at rightCovers
  -- Each of the two forms suits the other layout as well, and both are least.
  exact Jump.rank_injective (Nat.le_antisymm
    (rightLeast _ ⟨leftForm, leftWanted, leftCovers⟩)
    (leftLeast _ ⟨rightForm, rightWanted, rightCovers⟩))

/-- Two visits that succeed keep two passes in agreement. -/
theorem Agree.visit
    (agree : Agree first second left right (leftJump :: leftPending)
      (rightJump :: rightPending))
    (agrees : first.Agrees second)
    (firstWellFormed : first.WellFormed)
    (secondWellFormed : second.WellFormed)
    (codeSize : second.codeSize = first.codeSize)
    (leftSucceeds : (left.visit (.of config first) leftPending leftJump).failure = none)
    (rightSucceeds : (right.visit (.of config second) rightPending rightJump).failure = none) :
    let leftVisit := left.visit (.of config first) leftPending leftJump
    let rightVisit := right.visit (.of config second) rightPending rightJump
    Agree first second (leftVisit.sweep.record leftVisit.jump)
      (rightVisit.sweep.record rightVisit.jump) leftPending rightPending := by
  intro leftVisit rightVisit
  have jumps := agree.next
  have leftRegrows := agree.leftUnderway.regrows config
  have rightRegrows := agree.rightUnderway.regrows config
  have grown : leftVisit.jump.Agrees rightVisit.jump := by
    have form := agree.form_eq codeSize leftSucceeds rightSucceeds
    refine ⟨?_, ?_, ?_, form, ?_⟩
    · rw [rightRegrows.jump.kind, leftRegrows.jump.kind, jumps.kind]
    · rw [rightRegrows.jump.target, leftRegrows.jump.target, jumps.target]
    · rw [rightRegrows.jump.keepLong, leftRegrows.jump.keepLong, jumps.keepLong]
    · rw [rightRegrows.jump.descriptor, leftRegrows.jump.descriptor, jumps.descriptor]
  have leftUnderway := agree.leftUnderway.visit config
  have rightUnderway := agree.rightUnderway.visit config
  refine ⟨leftUnderway, rightUnderway, ?_, ?_, ?_⟩
  · rw [agree.rightUnderway.visited_visit config, agree.leftUnderway.visited_visit config,
      Array.size_push, Array.size_push, agree.visited]
  · rw [agree.rightUnderway.upgrades_visit config, agree.leftUnderway.upgrades_visit config,
      grown.size_eq, jumps.size_eq, agree.upgrades]
  · refine agrees.of_evolves firstWellFormed secondWellFormed leftUnderway.evolves
      rightUnderway.evolves ?_ ?_
    · rw [rightRegrows.descriptors, leftRegrows.descriptors, agree.layouts.descriptors,
        jumps.descriptor, grown.size_eq, jumps.size_eq]
    · rw [agree.rightUnderway.jumps_visit config, agree.leftUnderway.jumps_visit config,
        agree.visited]
      exact agree.layouts.jumps.set_both _ grown

/-- Two walks that succeed keep two passes in agreement. -/
theorem Agree.walk
    (agree : Agree first second left right leftPending rightPending)
    (agrees : first.Agrees second)
    (firstWellFormed : first.WellFormed)
    (secondWellFormed : second.WellFormed)
    (codeSize : second.codeSize = first.codeSize)
    {leftFinal rightFinal : Sweep}
    (leftWalks : walk (.of config first) leftPending left = (none, leftFinal))
    (rightWalks : walk (.of config second) rightPending right = (none, rightFinal)) :
    ∃ leftEnd rightEnd,
      leftFinal = leftEnd.complete ∧ rightFinal = rightEnd.complete ∧
        Agree first second leftEnd rightEnd [] [] := by
  -- As many jumps are ahead on the right as on the left, so one induction does for both.
  induction leftPending generalizing left right rightPending with
  | nil =>
      obtain rfl := List.length_eq_zero_iff.mp agree.length_eq
      cases leftWalks
      cases rightWalks
      exact ⟨left, right, rfl, rfl, agree⟩
  | cons leftJump leftPending inductionHypothesis =>
      obtain ⟨rightJump, rightPending, rfl⟩ :=
        List.exists_cons_of_length_eq_add_one agree.length_eq
      rw [Sweep.walk] at leftWalks rightWalks
      split at leftWalks
      · rename_i leftSucceeds
        split at rightWalks
        · rename_i rightSucceeds
          exact inductionHypothesis
            (agree.visit agrees firstWellFormed secondWellFormed codeSize leftSucceeds
              rightSucceeds)
            leftWalks rightWalks
        · cases rightWalks
      · cases leftWalks

end Sweep

/-- A pass that succeeds has walked to the end. -/
theorem exists_walk_of_runPass
    {layout : Layout}
    {grown : Nat}
    (succeeds : (runPass config layout).result = .ok grown) :
    ∃ final,
      Sweep.walk (.of config layout) layout.jumps.toList (.begin layout) = (none, final) := by
  have answered := (Layout.ifFits_eq_ok_iff.mp succeeds).2
  rcases walked : Sweep.walk (.of config layout) layout.jumps.toList (.begin layout) with
    ⟨_ | failure, final⟩
  · exact ⟨final, rfl⟩
  · rw [walked] at answered
    cases answered

/-- Two passes that succeed report the same growth and leave layouts that agree. -/
theorem agrees_runPass
    (agrees : first.Agrees second)
    (firstWellFormed : first.WellFormed)
    (firstLocated : first.Located)
    (secondWellFormed : second.WellFormed)
    (secondLocated : second.Located)
    {leftGrown rightGrown : Nat}
    (leftSucceeds : (runPass config first).result = .ok leftGrown)
    (rightSucceeds : (runPass config second).result = .ok rightGrown) :
    rightGrown = leftGrown ∧
      (runPass config first).layout.Agrees (runPass config second).layout := by
  have codeSize : second.codeSize = first.codeSize :=
    firstLocated.codeSize_congr firstWellFormed secondLocated secondWellFormed
      agrees.descriptors
  have start :
      Sweep.Agree first second (.begin first) (.begin second) first.jumps.toList
        second.jumps.toList := by
    refine ⟨Sweep.underway_begin firstWellFormed firstLocated,
      Sweep.underway_begin secondWellFormed secondLocated, rfl, rfl, ?_⟩
    rw [Sweep.toLayout_begin, Sweep.toLayout_begin]
    exact agrees
  obtain ⟨leftFinal, leftWalks⟩ := exists_walk_of_runPass leftSucceeds
  obtain ⟨rightFinal, rightWalks⟩ := exists_walk_of_runPass rightSucceeds
  obtain ⟨leftEnd, rightEnd, rfl, rfl, agree⟩ :=
    start.walk agrees firstWellFormed secondWellFormed codeSize leftWalks rightWalks
  obtain ⟨-, leftAfter⟩ := runPass_of_completed leftWalks
  obtain ⟨-, rightAfter⟩ := runPass_of_completed rightWalks
  obtain rfl := upgrades_of_completed leftWalks leftSucceeds
  obtain rfl := upgrades_of_completed rightWalks rightSucceeds
  obtain ⟨-, -, leftEvolves, -, leftJumps, leftDescriptors⟩ := agree.leftUnderway.complete
  obtain ⟨-, -, rightEvolves, -, rightJumps, rightDescriptors⟩ := agree.rightUnderway.complete
  refine ⟨agree.upgrades, ?_⟩
  rw [leftAfter, rightAfter]
  refine agrees.of_evolves firstWellFormed secondWellFormed leftEvolves rightEvolves ?_ ?_
  · rw [rightDescriptors, leftDescriptors]
    exact agree.layouts.descriptors
  · have jumps := agree.layouts.jumps
    rw [Sweep.toLayout_nil_jumps, Sweep.toLayout_nil_jumps] at jumps
    rw [rightJumps, leftJumps]
    exact jumps

end Relaxation

namespace Layout

variable
  {first second : Layout}

/-- Layouts that agree have equally many jumps in each long state. -/
theorem Agrees.countState_eq
    (agrees : first.Agrees second)
    (long : LongForm) :
    second.countState (.long long) = first.countState (.long long) := by
  rw [countState, countState, ← Array.countP_toList, ← Array.countP_toList]
  refine countP_congr ?_ agrees.jumps.forall₂
  intro old new same
  have isForm := same.form
  unfold Jump.form at isForm
  rcases newState : new.state with _ | _ | (_ | _) <;>
    rcases oldState : old.state with _ | _ | (_ | _) <;>
    simp [newState, oldState] at isForm ⊢

variable
  {config : Config}
  {budget passes upgrades remaining : Nat}
  {leftNotices rightNotices : Array Notice}

/-- Layouts that agree are relaxed in the same way, where both can be relaxed. -/
theorem Agrees.relaxWithin
    (agrees : first.Agrees second)
    (firstWellFormed : first.WellFormed)
    (firstLocated : first.Located)
    (secondWellFormed : second.WellFormed)
    (secondLocated : second.Located)
    {leftStats rightStats : RelaxStats}
    (leftSucceeds :
      (first.relaxWithin config budget passes upgrades leftNotices remaining).result =
        .ok leftStats)
    (rightSucceeds :
      (second.relaxWithin config budget passes upgrades rightNotices remaining).result =
        .ok rightStats) :
    rightStats = leftStats ∧
      (first.relaxWithin config budget passes upgrades leftNotices remaining).layout.Agrees
        (second.relaxWithin config budget passes upgrades rightNotices remaining).layout := by
  induction remaining generalizing passes upgrades leftNotices rightNotices first second with
  | zero =>
      cases leftSucceeds
  | succ remaining inductionHypothesis =>
      rw [Layout.relaxWithin] at leftSucceeds rightSucceeds
      rw [Layout.relaxWithin, Layout.relaxWithin]
      dsimp only at leftSucceeds rightSucceeds ⊢
      split at leftSucceeds
      · cases leftSucceeds
      · rename_i leftGrown leftPass
        split at rightSucceeds
        · cases rightSucceeds
        · rename_i rightGrown rightPass
          obtain ⟨rfl, agreesLater⟩ :=
            Relaxation.agrees_runPass agrees firstWellFormed firstLocated secondWellFormed
              secondLocated leftPass rightPass
          have firstKept := (Relaxation.wellFormed_runPass config firstWellFormed).1
          have secondKept := (Relaxation.wellFormed_runPass config secondWellFormed).1
          have firstPlaced := Relaxation.located_runPass firstWellFormed firstLocated leftPass
          have secondPlaced := Relaxation.located_runPass secondWellFormed secondLocated rightPass
          -- With the same growth and the same size, both go on or both stop.
          have codeSize :=
            firstPlaced.codeSize_congr firstKept secondPlaced secondKept agreesLater.descriptors
          rw [codeSize] at rightSucceeds ⊢
          split at leftSucceeds
          · cases leftSucceeds
          · rename_i within
            rw [if_neg within] at rightSucceeds ⊢
            rw [if_neg within]
            split at leftSucceeds
            · rename_i quiet
              rw [if_pos quiet] at rightSucceeds ⊢
              rw [if_pos quiet]
              cases leftSucceeds
              cases rightSucceeds
              refine ⟨?_, agreesLater⟩
              rw [relaxStats, relaxStats, agreesLater.countState_eq, agreesLater.countState_eq,
                codeSize]
            · rename_i grew
              rw [if_neg grew] at rightSucceeds ⊢
              rw [if_neg grew]
              exact inductionHypothesis agreesLater firstKept firstPlaced secondKept secondPlaced
                leftSucceeds rightSucceeds

/-- The budget of passes depends on the number of jumps only, which is the same. -/
theorem Agrees.relax
    (agrees : first.Agrees second)
    (firstWellFormed : first.WellFormed)
    (firstLocated : first.Located)
    (secondWellFormed : second.WellFormed)
    (secondLocated : second.Located)
    {leftStats rightStats : RelaxStats}
    (leftSucceeds : (first.relax config).result = .ok leftStats)
    (rightSucceeds : (second.relax config).result = .ok rightStats) :
    rightStats = leftStats ∧ (first.relax config).layout.Agrees (second.relax config).layout := by
  have sameBudget : second.passBudget config = first.passBudget config := by
    rw [passBudget, passBudget, agrees.jumps.size]
  unfold Layout.relax at leftSucceeds rightSucceeds ⊢
  dsimp only at leftSucceeds rightSucceeds ⊢
  rw [sameBudget] at rightSucceeds ⊢
  exact agrees.relaxWithin firstWellFormed firstLocated secondWellFormed secondLocated
    leftSucceeds rightSucceeds

end Layout

end Rv64Codegen
