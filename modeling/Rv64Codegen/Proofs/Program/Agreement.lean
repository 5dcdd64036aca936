import Rv64Codegen.Proofs.Program.WellFormed

namespace Rv64Codegen

/-!
# One program cut into different groups

Two layouts agree when they differ in their groups only: they have the same
descriptors, the same jumps at the same places, and labels in front of the same
descriptors.  Opening a group leaves a layout that agrees, and whatever else is
done to both of two layouts that agree keeps them in agreement.
-/

/-- The same jump of a program that is cut into other groups. -/
structure Jump.Agrees (first second : Jump) : Prop where
  kind : second.kind = first.kind
  target : second.target = first.target
  keepLong : second.keepLong = first.keepLong
  form : second.form = first.form
  descriptor : second.descriptor = first.descriptor

namespace Jump.Agrees

theorem refl (jump : Jump) :
    jump.Agrees jump :=
  ⟨rfl, rfl, rfl, rfl, rfl⟩

theorem symm
    {first second : Jump}
    (agrees : first.Agrees second) :
    second.Agrees first :=
  ⟨agrees.kind.symm, agrees.target.symm, agrees.keepLong.symm, agrees.form.symm,
    agrees.descriptor.symm⟩

theorem trans
    {first second third : Jump}
    (early : first.Agrees second)
    (late : second.Agrees third) :
    first.Agrees third :=
  ⟨late.kind.trans early.kind, late.target.trans early.target,
    late.keepLong.trans early.keepLong, late.form.trans early.form,
    late.descriptor.trans early.descriptor⟩

end Jump.Agrees

namespace Layout

namespace Pointwise

variable
  {related : α → α → Prop}
  {before after : Array α}

theorem symm
    (symmetric : ∀ first second, related first second → related second first)
    (pointwise : Pointwise related before after) :
    Pointwise related after before := by
  refine ⟨pointwise.size.symm, ?_⟩
  intro index new found
  obtain ⟨old, foundOld, isRelated⟩ := pointwise.backward found
  exact ⟨old, foundOld, symmetric old new isRelated⟩

theorem push
    (pointwise : Pointwise related before after)
    {old new : α}
    (isRelated : related old new) :
    Pointwise related (before.push old) (after.push new) := by
  refine ⟨by rw [Array.size_push, Array.size_push, pointwise.size], ?_⟩
  intro index entry found
  rw [Array.getElem?_push] at found ⊢
  rw [pointwise.size]
  split at found
  · rename_i isNew
    cases found
    exact ⟨new, if_pos isNew, isRelated⟩
  · rename_i isOld
    rw [if_neg isOld]
    exact pointwise.forward index entry found

/-- Entries at the same place are changed in the same way. -/
theorem modify_both
    (pointwise : Pointwise related before after)
    (index : Nat)
    {change : α → α}
    (changed : ∀ old new, related old new → related (change old) (change new)) :
    Pointwise related (before.modify index change) (after.modify index change) := by
  refine ⟨by rw [Array.size_modify, Array.size_modify, pointwise.size], ?_⟩
  intro other entry found
  rw [Array.getElem?_modify] at found ⊢
  split at found
  · rename_i here
    obtain ⟨old, foundOld, rfl⟩ := Option.map_eq_some_iff.mp found
    obtain ⟨new, foundNew, isRelated⟩ := pointwise.forward other old foundOld
    exact ⟨change new, by rw [if_pos here, foundNew]; rfl, changed old new isRelated⟩
  · rename_i elsewhere
    rw [if_neg elsewhere]
    exact pointwise.forward other entry found

end Pointwise

/-!
## Places of labels
-/

/-- The place among the descriptors that a label is bound to. -/
def labelPlace? (layout : Layout) (label : LabelId) : Option Nat :=
  (layout.labelGroup? label).bind fun target => layout.groups[target.index]?.map Group.first

theorem labelPlace?_eq_some_iff
    {layout : Layout}
    {label : LabelId}
    {place : Nat} :
    layout.labelPlace? label = some place ↔
      ∃ target group,
        layout.labelGroup? label = some target ∧
          layout.groups[target.index]? = some group ∧ group.first = place := by
  simp only [labelPlace?, Option.bind_eq_some_iff, Option.map_eq_some_iff]
  constructor
  · rintro ⟨target, isBound, group, found, first⟩
    exact ⟨target, group, isBound, found, first⟩
  · rintro ⟨target, group, isBound, found, first⟩
    exact ⟨target, isBound, group, found, first⟩

/-- Every bound label has a place. -/
theorem WellFormed.labelPlace?_eq_none_iff
    {layout : Layout}
    (wellFormed : layout.WellFormed)
    {label : LabelId} :
    layout.labelPlace? label = none ↔ layout.labelGroup? label = none := by
  constructor
  · intro noPlace
    cases isBound : layout.labelGroup? label with
    | none =>
        rfl
    | some target =>
        have inside := wellFormed.bound label target isBound
        have place : layout.labelPlace? label = some layout.groups[target.index].first :=
          labelPlace?_eq_some_iff.mpr
            ⟨target, _, isBound, Array.getElem?_eq_getElem inside, rfl⟩
        rw [place] at noPlace
        cases noPlace
  · intro unbound
    rw [labelPlace?, unbound]
    rfl

/-- A label stays at its place as long as its group starts at the same descriptor. -/
theorem WellFormed.labelPlace?_congr
    {before after : Layout}
    (wellFormed : before.WellFormed)
    {label : LabelId}
    (sameGroup : after.labelGroup? label = before.labelGroup? label)
    (groups :
      ∀ (index : Nat) (group : Group),
        before.groups[index]? = some group →
          ∃ later, after.groups[index]? = some later ∧ later.first = group.first) :
    after.labelPlace? label = before.labelPlace? label := by
  unfold labelPlace?
  rw [sameGroup]
  cases isBound : before.labelGroup? label with
  | none =>
      rfl
  | some target =>
      have found := Array.getElem?_eq_getElem (wellFormed.bound label target isBound)
      obtain ⟨later, foundLater, first⟩ := groups target.index _ found
      rw [Option.bind_some, Option.bind_some, found, foundLater, Option.map_some,
        Option.map_some, first]

/-- A label is free to be bound if it exists and has no place. -/
theorem WellFormed.unbound_iff
    {layout : Layout}
    (wellFormed : layout.WellFormed)
    {label : LabelId} :
    layout.labels[label.index]? = some none ↔
      label.index < layout.labels.size ∧ layout.labelPlace? label = none := by
  rw [wellFormed.labelPlace?_eq_none_iff, labelGroup?]
  constructor
  · intro unbound
    obtain ⟨inside, -⟩ := Array.getElem?_eq_some_iff.mp unbound
    exact ⟨inside, by rw [unbound]; rfl⟩
  · rintro ⟨inside, noGroup⟩
    rw [Array.getElem?_eq_getElem inside] at noGroup ⊢
    exact congrArg some noGroup

/-!
## Agreement
-/

/-- Two layouts that differ in their groups only. -/
structure Agrees (first second : Layout) : Prop where
  descriptors : second.descriptors = first.descriptors
  jumps : Pointwise Jump.Agrees first.jumps second.jumps
  labels : second.labels.size = first.labels.size
  places : ∀ label, second.labelPlace? label = first.labelPlace? label

namespace Agrees

theorem refl (layout : Layout) :
    layout.Agrees layout :=
  ⟨rfl, Pointwise.refl Jump.Agrees.refl _, rfl, fun _ => rfl⟩

theorem symm
    {first second : Layout}
    (agrees : first.Agrees second) :
    second.Agrees first where
  descriptors := agrees.descriptors.symm
  jumps := agrees.jumps.symm fun _ _ => Jump.Agrees.symm
  labels := agrees.labels.symm
  places := fun label => (agrees.places label).symm

theorem trans
    {first second third : Layout}
    (early : first.Agrees second)
    (late : second.Agrees third) :
    first.Agrees third where
  descriptors := late.descriptors.trans early.descriptors
  jumps := Pointwise.trans (fun _ _ _ toMiddle => toMiddle.trans) early.jumps late.jumps
  labels := late.labels.trans early.labels
  places := fun label => (late.places label).trans (early.places label)

/-- A new group changes nothing but the groups. -/
theorem openGroup
    {layout : Layout}
    (wellFormed : layout.WellFormed) :
    layout.Agrees layout.openGroup where
  descriptors := rfl
  jumps := (refl layout).jumps
  labels := rfl
  places := by
    obtain ⟨final, foundFinal⟩ := wellFormed.partitioned.exists_last
    rw [openGroup_eq foundFinal]
    intro label
    refine wellFormed.labelPlace?_congr rfl ?_
    intro index group found
    exact ⟨group, getElem?_push_of_some _ found, rfl⟩

variable
  {first second : Layout}

theorem addLabel
    (agrees : first.Agrees second)
    (firstWellFormed : first.WellFormed)
    (secondWellFormed : second.WellFormed) :
    first.addLabel.Agrees second.addLabel where
  descriptors := agrees.descriptors
  jumps := agrees.jumps
  labels := by
    show (second.labels.push none).size = (first.labels.push none).size
    rw [Array.size_push, Array.size_push, agrees.labels]
  places := by
    have kept (layout : Layout) (wellFormed : layout.WellFormed) (label : LabelId) :
        layout.addLabel.labelPlace? label = layout.labelPlace? label :=
      wellFormed.labelPlace?_congr (labelGroup?_addLabel layout label)
        fun _ group found => ⟨group, found, rfl⟩
    intro label
    rw [kept second secondWellFormed, kept first firstWellFormed]
    exact agrees.places label

theorem push
    (agrees : first.Agrees second)
    (firstWellFormed : first.WellFormed)
    (secondWellFormed : second.WellFormed)
    (descriptor : Descriptor) :
    (first.push descriptor).Agrees (second.push descriptor) where
  descriptors := congrArg (Array.push · descriptor) agrees.descriptors
  jumps := agrees.jumps
  labels := agrees.labels
  places := by
    have kept (layout : Layout) (wellFormed : layout.WellFormed) (label : LabelId) :
        (layout.push descriptor).labelPlace? label = layout.labelPlace? label := by
      refine wellFormed.labelPlace?_congr rfl ?_
      intro index group found
      obtain ⟨later, foundLater, sameFirst, -⟩ := getElem?_push_groups descriptor found
      exact ⟨later, foundLater, sameFirst⟩
    intro label
    rw [kept second secondWellFormed, kept first firstWellFormed]
    exact agrees.places label

theorem pushFresh
    (agrees : first.Agrees second)
    (firstWellFormed : first.WellFormed)
    (secondWellFormed : second.WellFormed)
    (kind : JumpKind)
    (target : JumpTarget) :
    (first.pushFresh kind target).Agrees (second.pushFresh kind target) := by
  have pushed :=
    agrees.push firstWellFormed secondWellFormed
      (Descriptor.ofOperation (.jump ⟨first.jumps.size⟩))
  refine ⟨?_, ?_, agrees.labels, pushed.places⟩
  · unfold Layout.pushFresh
    rw [agrees.jumps.size]
    exact pushed.descriptors
  · exact agrees.jumps.push
      ⟨rfl, rfl, rfl, rfl, congrArg Array.size agrees.descriptors⟩

theorem keepLong
    (agrees : first.Agrees second)
    (id : Nat) :
    { first with jumps := first.jumps.modify id ({ · with keepLong := true }) }.Agrees
      { second with jumps := second.jumps.modify id ({ · with keepLong := true }) } where
  descriptors := agrees.descriptors
  jumps := by
    dsimp only
    refine agrees.jumps.modify_both id ?_
    intro old new same
    exact ⟨same.kind, same.target, rfl, same.form, same.descriptor⟩
  labels := agrees.labels
  places := agrees.places

end Agrees

/-- Where the labels of a layout stand after one more is bound to an empty last group. -/
theorem WellFormed.labelPlace?_bindLabel
    {layout : Layout}
    (wellFormed : layout.WellFormed)
    {label : LabelId}
    (unbound : layout.labels[label.index]? = some none)
    (here : layout.currentCount = 0)
    (other : LabelId) :
    (layout.bindLabel label layout.current).labelPlace? other =
      if label.index = other.index then some layout.descriptors.size
      else layout.labelPlace? other := by
  obtain ⟨inside, -⟩ := Array.getElem?_eq_some_iff.mp unbound
  have marked :
      Pointwise (fun old new : Group => new.first = old.first) layout.groups
        (layout.groups.modify layout.current.index ({ · with isTarget := true })) :=
    Pointwise.modify (by intro; rfl) _ _ (by intros; rfl)
  split
  · rename_i same
    obtain ⟨final, foundFinal⟩ := wellFormed.partitioned.exists_last
    obtain ⟨later, foundLater, sameFirst⟩ := marked.forward _ final foundFinal
    refine labelPlace?_eq_some_iff.mpr ⟨layout.current, later, ?_, foundLater, ?_⟩
    · rw [labelGroup?_bindLabel, if_pos ⟨same, inside⟩]
    · -- The last group is empty, so it starts where the descriptors end.
      have empty : final.count = 0 := by
        rw [currentCount, Array.back?_eq_getElem?, foundFinal] at here
        exact here
      rw [sameFirst, ← wellFormed.partitioned.last final foundFinal, Group.last, empty]
      rfl
  · rename_i different
    refine wellFormed.labelPlace?_congr ?_ marked.forward
    rw [labelGroup?_bindLabel, if_neg fun both => different both.1]

/-- Labels that are bound behind the same descriptors agree. -/
theorem Agrees.bindLabel
    {first second : Layout}
    (agrees : first.Agrees second)
    (firstWellFormed : first.WellFormed)
    (secondWellFormed : second.WellFormed)
    {label : LabelId}
    (firstUnbound : first.labels[label.index]? = some none)
    (secondUnbound : second.labels[label.index]? = some none)
    (firstHere : first.currentCount = 0)
    (secondHere : second.currentCount = 0) :
    (first.bindLabel label first.current).Agrees (second.bindLabel label second.current) where
  descriptors := agrees.descriptors
  jumps := agrees.jumps
  labels := by
    show (second.labels.modify _ _).size = (first.labels.modify _ _).size
    rw [Array.size_modify, Array.size_modify, agrees.labels]
  places := by
    intro other
    rw [secondWellFormed.labelPlace?_bindLabel secondUnbound secondHere,
      firstWellFormed.labelPlace?_bindLabel firstUnbound firstHere, agrees.descriptors,
      agrees.places]

end Layout

end Rv64Codegen
