import Rv64Codegen.Proofs.Isa.Encoding
import Rv64Codegen.Proofs.Relaxation.Locations

namespace Rv64Codegen

/-!
# Reaching targets

When a pass visits a jump, the offset that it computes for the target is where
the target's descriptor starts at that moment.  A form is therefore judged by the
distance it has to cover, with a margin on top for forward jumps.  Code of a
limited size has no distance that the far form does not cover, and very small
code none that the short form does not cover.
-/

namespace Layout

/-- The distance that a form has to cover to a place, from the word that carries it. -/
def spanTo
    (descriptors : Array Descriptor)
    (jump : Jump)
    (place : Nat)
    (form : Form) :
    Int :=
  (startOf descriptors place : Int) -
    (startOf descriptors jump.descriptor + jump.anchor form : Nat)

/-- The current form of a jump covers the distance to its target. -/
def Reached (layout : Layout) (jump : Jump) : Prop :=
  ∃ resolved place,
    jump.resolved = some resolved ∧ layout.Aims jump place resolved ∧
      place ≤ layout.descriptors.size ∧
        Relaxation.Reaches jump jump.form
          (spanTo layout.descriptors jump place jump.form) 0

/-- Only the descriptors and the starts of groups matter for reaching a target. -/
theorem Reached.congr
    {before after : Layout}
    {jump : Jump}
    (reached : before.Reached jump)
    (descriptors : after.descriptors = before.descriptors)
    (groups :
      ∀ (index : Nat) (group : Group),
        before.groups[index]? = some group →
          ∃ later, after.groups[index]? = some later ∧ later.first = group.first) :
    after.Reached jump := by
  obtain ⟨resolved, place, isResolved, aims, inside, reaches⟩ := reached
  unfold Reached
  rw [descriptors]
  refine ⟨resolved, place, isResolved, ?_, inside, reaches⟩
  cases resolved with
  | group target =>
      obtain ⟨group, found, isPlace⟩ := aims
      obtain ⟨later, foundLater, first⟩ := groups _ group found
      exact ⟨later, foundLater, by rw [first]; exact isPlace⟩
  | inGroup position =>
      obtain ⟨own, found, isPlace⟩ := aims
      obtain ⟨later, foundLater, first⟩ := groups _ own found
      exact ⟨later, foundLater, by rw [first]; exact isPlace⟩

end Layout

namespace Relaxation

open Layout (startOf spanTo)

/-- A form that covers a forward distance with a margin covers it without. -/
theorem reaches_of_margin
    {jump : Jump}
    {form : Form}
    {distance : Int}
    {margin : Nat}
    (reaches : Reaches jump form distance margin)
    (forward : 0 ≤ distance ∨ margin = 0) :
    Reaches jump form distance 0 := by
  have fits {bits : Nat} (fitsMore : FitsSigned bits (distance + margin)) :
      FitsSigned bits (distance + (0 : Nat)) := by
    obtain ⟨lower, upper⟩ := fitsMore
    exact ⟨by omega, by omega⟩
  cases form with
  | short =>
      exact fits reaches
  | near =>
      exact fits reaches
  | far =>
      exact reaches

/-- Every form covers distances within a signed field of 13 bits. -/
theorem reaches_of_fits
    {distance : Int}
    (jump : Jump)
    (form : Form)
    (fits : FitsSigned 13 distance) :
    Reaches jump form distance 0 := by
  have bounds : -0x1000 ≤ distance ∧ distance < 0x1000 := fits
  have wide : FitsSigned 21 (distance + (0 : Nat)) := by
    show -0x100000 ≤ distance + (0 : Nat) ∧ distance + (0 : Nat) < 0x100000
    omega
  cases form with
  | short =>
      show FitsSigned (if jump.isConditional then 13 else 21) (distance + (0 : Nat))
      split
      · exact (Int.add_zero distance).symm ▸ fits
      · exact wide
  | near =>
      exact wide
  | far =>
      exact PcRelative.reachable_iff.mpr ⟨by omega, by omega⟩

/-- Where a target is, as a pass should see it. -/
def Aim.at
    (descriptors : Array Descriptor)
    (jump : Jump)
    (place : Nat) :
    Aim where
  offset := startOf descriptors place
  windowEnd := if jump.descriptor < place then some place else none

namespace Sweep

/-- A jump at its place in the current group of a pass. -/
structure Stands
    (sweep : Sweep)
    (labels : Array (Option GroupId))
    (rest : List Jump)
    (own : Group)
    (jump : Jump) :
    Prop where
  wellFormed : (sweep.toLayout labels rest).WellFormed
  located : sweep.Located rest
  isCurrent : sweep.nextGroup = jump.group.index + 1
  owns : (sweep.toLayout labels rest).Owns own jump
  offset : own.offset + jump.offset = startOf sweep.descriptors jump.descriptor
  follows :
    startOf sweep.descriptors (jump.descriptor + 1) =
      startOf sweep.descriptors jump.descriptor + jump.size

namespace Stands

variable
  {sweep : Sweep}
  {labels : Array (Option GroupId)}
  {rest : List Jump}
  {own : Group}
  {jump : Jump}
  {resolved : Resolved}
  {place : Nat}

/-- The offset that a pass computes for a target is where the target starts. -/
theorem aim?_eq
    (stands : sweep.Stands labels rest own jump)
    (setting : Setting)
    (pending : List Jump)
    (aims : (sweep.toLayout labels rest).Aims jump place resolved) :
    (sweep.view setting pending).aim? jump own resolved =
      some (Aim.at sweep.descriptors jump place) := by
  obtain ⟨foundOwn, lower, upper⟩ := stands.owns
  have partitioned := stands.wellFormed.partitioned
  have ownGroup : sweep.groups[jump.group.index]? = some own := foundOwn
  have isCurrent := stands.isCurrent
  cases resolved with
  | group target =>
      obtain ⟨group, found, rfl⟩ := aims
      have foundGroup : sweep.groups[target.index]? = some group := found
      show sweep.groups[target.index]?.map _ = _
      rw [foundGroup, Option.map_some, Aim.at]
      by_cases isLater : jump.group.index < target.index
      · have apart := partitioned.last_le_first isLater foundOwn found
        have offset := stands.located.coming _ group foundGroup (isCurrent ▸ isLater)
        rw [if_pos isLater, if_pos (Nat.lt_of_lt_of_le upper apart), ← offset]
        rfl
      · have upTo : target.index ≤ jump.group.index := Nat.le_of_not_lt isLater
        have before := partitioned.first_le_of_le upTo found foundOwn lower
        have offset := stands.located.passed _ group foundGroup
          (isCurrent ▸ Nat.lt_succ_of_le upTo)
        rw [if_neg isLater, if_neg (Nat.not_lt_of_le before), ← offset]
  | inGroup position =>
      obtain ⟨again, foundAgain, rfl⟩ := aims
      obtain rfl : own = again := Option.some.inj (foundOwn.symm.trans foundAgain)
      have offset := stands.located.passed _ own ownGroup
        (isCurrent ▸ Nat.lt_succ_self _)
      have whole :=
        Layout.startOf_add_sizeBetween sweep.descriptors
          (Nat.le_add_right own.first position)
      rw [Aim.at, ← whole, ← offset]
      rfl

/-- The distance of a form, as a pass computes it. -/
theorem distance_eq
    (stands : sweep.Stands labels rest own jump)
    (place : Nat)
    (form : Form) :
    distance jump own (Aim.at sweep.descriptors jump place) form =
      spanTo sweep.descriptors jump place form +
        if jump.descriptor < place then (jump.sizeOf form : Int) - jump.size else 0 := by
  have offset := stands.offset
  unfold distance Aim.at spanTo
  dsimp only
  by_cases forward : jump.descriptor < place
  · rw [if_pos forward, if_pos forward, Option.isSome_some, if_pos rfl]
    omega
  · rw [if_neg forward, if_neg forward, Option.isSome_none, if_neg (by decide)]
    omega

theorem descriptor_lt_size
    (stands : sweep.Stands labels rest own jump) :
    jump.descriptor < sweep.descriptors.size :=
  Nat.lt_of_lt_of_le stands.owns.upper
    (stands.wellFormed.partitioned.last_le_size stands.owns.found)

/-- A chosen form is not shorter than the current one, and reaches if that is checked. -/
theorem decideForm_spec
    (stands : sweep.Stands labels rest own jump)
    {setting : Setting}
    {pending : List Jump}
    {form : Form}
    (aims : (sweep.toLayout labels rest).Aims jump place resolved)
    (decides : sweep.decideForm setting pending own jump resolved = .ok form) :
    jump.form.rank ≤ form.rank ∧
      (setting.checksRange = true →
        Reaches jump form (distance jump own (Aim.at sweep.descriptors jump place) form)
          ((sweep.view setting pending).margin (Aim.at sweep.descriptors jump place))) := by
  refine ⟨rank_le_of_decideForm decides, ?_⟩
  unfold decideForm at decides
  dsimp only at decides
  split at decides
  · rw [stands.aim?_eq setting pending aims] at decides
    dsimp only at decides
    rw [Failure.ofRefusal_eq_ok_iff, chooseForm] at decides
    split at decides
    · rename_i chosen isChosen
      cases decides
      have reaches := List.find?_some isChosen
      exact fun _ => of_decide_eq_true reaches
    · cases decides
  · rename_i unchecked
    exact fun checks => absurd checks unchecked

/-- A jump that keeps its form in a pass that checks distances reaches its target. -/
theorem reaches_of_kept
    (stands : sweep.Stands labels rest own jump)
    {view : View}
    (reaches :
      Reaches jump jump.form
        (distance jump own (Aim.at sweep.descriptors jump place) jump.form)
        (view.margin (Aim.at sweep.descriptors jump place))) :
    Reaches jump jump.form (spanTo sweep.descriptors jump place jump.form) 0 := by
  have bounds := jump.size_bounds jump.form
  have isSize : jump.size = jump.sizeOf jump.form := rfl
  have same :
      distance jump own (Aim.at sweep.descriptors jump place) jump.form =
        spanTo sweep.descriptors jump place jump.form := by
    rw [stands.distance_eq]
    split
    · omega
    · omega
  rw [same] at reaches
  refine reaches_of_margin reaches ?_
  by_cases forward : jump.descriptor < place
  · -- a target behind the jump is behind all of its bytes
    have behind := Layout.startOf_mono sweep.descriptors forward
    have follows := stands.follows
    rw [Nat.succ_eq_add_one] at behind
    refine Or.inl ?_
    unfold spanTo
    omega
  · refine Or.inr ?_
    rw [View.margin, Aim.at, if_neg forward]

/-- In very small code every form reaches every place. -/
theorem reaches_of_small
    (stands : sweep.Stands labels rest own jump)
    (inside : place ≤ sweep.descriptors.size)
    (small : startOf sweep.descriptors sweep.descriptors.size ≤ 0xfff) :
    Reaches jump jump.form (spanTo sweep.descriptors jump place jump.form) 0 := by
  have target := Layout.startOf_mono sweep.descriptors inside
  have source := Layout.startOf_mono sweep.descriptors stands.descriptor_lt_size
  have follows := stands.follows
  have bounds := jump.size_bounds jump.form
  have isSize : jump.size = jump.sizeOf jump.form := rfl
  rw [Nat.succ_eq_add_one] at source
  apply reaches_of_fits
  show -0x1000 ≤ _ ∧ _ < 0x1000
  unfold spanTo
  omega

end Stands

end Sweep

end Relaxation

end Rv64Codegen
