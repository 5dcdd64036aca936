import Mathlib.Data.List.Nodup
import Rv64Codegen.Json.ProgramForms
import Rv64Codegen.Isa.Range
import Rv64Codegen.Proofs.Outcome

namespace Rv64Codegen

/-!
# Forms and what is read from them

Under the laws of its codec, each form is read back as the value it was made from, as
long as the numbers of the value fit the widths that the reader accepts.  Names,
numbers, records and lists have one lemma each; the forms are put together from them.
-/

variable
  {codec : Codec}

namespace Codec

/-!
## Numbers and lists
-/

theorem fitsUnsigned_of_lt
    {bits n : Nat}
    (small : n < 1 <<< bits) :
    FitsUnsigned bits n :=
  ⟨Int.natCast_nonneg n, Int.ofNat_lt.mpr small⟩

theorem fitsUnsigned_byte (byte : UInt8) :
    FitsUnsigned 8 byte.toNat :=
  fitsUnsigned_of_lt byte.toNat_lt

theorem fitsUnsigned_address (value : UInt64) :
    FitsUnsigned 64 value.toNat :=
  fitsUnsigned_of_lt value.toNat_lt

/-- Every 64-bit integer fits 64 bits. -/
theorem fitsSigned_toInt (value : Int64) :
    FitsSigned 64 value.toInt := by
  have bound : (1 <<< (64 - 1) : Nat) = 0x8000000000000000 := by decide
  have lower := value.le_toInt
  have upper := value.toInt_lt
  unfold FitsSigned
  rw [bound]
  omega

theorem natOfBits?_ofNat
    (lawful : codec.Lawful)
    {bits n : Nat}
    (fits : FitsUnsigned bits n) :
    codec.natOfBits? bits (codec.ofNat n) = some n := by
  rw [natOfBits?, ofNat, lawful.integer?_integer _ _ _ fits.1 fits.2]
  rfl

theorem intOfBits?_integer
    (lawful : codec.Lawful)
    {bits : Nat}
    {value : Int}
    (fits : FitsSigned bits value) :
    codec.intOfBits? bits (codec.integer value) = some value :=
  lawful.integer?_integer _ _ _ fits.1 fits.2

/-- Where every item is read, so is the list. -/
theorem exists_map_eq_map_some
    {read : α → Option β}
    {values : List α}
    (reads : ∀ value ∈ values, ∃ result, read value = some result) :
    ∃ results : List β, values.map read = results.map some := by
  induction values with
  | nil =>
      exact ⟨[], rfl⟩
  | cons value values inductionHypothesis =>
      obtain ⟨result, readsFirst⟩ := reads value List.mem_cons_self
      obtain ⟨results, readsRest⟩ :=
        inductionHypothesis fun later member => reads later (List.mem_cons_of_mem _ member)
      exact ⟨result :: results, by rw [List.map_cons, readsFirst, readsRest, List.map_cons]⟩

theorem listOf?_ofList_map
    (lawful : codec.Lawful)
    {item? : codec.Document → Option β}
    {form : α → codec.Document}
    {wanted : α → β}
    {values : List α}
    (reads : ∀ value ∈ values, item? (form value) = some (wanted value)) :
    codec.listOf? item? (codec.ofList form values) = some (values.map wanted) := by
  rw [ofList, listOf?, lawful.items?_array, Option.bind_some, mapM_eq_some_iff, List.map_map,
    List.map_map]
  exact List.map_congr_left reads

/-- A list is read back if its items are. -/
theorem listOf?_ofList
    (lawful : codec.Lawful)
    {item? : codec.Document → Option α}
    {form : α → codec.Document}
    {values : List α}
    (reads : ∀ value ∈ values, item? (form value) = some value) :
    codec.listOf? item? (codec.ofList form values) = some values := by
  rw [listOf?_ofList_map lawful reads, List.map_id']

/-- Null stands for a missing value, since no number is written as null. -/
theorem optional?_ofOption
    (lawful : codec.Lawful)
    {value : Option Nat}
    {bits : Nat}
    (fits : ∀ n ∈ value, FitsUnsigned bits n) :
    codec.optional? (codec.natOfBits? bits) (codec.ofOption codec.ofNat value) =
      some value := by
  cases value with
  | none =>
      rw [ofOption, optional?, lawful.present?_null]
  | some n =>
      have present : codec.present? (codec.ofNat n) = some (codec.ofNat n) :=
        lawful.present?_integer n
      rw [ofOption, optional?, present]
      show (codec.natOfBits? bits (codec.ofNat n)).map some = _
      rw [natOfBits?_ofNat lawful (fits n rfl)]
      rfl

theorem plain?_plain
    (lawful : codec.Lawful)
    (name : String) :
    codec.plain? (codec.plain name) = some name := by
  rw [plain?, lawful.choice?_plain]

/-- A record is read on from the forms of its fields. -/
theorem bind_fields?_record
    (lawful : codec.Lawful)
    {names : List String}
    (members : List (String × codec.Document))
    (distinct : names.Nodup)
    (named : members.map Prod.fst = names)
    (next : List (Option codec.Document) → Option α) :
    (codec.fields? names (codec.record members)).bind next =
      next (members.map fun member => some member.2) := by
  subst named
  rw [lawful.fields?_record members distinct, Option.bind_some]

end Codec

/-- A type whose values have different names is read by name. -/
theorem JsonForm.ofNames_ofJson?_toJson
    (lawful : codec.Lawful)
    {all : List α}
    {name : α → String}
    (distinct : (all.map name).Nodup)
    {value : α}
    (member : value ∈ all) :
    (JsonForm.ofNames all name).ofJson? codec ((JsonForm.ofNames all name).toJson codec value) =
      some value := by
  show ((codec.plain? (codec.plain (name value))).bind fun text =>
    all.find? fun candidate => name candidate == text) = some value
  rw [Codec.plain?_plain lawful, Option.bind_some]
  have exists_ : (all.find? fun candidate => name candidate == name value).isSome := by
    rw [List.find?_isSome]
    exact ⟨value, member, by simp⟩
  obtain ⟨found, isFound⟩ := Option.isSome_iff_exists.mp exists_
  have sameName : name found = name value := by
    simpa using List.find?_some isFound
  rw [isFound, List.inj_on_of_nodup_map distinct (List.mem_of_find?_eq_some isFound) member
    sameName]

/-!
## Names
-/

theorem RegisterFile.ofJson?_toJson
    (lawful : codec.Lawful)
    (file : RegisterFile) :
    ofJson? codec (toJson codec file) = some file :=
  JsonForm.ofNames_ofJson?_toJson lawful (by decide) (by cases file <;> decide)

theorem Format.ofJson?_toJson
    (lawful : codec.Lawful)
    (format : Format) :
    ofJson? codec (toJson codec format) = some format :=
  JsonForm.ofNames_ofJson?_toJson lawful (by decide) (by cases format <;> decide)

theorem Opcode.ofJson?_toJson
    (lawful : codec.Lawful)
    (op : Opcode) :
    ofJson? codec (toJson codec op) = some op :=
  JsonForm.ofNames_ofJson?_toJson lawful (by decide +kernel) (by cases op <;> decide)

theorem Field.ofJson?_toJson
    (lawful : codec.Lawful)
    (field : Field) :
    ofJson? codec (toJson codec field) = some field :=
  JsonForm.ofNames_ofJson?_toJson lawful (by decide) (by cases field <;> decide)

theorem Region.ofJson?_toJson
    (lawful : codec.Lawful)
    (region : Region) :
    ofJson? codec (toJson codec region) = some region :=
  JsonForm.ofNames_ofJson?_toJson lawful (by decide) (by cases region <;> decide)

theorem MoveWidth.ofJson?_toJson
    (lawful : codec.Lawful)
    (width : MoveWidth) :
    ofJson? codec (toJson codec width) = some width :=
  JsonForm.ofNames_ofJson?_toJson lawful (by decide) (by cases width <;> decide)

theorem RelocationKind.ofJson?_toJson
    (lawful : codec.Lawful)
    (kind : RelocationKind) :
    ofJson? codec (toJson codec kind) = some kind :=
  JsonForm.ofNames_ofJson?_toJson lawful (by decide) (by cases kind <;> decide)

theorem LongForm.ofJson?_toJson
    (lawful : codec.Lawful)
    (form : LongForm) :
    ofJson? codec (toJson codec form) = some form :=
  JsonForm.ofNames_ofJson?_toJson lawful (by decide) (by cases form <;> decide)

/-!
## Registers, steps and identifiers
-/

theorem Register.ofJson?_toJson
    (lawful : codec.Lawful)
    (register : Register) :
    ofJson? codec (toJson codec register) = some register := by
  have fits : FitsUnsigned 8 register.index := Codec.fitsUnsigned_byte register.number
  have number : UInt8.ofNat register.index = register.number := UInt8.ofNat_toNat
  refine (Codec.bind_fields?_record lawful _ (by decide) (by rfl) _).trans ?_
  simp [RegisterFile.ofJson?_toJson lawful, Codec.natOfBits?_ofNat lawful fits, number]

/-- A number of 32 bits. -/
def GroupId.InWidth (group : GroupId) : Prop :=
  FitsUnsigned 32 group.index

theorem GroupId.ofJson?_toJson
    (lawful : codec.Lawful)
    {group : GroupId}
    (fits : group.InWidth) :
    ofJson? codec (toJson codec group) = some group := by
  show (codec.natOfBits? 32 (codec.ofNat group.index)).map GroupId.mk = _
  rw [Codec.natOfBits?_ofNat lawful fits]
  rfl

/-- A number of 32 bits. -/
def LabelId.InWidth (label : LabelId) : Prop :=
  FitsUnsigned 32 label.index

theorem LabelId.ofJson?_toJson
    (lawful : codec.Lawful)
    {label : LabelId}
    (fits : label.InWidth) :
    ofJson? codec (toJson codec label) = some label := by
  show (codec.natOfBits? 32 (codec.ofNat label.index)).map LabelId.mk = _
  rw [Codec.natOfBits?_ofNat lawful fits]
  rfl

/-- A step with an immediate of 64 bits. -/
def Step.InWidth (step : Step) : Prop :=
  FitsSigned 64 step.imm

theorem Step.ofJson?_toJson
    (lawful : codec.Lawful)
    {step : Step}
    (fits : step.InWidth) :
    ofJson? codec (toJson codec step) = some step := by
  refine (Codec.bind_fields?_record lawful _ (by decide) (by rfl) _).trans ?_
  simp [Opcode.ofJson?_toJson lawful, Codec.intOfBits?_integer lawful fits]

namespace Sequence

/-- Steps whose immediates all have 64 bits. -/
def InWidth (sequence : Sequence) : Prop :=
  ∀ step ∈ sequence.steps, step.InWidth

/-- Steps are pushed as long as there is room for all of them. -/
theorem foldlM_push?
    (sequence : Sequence)
    {steps : List Step}
    (few : sequence.steps.length + steps.length ≤ 8) :
    steps.foldlM push? sequence =
      some ⟨sequence.steps ++ steps, by rw [List.length_append]; exact few⟩ := by
  induction steps generalizing sequence with
  | nil =>
      simp
  | cons step rest inductionHypothesis =>
      rw [List.length_cons] at few
      have room : (sequence.steps ++ [step]).length ≤ 8 := by
        rw [List.length_append, List.length_singleton]
        omega
      have pushes : sequence.push? step = some ⟨sequence.steps ++ [step], room⟩ :=
        dif_pos room
      have fewBehind : (sequence.steps ++ [step]).length + rest.length ≤ 8 := by
        rw [List.length_append, List.length_singleton]
        omega
      rw [List.foldlM_cons, pushes]
      refine (inductionHypothesis ⟨_, room⟩ fewBehind).trans ?_
      simp

/-- Eight steps at most make up a sequence, which holds these steps. -/
theorem pushAll?_eq_some_iff
    {steps : List Step}
    {sequence : Sequence} :
    pushAll? steps = some sequence ↔ steps.length ≤ 8 ∧ sequence.steps = steps := by
  unfold pushAll?
  split
  · rename_i tooMany
    exact iff_of_false nofun fun ⟨few, _⟩ => Nat.not_lt_of_le few tooMany
  · rename_i room
    have few := Nat.le_of_not_lt room
    rw [foldlM_push? empty (by rw [empty, List.length_nil]; omega)]
    obtain ⟨found, foundFew⟩ := sequence
    simp [empty, few, eq_comm]

theorem ofJson?_toJson
    (lawful : codec.Lawful)
    {sequence : Sequence}
    (fits : sequence.InWidth) :
    ofJson? codec (toJson codec sequence) = some sequence := by
  have reads :
      codec.listOf? (ofJson? codec) (codec.ofList (toJson codec) sequence.steps) =
        some sequence.steps :=
    Codec.listOf?_ofList lawful fun step member =>
      Step.ofJson?_toJson lawful (fits step member)
  refine Option.bind_eq_some_iff.mpr ⟨_, reads, ?_⟩
  exact pushAll?_eq_some_iff.mpr ⟨sequence.length_le, rfl⟩

/-- An array is a sequence if its items are steps, eight at most. -/
theorem exists_ofJson?_iff
    {document : codec.Document}
    {items : List codec.Document}
    (isArray : codec.items? document = some items) :
    (∃ sequence : Sequence, ofJson? codec document = some sequence) ↔
      (∀ item ∈ items, ∃ step : Step, ofJson? codec item = some step) ∧ items.length ≤ 8 := by
  have opened (sequence : Sequence) :
      ofJson? codec document = some sequence ↔
        ∃ steps : List Step,
          items.map (ofJson? codec) = steps.map some ∧ pushAll? steps = some sequence := by
    show (((codec.items? document).bind (List.mapM (ofJson? codec))).bind pushAll?) = _ ↔ _
    rw [isArray, Option.bind_some, Option.bind_eq_some_iff]
    simp only [mapM_eq_some_iff]
  constructor
  · rintro ⟨sequence, isSequence⟩
    obtain ⟨steps, reads, made⟩ := (opened sequence).mp isSequence
    obtain ⟨few, -⟩ := pushAll?_eq_some_iff.mp made
    have sameLength : items.length = steps.length := by
      simpa using congrArg List.length reads
    refine ⟨?_, sameLength ▸ few⟩
    intro item member
    have isRead : ofJson? codec item ∈ steps.map some := by
      rw [← reads]
      exact List.mem_map_of_mem member
    obtain ⟨step, -, isStep⟩ := List.mem_map.mp isRead
    exact ⟨step, isStep.symm⟩
  · rintro ⟨reads, few⟩
    obtain ⟨steps, isRead⟩ := Codec.exists_map_eq_map_some reads
    have sameLength : items.length = steps.length := by
      simpa using congrArg List.length isRead
    rw [sameLength] at few
    exact ⟨⟨steps, few⟩,
      (opened _).mpr ⟨steps, isRead, pushAll?_eq_some_iff.mpr ⟨few, rfl⟩⟩⟩

end Sequence

/-!
## Choices
-/

theorem JumpState.ofJson?_toJson
    (lawful : codec.Lawful)
    (state : JumpState) :
    ofJson? codec (toJson codec state) = some state := by
  have plain (name : String) := Codec.plain?_plain lawful name
  have choice (name : String) := lawful.choice?_plain name
  cases state with
  | shortUnbound =>
      simp [toJson, ofJson?, plain, choice]
  | shortBound =>
      simp [toJson, ofJson?, plain, choice]
  | long form =>
      have reads := LongForm.ofJson?_toJson lawful form
      simp [toJson, ofJson?] at reads ⊢
      simp [lawful.choice?_tagged, reads]

theorem RelocationTarget.ofJson?_toJson
    (lawful : codec.Lawful)
    (target : RelocationTarget) :
    ofJson? codec (toJson codec target) = some target := by
  cases target with
  | symbol name =>
      simp [toJson, ofJson?, lawful.choice?_tagged, lawful.string?_string]
  | address value =>
      have reads := Codec.natOfBits?_ofNat lawful (Codec.fitsUnsigned_address value)
      simp [toJson, ofJson?, lawful.choice?_tagged, reads]

/-!
## Causes of refusal
-/

namespace EmissionError

/-- Numbers of the widths in which a cause is reported. -/
def InWidth : EmissionError → Prop
  | .fieldOverflow _ value bits => FitsSigned 64 value ∧ FitsUnsigned 32 bits
  | .misaligned _ value align => FitsSigned 64 value ∧ FitsUnsigned 32 align
  | .formatMismatch .. => True
  | .invalidOperand .. => True
  | .unresolvedTarget label => label.InWidth
  | .duplicateLabel label group => label.InWidth ∧ group.InWidth
  | .relativeTargetOutOfGroup group index count =>
      group.InWidth ∧ FitsUnsigned 64 index ∧ FitsSigned 32 count
  | .materializeOverflow _ count limit => FitsUnsigned 64 count ∧ FitsUnsigned 64 limit
  | .functionTooLarge offset => FitsSigned 64 offset
  | .relaxationLimit max => FitsUnsigned 64 max
  | .resourceLimitExceeded _ limit => FitsUnsigned 64 limit
  | .badAlignment align => FitsUnsigned 32 align
  | .dataOutOfBounds offset len => FitsUnsigned 32 offset ∧ FitsUnsigned 64 len
  | .sizeMismatch expected actual => FitsUnsigned 32 expected ∧ FitsUnsigned 32 actual

theorem readOne?_record
    (lawful : codec.Lawful)
    {first : String}
    (a : codec.Document)
    (build : codec.Document → Option EmissionError) :
    readOne? codec (codec.record [(first, a)]) first build = build a :=
  Codec.bind_fields?_record lawful [(first, a)] (List.nodup_singleton first) rfl _

theorem readTwo?_record
    (lawful : codec.Lawful)
    {first second : String}
    (distinct : [first, second].Nodup)
    (a b : codec.Document)
    (build : codec.Document → codec.Document → Option EmissionError) :
    readTwo? codec (codec.record [(first, a), (second, b)]) first second build = build a b :=
  Codec.bind_fields?_record lawful [(first, a), (second, b)] distinct rfl _

theorem readThree?_record
    (lawful : codec.Lawful)
    {first second third : String}
    (distinct : [first, second, third].Nodup)
    (a b c : codec.Document)
    (build : codec.Document → codec.Document → codec.Document → Option EmissionError) :
    readThree? codec (codec.record [(first, a), (second, b), (third, c)]) first second third
        build =
      build a b c :=
  Codec.bind_fields?_record lawful [(first, a), (second, b), (third, c)] distinct rfl _

theorem ofJson?_toJson
    (lawful : codec.Lawful)
    {cause : EmissionError}
    (fits : cause.InWidth) :
    ofJson? codec (toJson codec cause) = some cause := by
  have opened :
      ofJson? codec (toJson codec cause) =
        ofContent? codec cause.name (codec.record (cause.content codec)) := by
    simp [toJson, ofJson?, lawful.choice?_tagged]
  rw [opened]
  cases cause with
  | fieldOverflow field value bits =>
      refine (readThree?_record lawful (by decide) _ _ _ _).trans ?_
      simp [Field.ofJson?_toJson lawful, Codec.intOfBits?_integer lawful fits.1,
        Codec.natOfBits?_ofNat lawful fits.2]
  | misaligned field value align =>
      refine (readThree?_record lawful (by decide) _ _ _ _).trans ?_
      simp [Field.ofJson?_toJson lawful, Codec.intOfBits?_integer lawful fits.1,
        Codec.natOfBits?_ofNat lawful fits.2]
  | formatMismatch op expected actual =>
      refine (readThree?_record lawful (by decide) _ _ _ _).trans ?_
      simp [Opcode.ofJson?_toJson lawful, Format.ofJson?_toJson lawful]
  | invalidOperand op detail =>
      refine (readTwo?_record lawful (by decide) _ _ _).trans ?_
      simp [Opcode.ofJson?_toJson lawful, lawful.string?_string]
  | unresolvedTarget label =>
      refine (readOne?_record lawful _ _).trans ?_
      simp [LabelId.ofJson?_toJson lawful fits]
  | duplicateLabel label group =>
      refine (readTwo?_record lawful (by decide) _ _ _).trans ?_
      simp [LabelId.ofJson?_toJson lawful fits.1, GroupId.ofJson?_toJson lawful fits.2]
  | relativeTargetOutOfGroup group index count =>
      refine (readThree?_record lawful (by decide) _ _ _ _).trans ?_
      simp [GroupId.ofJson?_toJson lawful fits.1, Codec.natOfBits?_ofNat lawful fits.2.1,
        Codec.intOfBits?_integer lawful fits.2.2]
  | materializeOverflow value count limit =>
      refine (readThree?_record lawful (by decide) _ _ _ _).trans ?_
      simp [Codec.intOfBits?_integer lawful (Codec.fitsSigned_toInt value),
        Codec.natOfBits?_ofNat lawful fits.1, Codec.natOfBits?_ofNat lawful fits.2]
  | functionTooLarge offset =>
      refine (readOne?_record lawful _ _).trans ?_
      simp [Codec.intOfBits?_integer lawful fits]
  | relaxationLimit max =>
      refine (readOne?_record lawful _ _).trans ?_
      simp [Codec.natOfBits?_ofNat lawful fits]
  | resourceLimitExceeded resource limit =>
      refine (readTwo?_record lawful (by decide) _ _ _).trans ?_
      simp [lawful.string?_string, Codec.natOfBits?_ofNat lawful fits]
  | badAlignment align =>
      refine (readOne?_record lawful _ _).trans ?_
      simp [Codec.natOfBits?_ofNat lawful fits]
  | dataOutOfBounds offset len =>
      refine (readTwo?_record lawful (by decide) _ _ _).trans ?_
      simp [Codec.natOfBits?_ofNat lawful fits.1, Codec.natOfBits?_ofNat lawful fits.2]
  | sizeMismatch expected actual =>
      refine (readTwo?_record lawful (by decide) _ _ _).trans ?_
      simp [Codec.natOfBits?_ofNat lawful fits.1, Codec.natOfBits?_ofNat lawful fits.2]

end EmissionError

/-!
## Configurations, relocations and finished code

The following records hold wide numbers, so what is read from each of their fields is
left open until the record itself has been taken apart.
-/

/-- A relocation at an offset of 32 bits. -/
def Relocation.InWidth (relocation : Relocation) : Prop :=
  FitsUnsigned 32 relocation.offset

theorem Relocation.ofJson?_record
    (lawful : codec.Lawful)
    {relocation : Relocation}
    {offset target kind addend : codec.Document}
    (readsOffset : codec.natOfBits? 32 offset = some relocation.offset)
    (readsTarget : ofJson? codec target = some relocation.target)
    (readsKind : ofJson? codec kind = some relocation.kind)
    (readsAddend : codec.intOfBits? 64 addend = some relocation.addend.toInt) :
    ofJson? codec (codec.record [("offset", offset), ("target", target), ("kind", kind),
      ("addend", addend)]) = some relocation := by
  refine (Codec.bind_fields?_record lawful _ (by decide) (by rfl) _).trans ?_
  simp [readsOffset, readsTarget, readsKind, readsAddend]

theorem Relocation.ofJson?_toJson
    (lawful : codec.Lawful)
    {relocation : Relocation}
    (fits : relocation.InWidth) :
    ofJson? codec (toJson codec relocation) = some relocation :=
  Relocation.ofJson?_record lawful (Codec.natOfBits?_ofNat lawful fits)
    (RelocationTarget.ofJson?_toJson lawful _) (RelocationKind.ofJson?_toJson lawful _)
    (Codec.intOfBits?_integer lawful (Codec.fitsSigned_toInt _))

/-- Counters of 64 bits and a size of 32 bits. -/
structure RelaxStats.InWidth (stats : RelaxStats) : Prop where
  passes : FitsUnsigned 64 stats.passes
  upgrades : FitsUnsigned 64 stats.upgrades
  near : FitsUnsigned 64 stats.near
  far : FitsUnsigned 64 stats.far
  codeSize : FitsUnsigned 32 stats.codeSize

theorem RelaxStats.ofJson?_record
    (lawful : codec.Lawful)
    {stats : RelaxStats}
    {passes upgrades near far codeSize : codec.Document}
    (readsPasses : codec.natOfBits? 64 passes = some stats.passes)
    (readsUpgrades : codec.natOfBits? 64 upgrades = some stats.upgrades)
    (readsNear : codec.natOfBits? 64 near = some stats.near)
    (readsFar : codec.natOfBits? 64 far = some stats.far)
    (readsCodeSize : codec.natOfBits? 32 codeSize = some stats.codeSize) :
    ofJson? codec (codec.record [("passes", passes), ("upgrades", upgrades), ("near", near),
      ("far", far), ("code_size", codeSize)]) = some stats := by
  refine (Codec.bind_fields?_record lawful _ (by decide) (by rfl) _).trans ?_
  simp [readsPasses, readsUpgrades, readsNear, readsFar, readsCodeSize]

theorem RelaxStats.ofJson?_toJson
    (lawful : codec.Lawful)
    {stats : RelaxStats}
    (fits : stats.InWidth) :
    ofJson? codec (toJson codec stats) = some stats :=
  RelaxStats.ofJson?_record lawful (Codec.natOfBits?_ofNat lawful fits.passes)
    (Codec.natOfBits?_ofNat lawful fits.upgrades) (Codec.natOfBits?_ofNat lawful fits.near)
    (Codec.natOfBits?_ofNat lawful fits.far) (Codec.natOfBits?_ofNat lawful fits.codeSize)

/-- Lengths of 64 bits and a span of 32 bits. -/
structure ConstantLimits.InWidth (limits : ConstantLimits) : Prop where
  preferredMax : FitsUnsigned 64 limits.preferredMax
  absoluteMax : FitsUnsigned 64 limits.absoluteMax
  srliMinSpan : FitsUnsigned 32 limits.srliMinSpan

theorem ConstantLimits.ofJson?_record
    (lawful : codec.Lawful)
    {limits : ConstantLimits}
    {preferredMax absoluteMax srliMinSpan : codec.Document}
    (readsPreferred : codec.natOfBits? 64 preferredMax = some limits.preferredMax)
    (readsAbsolute : codec.natOfBits? 64 absoluteMax = some limits.absoluteMax)
    (readsSpan : codec.natOfBits? 32 srliMinSpan = some limits.srliMinSpan) :
    ofJson? codec (codec.record [("preferred_max", preferredMax), ("absolute_max", absoluteMax),
      ("srli_min_span", srliMinSpan)]) = some limits := by
  refine (Codec.bind_fields?_record lawful _ (by decide) (by rfl) _).trans ?_
  simp [readsPreferred, readsAbsolute, readsSpan]

theorem ConstantLimits.ofJson?_toJson
    (lawful : codec.Lawful)
    {limits : ConstantLimits}
    (fits : limits.InWidth) :
    ofJson? codec (toJson codec limits) = some limits :=
  ConstantLimits.ofJson?_record lawful (Codec.natOfBits?_ofNat lawful fits.preferredMax)
    (Codec.natOfBits?_ofNat lawful fits.absoluteMax)
    (Codec.natOfBits?_ofNat lawful fits.srliMinSpan)

/-- Settings in the widths that a configuration is kept in. -/
structure Config.InWidth (config : Config) : Prop where
  constants : config.constants.InWidth
  branchGrowthReserve : FitsUnsigned 32 config.branchGrowthReserve
  smallFunctionBytes : FitsUnsigned 32 config.smallFunctionBytes
  maxCodeBytes : FitsUnsigned 64 config.maxCodeBytes
  maxRelaxPasses : ∀ passes ∈ config.maxRelaxPasses, FitsUnsigned 64 passes
  poolAlign : FitsUnsigned 32 config.poolAlign

theorem Config.ofJson?_record
    (lawful : codec.Lawful)
    {config : Config}
    {constants reserve smallBytes maxBytes maxPasses : codec.Document}
    {poolAlign longJump call reserved : codec.Document}
    (readsConstants : ofJson? codec constants = some config.constants)
    (readsReserve : codec.natOfBits? 32 reserve = some config.branchGrowthReserve)
    (readsSmall : codec.natOfBits? 32 smallBytes = some config.smallFunctionBytes)
    (readsMax : codec.natOfBits? 64 maxBytes = some config.maxCodeBytes)
    (readsPasses :
      codec.optional? (codec.natOfBits? 64) maxPasses = some config.maxRelaxPasses)
    (readsAlign : codec.natOfBits? 32 poolAlign = some config.poolAlign)
    (readsLongJump : ofJson? codec longJump = some config.longJumpScratch)
    (readsCall : ofJson? codec call = some config.callScratch)
    (readsReserved : ofJson? codec reserved = some config.reservedScratch) :
    ofJson? codec (codec.record [("load_imm", constants), ("branch_growth_reserve", reserve),
      ("small_function_bytes", smallBytes), ("max_code_bytes", maxBytes),
      ("max_relax_passes", maxPasses), ("pool_align", poolAlign),
      ("long_jump_scratch", longJump), ("call_scratch", call),
      ("reserved_scratch", reserved)]) = some config := by
  refine (Codec.bind_fields?_record lawful _ (by decide) (by rfl) _).trans ?_
  simp [readsConstants, readsReserve, readsSmall, readsMax, readsPasses, readsAlign,
    readsLongJump, readsCall, readsReserved]

theorem Config.ofJson?_toJson
    (lawful : codec.Lawful)
    {config : Config}
    (fits : config.InWidth) :
    ofJson? codec (toJson codec config) = some config :=
  Config.ofJson?_record lawful (ConstantLimits.ofJson?_toJson lawful fits.constants)
    (Codec.natOfBits?_ofNat lawful fits.branchGrowthReserve)
    (Codec.natOfBits?_ofNat lawful fits.smallFunctionBytes)
    (Codec.natOfBits?_ofNat lawful fits.maxCodeBytes)
    (Codec.optional?_ofOption lawful fits.maxRelaxPasses)
    (Codec.natOfBits?_ofNat lawful fits.poolAlign) (Register.ofJson?_toJson lawful _)
    (Register.ofJson?_toJson lawful _) (Register.ofJson?_toJson lawful _)

namespace Codec

theorem bytes?_ofBytes
    (lawful : codec.Lawful)
    (bytes : Array UInt8) :
    codec.bytes? (codec.ofBytes bytes) = some bytes := by
  have reads :
      ∀ byte ∈ bytes.toList,
        codec.natOfBits? 8 (codec.ofNat byte.toNat) = some byte.toNat :=
    fun byte _ => natOfBits?_ofNat lawful (fitsUnsigned_byte byte)
  have same : bytes.toList.map (UInt8.ofNat ∘ UInt8.toNat) = bytes.toList := by
    rw [show UInt8.ofNat ∘ UInt8.toNat = id from funext fun _ => UInt8.ofNat_toNat, List.map_id]
  rw [bytes?, ofBytes, listOf?_ofList_map lawful reads, Option.map_some, List.map_map, same]

theorem offsets?_ofOffsets
    (lawful : codec.Lawful)
    {offsets : Array Nat}
    (fits : ∀ offset ∈ offsets, FitsUnsigned 32 offset) :
    codec.offsets? (codec.ofOffsets offsets) = some offsets := by
  have reads :
      ∀ offset ∈ offsets.toList, codec.natOfBits? 32 (codec.ofNat offset) = some offset :=
    fun offset member =>
      natOfBits?_ofNat lawful (fits offset (Array.mem_toList_iff.mp member))
  rw [offsets?, ofOffsets, listOf?_ofList lawful reads]
  simp

end Codec

/-- Offsets of 32 bits, and relocations and counters that fit. -/
structure EmittedCode.InWidth (emitted : EmittedCode) : Prop where
  dataOffset : FitsUnsigned 32 emitted.dataOffset
  relocations : ∀ relocation ∈ emitted.relocations, relocation.InWidth
  groupOffsets : ∀ offset ∈ emitted.groupOffsets, FitsUnsigned 32 offset
  labelOffsets : ∀ bound ∈ emitted.labelOffsets, ∀ offset ∈ bound, FitsUnsigned 32 offset
  targetOffsets : ∀ offset ∈ emitted.targetOffsets, FitsUnsigned 32 offset
  stats : emitted.stats.InWidth

theorem EmittedCode.ofJson?_record
    (lawful : codec.Lawful)
    {emitted : EmittedCode}
    {code data dataOffset relocations : codec.Document}
    {groupOffsets labelOffsets targetOffsets stats : codec.Document}
    (readsCode : codec.bytes? code = some emitted.code)
    (readsData : codec.bytes? data = some emitted.data)
    (readsOffset : codec.natOfBits? 32 dataOffset = some emitted.dataOffset)
    (readsRelocations :
      codec.listOf? (ofJson? codec) relocations = some emitted.relocations.toList)
    (readsGroups : codec.offsets? groupOffsets = some emitted.groupOffsets)
    (readsLabels :
      codec.listOf? (codec.optional? (codec.natOfBits? 32)) labelOffsets =
        some emitted.labelOffsets.toList)
    (readsTargets : codec.offsets? targetOffsets = some emitted.targetOffsets)
    (readsStats : ofJson? codec stats = some emitted.stats) :
    ofJson? codec (codec.record [("code", code), ("data", data), ("data_offset", dataOffset),
      ("relocations", relocations), ("group_offsets", groupOffsets),
      ("label_offsets", labelOffsets), ("target_offsets", targetOffsets),
      ("stats", stats)]) = some emitted := by
  refine (Codec.bind_fields?_record lawful _ (by decide) (by rfl) _).trans ?_
  simp [readsCode, readsData, readsOffset, readsRelocations, readsGroups, readsLabels,
    readsTargets, readsStats]

theorem EmittedCode.ofJson?_toJson
    (lawful : codec.Lawful)
    {emitted : EmittedCode}
    (fits : emitted.InWidth) :
    ofJson? codec (toJson codec emitted) = some emitted := by
  have relocations :
      codec.listOf? (ofJson? codec)
          (codec.ofList (toJson codec) emitted.relocations.toList) =
        some emitted.relocations.toList :=
    Codec.listOf?_ofList lawful fun relocation member =>
      Relocation.ofJson?_toJson lawful
        (fits.relocations relocation (Array.mem_toList_iff.mp member))
  have labels :
      codec.listOf? (codec.optional? (codec.natOfBits? 32))
          (codec.ofList (codec.ofOption codec.ofNat) emitted.labelOffsets.toList) =
        some emitted.labelOffsets.toList :=
    Codec.listOf?_ofList lawful fun bound member =>
      Codec.optional?_ofOption lawful (fits.labelOffsets bound (Array.mem_toList_iff.mp member))
  exact EmittedCode.ofJson?_record lawful (Codec.bytes?_ofBytes lawful _)
    (Codec.bytes?_ofBytes lawful _)
    (Codec.natOfBits?_ofNat lawful fits.dataOffset) relocations
    (Codec.offsets?_ofOffsets lawful fits.groupOffsets) labels
    (Codec.offsets?_ofOffsets lawful fits.targetOffsets)
    (RelaxStats.ofJson?_toJson lawful fits.stats)

end Rv64Codegen
