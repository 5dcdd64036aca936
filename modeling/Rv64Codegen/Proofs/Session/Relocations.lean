import Rv64Codegen.Proofs.Relaxation.Bounds
import Rv64Codegen.Proofs.Session.Finish
import Rv64Codegen.Proofs.Simulation.Tracking

namespace Rv64Codegen

/-!
# Relocations tell of the code

A relocated call and a relocated address become pairs of instructions whose distance
is left to be filled in.  Finished code has one record for each of them, in the order
in which they were appended, and each record names the place where its pair stands.
Refused commands leave no record, and neither does anything else that is appended.
-/

/-- A pair of instructions that is left to be filled in, and what it refers to. -/
structure LinkPair where
  /-- The register of the `auipc` in front. -/
  base : Register
  second : Instruction
  target : RelocationTarget
  kind : RelocationKind
  addend : Int64
  deriving Repr, DecidableEq

namespace LinkPair

/-- The record of a pair at an offset. -/
def record (pair : LinkPair) (offset : Nat) : Relocation :=
  ⟨offset, pair.target, pair.kind, pair.addend⟩

/-- Finished code holds a pair, with zeros for what is left to be filled in. -/
def StandsAt
    (pair : LinkPair)
    (emitted : EmittedCode)
    (offset : Nat) :
    Prop :=
  ∃ high low,
    (Instruction.u .auipc pair.base 0).encode = .ok high ∧ pair.second.encode = .ok low ∧
      emitted.wordAt? offset = some high ∧ emitted.wordAt? (offset + 4) = some low

end LinkPair

/-- The pair that a command asks for. -/
def Command.linkPair? (config : Config) : Command → Option LinkPair
  | .call link (.relocated target addend) =>
      some ⟨config.callScratch, .i .jalr link config.callScratch 0, target, .call, addend⟩
  | .relocatedAddress rd target .load addend =>
      some ⟨rd, .i .ld rd rd 0, target, .load, addend⟩
  | .relocatedAddress rd target .addi addend =>
      some ⟨rd, .i .addi rd rd 0, target, .addi, addend⟩
  | _ =>
      none

namespace Session

/-- The pair that a command appends if it succeeds, with the index of its descriptor. -/
def linkPair? (session : Session) (command : Command) : Option (Nat × LinkPair) :=
  if (session.perform command).1.isOk then
    (command.linkPair? session.config).map (session.layout.descriptors.size, ·)
  else
    none

/-- The pairs that commands append, one after the other. -/
def linkPairs (session : Session) : List Command → List (Nat × LinkPair)
  | [] =>
      []
  | command :: rest =>
      (session.linkPair? command).toList ++ (session.perform command).2.linkPairs rest

end Session

/-!
## Pairs of a layout
-/

namespace Operation

/-- The pair that an operation stands for. -/
def linkPair? : Operation → Option LinkPair
  | .call (.relocated link scratch target addend) =>
      some ⟨scratch, .i .jalr link scratch 0, target, .call, addend⟩
  | .relocatedAddress rd target kind addend =>
      some ⟨rd, .i (Placement.addressOpcode kind) rd rd 0, target, kind, addend⟩
  | _ =>
      none

/-- An operation leaves a record exactly when it stands for a pair. -/
theorem relocation?_eq
    (operation : Operation)
    (offset : Nat) :
    operation.relocation? offset = operation.linkPair?.map (·.record offset) := by
  cases operation with
  | call shape =>
      cases shape <;> rfl
  | _ =>
      rfl

/-- A pair takes the same instructions wherever it stands. -/
theorem expand_of_linkPair?
    {operation : Operation}
    {pair : LinkPair}
    (isPair : operation.linkPair? = some pair)
    (placement : Placement)
    (pc : Nat) :
    placement.expand pc operation = .ok [.u .auipc pair.base 0, pair.second] := by
  cases operation with
  | call shape =>
      cases shape with
      | relocated link scratch target addend =>
          cases isPair
          rfl
      | _ =>
          cases isPair
  | relocatedAddress rd target kind addend =>
      cases isPair
      rfl
  | _ =>
      cases isPair

end Operation

namespace Layout

/-- The operations of a layout, in order. -/
def operations (layout : Layout) : List Operation :=
  layout.descriptors.toList.map (·.operation)

theorem length_operations (layout : Layout) :
    layout.operations.length = layout.descriptors.size := by
  rw [operations, List.length_map, Array.length_toList]

/-- The pairs of a layout, each with the index of its descriptor. -/
def linkPairs (layout : Layout) : List (Nat × LinkPair) :=
  layout.operations.zipIdx.filterMap fun (operation, index) =>
    operation.linkPair?.map (index, ·)

theorem Evolves.operations_eq
    {before after : Layout}
    (evolves : before.Evolves after) :
    after.operations = before.operations := by
  have viaAppended (layout : Layout) :
      layout.operations = (asAppended layout.descriptors).toList.map (·.operation) := by
    rw [asAppended, Array.toList_map, List.map_map]
    rfl
  rw [viaAppended, viaAppended, evolves.asAppended_eq]

theorem linkPairs_push
    (layout : Layout)
    (operation : Operation) :
    (layout.push (.ofOperation operation)).linkPairs =
      layout.linkPairs ++
        (operation.linkPair?.map (layout.descriptors.size, ·)).toList := by
  have operations :
      (layout.push (.ofOperation operation)).operations = layout.operations ++ [operation] := by
    simp [operations, push, Descriptor.ofOperation]
  rw [linkPairs, operations, List.zipIdx_append, List.filterMap_append, linkPairs,
    length_operations]
  cases isPair : operation.linkPair? with
  | none =>
      simp [isPair]
  | some pair =>
      simp [isPair]

/-- The pairs of a layout are those of its descriptors. -/
theorem mem_linkPairs_iff
    {layout : Layout}
    {index : Nat}
    {pair : LinkPair} :
    (index, pair) ∈ layout.linkPairs ↔
      ∃ descriptor,
        layout.descriptors[index]? = some descriptor ∧
          descriptor.operation.linkPair? = some pair := by
  simp [linkPairs, operations, List.mem_zipIdx_iff_getElem?]

/-- Pairs come in the order of their descriptors. -/
theorem pairwise_linkPairs (layout : Layout) :
    layout.linkPairs.Pairwise fun early late => early.1 < late.1 := by
  have indices :
      layout.operations.zipIdx.Pairwise fun early late => early.2 < late.2 := by
    apply List.pairwise_map.mp
    change (layout.operations.zipIdx.map Prod.snd).Pairwise (· < ·)
    rw [List.zipIdx_map_snd]
    exact List.pairwise_lt_range'
  rw [linkPairs, List.pairwise_filterMap]
  refine indices.imp ?_
  rintro ⟨early, first⟩ ⟨late, second⟩ order one isOne other isOther
  obtain ⟨-, -, rfl⟩ := Option.map_eq_some_iff.mp isOne
  obtain ⟨-, -, rfl⟩ := Option.map_eq_some_iff.mp isOther
  exact order

/-- The records of a layout are those of its pairs, at the start of their descriptors. -/
theorem relocations_eq
    {layout : Layout}
    (partitioned : Partitioned layout.groups layout.descriptors)
    (placed : Placed layout.groups layout.descriptors) :
    (layout.relocations layout.descriptorOffsets).toList =
      layout.linkPairs.map fun entry =>
        entry.2.record (startOf layout.descriptors entry.1) := by
  have numbered :
      (layout.descriptors.zip (starts layout.descriptors layout.descriptors.size)).toList =
        layout.descriptors.toList.zipIdx.map fun entry =>
          (entry.1, startOf layout.descriptors entry.2) := by
    rw [Array.toList_zip, starts, Array.toList_map, Array.toList_range, List.zip_map_right,
      List.zipIdx_eq_zip_range', List.range_eq_range', Array.length_toList]
    rfl
  rw [descriptorOffsets_eq partitioned placed, relocations, Array.toList_filterMap, numbered,
    List.filterMap_map, linkPairs, operations, List.zipIdx_map, List.filterMap_map,
    List.map_filterMap]
  -- Both sides now filter the numbered descriptors.
  congr 1
  funext entry
  show entry.1.operation.relocation? _ = _
  rw [Operation.relocation?_eq, Function.comp_apply, Option.map_map]
  rfl

theorem relocations_of_write
    {layout : Layout}
    {pool : DataPool}
    {config : Config}
    {stats : RelaxStats}
    {emitted : EmittedCode}
    (result : layout.write pool config stats = .ok emitted) :
    emitted.relocations = layout.relocations layout.descriptorOffsets := by
  obtain ⟨dataOffset, -, result⟩ := bind_eq_ok_iff.mp result
  obtain ⟨code, -, isEmitted⟩ := bind_eq_ok_iff.mp result
  cases isEmitted
  rfl

namespace Finished

variable
  {layout : Layout}
  {pool : DataPool}
  {scratch : Register}
  {emitted : EmittedCode}
  {index : Nat}
  {pair : LinkPair}

/-- A pair stands where its descriptor starts and takes two words. -/
theorem standsAt
    (finished : layout.Finished pool scratch emitted)
    (isPair : (index, pair) ∈ layout.linkPairs) :
    pair.StandsAt emitted (startOf layout.descriptors index) ∧
      startOf layout.descriptors (index + 1) = startOf layout.descriptors index + 8 := by
  obtain ⟨descriptor, found, isPair⟩ := mem_linkPairs_iff.mp isPair
  obtain ⟨instructions, words, expanded, encodes, size, -, stand⟩ := finished.wordsAt_code found
  rw [Operation.expand_of_linkPair? isPair] at expanded
  cases expanded
  obtain ⟨high, second, highEncodes, secondEncodes, rfl⟩ :=
    Instruction.encodeAll_cons_eq_ok_iff.mp encodes
  obtain ⟨low, nothing, lowEncodes, isNothing, rfl⟩ :=
    Instruction.encodeAll_cons_eq_ok_iff.mp secondEncodes
  cases isNothing
  have reads {offset : Nat} {word : Word}
      (read : readBytes? (emitted.code ++ #[]) offset 4 = some word.toNat) :
      emitted.wordAt? offset = some word := by
    rw [Array.append_empty] at read
    rw [EmittedCode.wordAt?, read, Option.map_some, UInt32.ofNat_toNat]
  obtain ⟨readsHigh, readsLow, -⟩ := stand #[]
  refine ⟨⟨high, low, highEncodes, lowEncodes, reads readsHigh, reads readsLow⟩, ?_⟩
  rw [startOf_succ found, ← size]
  rfl

/-- What comes behind a pair starts later. -/
theorem startOf_lt
    (finished : layout.Finished pool scratch emitted)
    (isPair : (index, pair) ∈ layout.linkPairs)
    {later : Nat}
    (order : index < later) :
    startOf layout.descriptors index < startOf layout.descriptors later := by
  have behind := startOf_mono layout.descriptors (Nat.succ_le_of_lt order)
  rw [(finished.standsAt isPair).2] at behind
  omega

end Finished

end Layout

/-!
## Pairs of a session
-/

namespace Session

variable
  {session : Session}

/-- An operation that is appended adds its pair, if it is one. -/
theorem linkPairs_append
    (session : Session)
    (operation : Operation) :
    (session.append operation).2.layout.linkPairs =
      session.layout.linkPairs ++
        (if (session.append operation).1.isOk then
          operation.linkPair?.map (session.layout.descriptors.size, ·)
        else
          none).toList := by
  rcases session.append_cases operation with ⟨failure, fails⟩ | ⟨-, appends⟩
  · rw [fails]
    exact (List.append_nil _).symm
  · rw [appends]
    exact Layout.linkPairs_push _ _

theorem linkPairs_append_of_none
    {operation : Operation}
    (plain : operation.linkPair? = none) :
    (session.append operation).2.layout.linkPairs = session.layout.linkPairs := by
  rw [linkPairs_append, plain]
  split
  · exact List.append_nil _
  · exact List.append_nil _

theorem linkPairs_appendJumpChecked
    (checked : Except EmissionError JumpKind)
    (target : JumpTarget) :
    (session.appendJumpChecked checked target).2.layout.linkPairs =
      session.layout.linkPairs := by
  cases outcome : (session.appendJumpChecked checked target).1 with
  | error failure =>
      rw [unharmed_appendJumpChecked checked target failure outcome]
  | ok id =>
      obtain ⟨kind, -, -, after⟩ := appendJumpChecked_eq_ok outcome
      rw [after]
      exact (Layout.linkPairs_push _ _).trans (List.append_nil _)

theorem linkPairs_appendConstant
    {inline : Sequence → Operation}
    {pooled : Nat → Operation}
    (value : UInt64)
    (plainInline : ∀ sequence, (inline sequence).linkPair? = none)
    (plainPooled : ∀ slot, (pooled slot).linkPair? = none) :
    (session.appendConstant value inline pooled).2.layout.linkPairs =
      session.layout.linkPairs := by
  unfold appendConstant
  split
  · rfl
  · exact linkPairs_append_of_none (plainInline _)
  · have becomes := session.pooled_appendPooled value pooled
    generalize session.appendPooled value pooled = outcome at becomes ⊢
    cases becomes with
    | @appended slot =>
        refine (Layout.linkPairs_push _ _).trans ?_
        rw [plainPooled slot]
        exact List.append_nil _
    | _ =>
        rfl

/-- Relaxation leaves the operations as they are, also where it fails. -/
theorem linkPairs_relax
    (wellFormed : session.layout.WellFormed) :
    session.relax.2.layout.linkPairs = session.layout.linkPairs := by
  have operations : session.relax.2.layout.operations = session.layout.operations :=
    (evolves_relax wellFormed).operations_eq
  rw [Layout.linkPairs, operations, Layout.linkPairs]

/-- A relocated address is one of the two pairs that can be asked for. -/
theorem linkPair?_relocatedAddress
    {rd : Register}
    {target : RelocationTarget}
    {kind : RelocationKind}
    {addend : Int64}
    (notCall : kind ≠ .call)
    (config : Config) :
    (Operation.relocatedAddress rd target kind addend).linkPair? =
      (Command.relocatedAddress rd target kind addend).linkPair? config := by
  cases kind with
  | addi =>
      rfl
  | load =>
      rfl
  | call =>
      exact absurd rfl notCall

/-- An operation stands for the pair that its command asks for. -/
theorem linkPair?_of_action
    {command : Command}
    {operation : Operation}
    (isAction : session.action command = .operation (.ok operation)) :
    operation.linkPair? = command.linkPair? session.config := by
  cases command with
  | register op rd rs1 rs2 =>
      injection isAction with request
      obtain ⟨second, rfl, -⟩ := Request.register_eq_ok request
      rfl
  | immediate op rd rs1 imm =>
      injection isAction with request
      obtain ⟨rfl, -⟩ := Request.immediate_eq_ok request
      rfl
  | shift op rd rs1 amount =>
      injection isAction with request
      obtain ⟨rfl, -⟩ := Request.shift_eq_ok request
      rfl
  | store op rs2 rs1 imm =>
      injection isAction with request
      obtain ⟨rfl, -⟩ := Request.store_eq_ok request
      rfl
  | upper op rd imm =>
      injection isAction with request
      obtain ⟨rfl, -⟩ := Request.upper_eq_ok request
      rfl
  | move rd rs width =>
      injection isAction with request
      obtain ⟨instruction, rfl, -⟩ := Request.move_eq_ok request
      rfl
  | call link target =>
      cases target with
      | register base offset =>
          injection isAction with request
          obtain ⟨-, -, request⟩ := bind_eq_ok_iff.mp request
          obtain ⟨rfl, -⟩ := indirectCall_eq_ok request
          rfl
      | relocated symbol addend =>
          injection isAction with request
          obtain ⟨-, -, request⟩ := bind_eq_ok_iff.mp request
          cases request
          rfl
      | absolute address =>
          cases isAction
  | dataLoad op rd slot =>
      injection isAction with request
      obtain ⟨rfl, -⟩ := pooledLoad_eq_ok request
      rfl
  | labelAddress rd label =>
      injection isAction with request
      obtain ⟨rfl, -⟩ := labelAddress_eq_ok request
      rfl
  | relocatedAddress rd target kind addend =>
      injection isAction with request
      obtain ⟨rfl, notCall⟩ := Request.relocatedAddress_eq_ok request
      exact linkPair?_relocatedAddress notCall session.config
  | _ =>
      cases isAction

/-- Only commands that append an operation ask for a pair. -/
theorem linkPair?_eq_none
    {command : Command}
    (noOperation : ∀ checked, session.action command ≠ .operation checked) :
    command.linkPair? session.config = none := by
  cases command with
  | call link target =>
      cases target with
      | relocated symbol addend =>
          exact absurd rfl (noOperation _)
      | _ =>
          rfl
  | relocatedAddress rd target kind addend =>
      exact absurd rfl (noOperation _)
  | _ =>
      rfl

/-- The operations on a constant stand for no pair. -/
theorem linkPair?_constant_of_action
    {command : Command}
    {checked : Except EmissionError Unit}
    {value : UInt64}
    {inline : Sequence → Operation}
    {pooled : Nat → Operation}
    (isAction : session.action command = .constant checked value inline pooled) :
    (∀ sequence, (inline sequence).linkPair? = none) ∧
      ∀ slot, (pooled slot).linkPair? = none := by
  cases command with
  | loadConstant rd constant =>
      cases isAction
      exact ⟨fun _ => rfl, fun _ => rfl⟩
  | call link target =>
      cases target <;> cases isAction
      exact ⟨fun _ => rfl, fun _ => rfl⟩
  | _ =>
      cases isAction

theorem linkPairs_perform_of_noOperation
    (wellFormed : session.layout.WellFormed)
    {command : Command}
    (noOperation : ∀ checked, session.action command ≠ .operation checked) :
    (session.perform command).2.layout.linkPairs = session.layout.linkPairs := by
  rw [perform_eq_act]
  cases isAction : session.action command with
  | bindLabel label =>
      show (session.bindLabel label).2.layout.linkPairs = _
      unfold bindLabel
      split
      · rfl
      · rfl
      · dsimp only
        split <;> rfl
  | operation checked =>
      exact absurd isAction (noOperation checked)
  | jump checked target =>
      exact linkPairs_appendJumpChecked checked target
  | constant checked value inline pooled =>
      obtain ⟨plainInline, plainPooled⟩ := linkPair?_constant_of_action isAction
      cases checked with
      | error cause =>
          rfl
      | ok passed =>
          exact linkPairs_appendConstant value plainInline plainPooled
  | relax =>
      exact linkPairs_relax wellFormed
  | _ =>
      rfl

/-- A command adds the pair that it asks for, if it succeeds, and no other. -/
theorem linkPairs_perform
    (wellFormed : session.layout.WellFormed)
    (command : Command) :
    (session.perform command).2.layout.linkPairs =
      session.layout.linkPairs ++ (session.linkPair? command).toList := by
  by_cases isOperation : ∃ checked, session.action command = .operation checked
  · obtain ⟨checked, isAction⟩ := isOperation
    rw [linkPair?, perform_eq_act, isAction, act, isOk_answer]
    cases checked with
    | error cause =>
        exact (List.append_nil _).symm
    | ok operation =>
        rw [← linkPair?_of_action isAction]
        exact linkPairs_append session operation
  · have noOperation : ∀ checked, session.action command ≠ .operation checked :=
      fun checked isAction => isOperation ⟨checked, isAction⟩
    rw [linkPairs_perform_of_noOperation wellFormed noOperation, linkPair?,
      linkPair?_eq_none noOperation, Option.map_none, ite_self]
    exact (List.append_nil _).symm

theorem linkPairs_run
    (wellFormed : session.layout.WellFormed)
    (commands : List Command) :
    (session.run commands).layout.linkPairs =
      session.layout.linkPairs ++ session.linkPairs commands := by
  induction commands generalizing session with
  | nil =>
      exact (List.append_nil _).symm
  | cons command rest inductionHypothesis =>
      have changes := run_changes_any session [command]
      have later := inductionHypothesis (changes.wellFormed wellFormed)
      rw [linkPairs, ← List.append_assoc, ← linkPairs_perform wellFormed]
      exact later

/--
Finished code has one record for each relocated call and each relocated address that
was appended, in this order and at increasing offsets.  A record carries the target,
the kind and the addend that were asked for, and names the final offset of its
descriptor.  The pair that was asked for stands there: an auipc, and a jalr, a load or
an addition through its register.  Nothing else that was appended has a record.  The
offsets are those of a layout that fits.
-/
theorem relocations_match_code
    {config : Config}
    {commands : List Command}
    {emitted : EmittedCode}
    (finishes : ((start config).run commands).finish = .ok emitted) :
    let layout := ((start config).run commands).relax.2.layout
    let pairs := (start config).linkPairs commands
    let records := emitted.relocations.toList
    layout.fits = true ∧
      List.Forall₂
          (fun (index, pair) record =>
            layout.descriptorOffsets[index]? = some record.offset ∧
              record = pair.record record.offset ∧ pair.StandsAt emitted record.offset)
          pairs records ∧
      records.Pairwise (fun early late => early.offset < late.offset) ∧
      ∀ index pair,
        (index, pair) ∈ pairs ↔
          ∃ descriptor,
            layout.descriptors[index]? = some descriptor ∧
              descriptor.operation.linkPair? = some pair := by
  intro layout pairs records
  have wellFormed := wellFormed_run config commands
  obtain ⟨⟨stats, succeeds, -⟩, finished⟩ := finish_eq_ok wellFormed finishes
  have partitioned := (wellFormed_relax wellFormed).partitioned
  have isPairs : layout.linkPairs = pairs :=
    (linkPairs_relax wellFormed).trans
      (linkPairs_run Layout.wellFormed_empty commands)
  have isRecords :
      records =
        pairs.map fun entry =>
          entry.2.record (Layout.startOf layout.descriptors entry.1) := by
    obtain ⟨stats, -, writes⟩ := exists_relax_of_finish finishes
    rw [← isPairs, ← Layout.relocations_eq partitioned finished.placed,
      ← Layout.relocations_of_write writes]
  rw [isRecords, ← isPairs]
  refine ⟨(Layout.relaxWithin_eq_ok succeeds).1.fits, ?_, ?_,
    fun index pair => Layout.mem_linkPairs_iff⟩
  · rw [List.forall₂_map_right_iff, List.forall₂_same]
    rintro ⟨index, pair⟩ isPair
    obtain ⟨descriptor, found, -⟩ := Layout.mem_linkPairs_iff.mp isPair
    obtain ⟨inside, -⟩ := Array.getElem?_eq_some_iff.mp found
    refine ⟨?_, rfl, (finished.standsAt isPair).1⟩
    rw [Layout.descriptorOffsets_eq partitioned finished.placed]
    exact Layout.getElem?_starts inside
  · rw [List.pairwise_map]
    refine (Layout.pairwise_linkPairs layout).imp_of_mem ?_
    intro early late isEarly _ order
    exact finished.startOf_lt isEarly order

/--
A relocated call behind a branch that is kept long, an address that is refused, a
relaxation that fails, and two more addresses, one of them behind a bound label.
-/
def linksBehindBranch : List Command :=
  [.newLabel, .branch .beq (.x 10) (.x 11) ⟨0⟩, .keepLong ⟨0⟩,
    .call .ra (.relocated (.symbol "memcpy") (-7)),
    .relocatedAddress (.x 12) (.symbol "table") .call 0, .relax,
    .relocatedAddress (.x 12) (.address 0x4000) .load 8, .bindLabel ⟨0⟩,
    .relocatedAddress (.x 13) (.symbol "table") .addi 0]

/-- The branch grows to three words, and all pairs move behind it. -/
theorem relocations_match_code_linksBehindBranch :
    let pairs := (start {}).linkPairs linksBehindBranch
    pairs.map Prod.fst = [1, 2, 3] ∧
      ∃ emitted,
        ((start {}).run linksBehindBranch).finish = .ok emitted ∧
          emitted.relocations.toList =
            [⟨12, .symbol "memcpy", .call, -7⟩, ⟨20, .address 0x4000, .load, 8⟩,
              ⟨28, .symbol "table", .addi, 0⟩] ∧
          emitted.words.toList.drop 3 =
            [0x00000397, 0x000380e7, 0x00000617, 0x00063603, 0x00000697, 0x00068693] ∧
          List.Forall₂
            (fun (_, pair) record =>
              record = pair.record record.offset ∧ pair.StandsAt emitted record.offset)
            pairs emitted.relocations.toList ∧
          emitted.relocations.toList.Pairwise
            fun early late => early.offset < late.offset := by
  dsimp only
  have finishes :
      ((start {}).run linksBehindBranch).finish.map
          (fun emitted => (emitted.relocations.toList, emitted.words.toList.drop 3)) =
        .ok
          ([⟨12, .symbol "memcpy", .call, -7⟩, ⟨20, .address 0x4000, .load, 8⟩,
              ⟨28, .symbol "table", .addi, 0⟩],
            [0x00000397, 0x000380e7, 0x00000617, 0x00063603, 0x00000697, 0x00068693]) := by
    decide +kernel
  obtain ⟨emitted, finishes, outcome⟩ := map_eq_ok_iff.mp finishes
  obtain ⟨relocations, words⟩ := Prod.mk.inj outcome
  obtain ⟨-, recorded, ascending, -⟩ := relocations_match_code finishes
  refine ⟨?_, emitted, finishes, relocations, words, ?_, ascending⟩
  · decide +kernel
  · exact recorded.imp fun _ _ holds => holds.2

end Session

end Rv64Codegen
