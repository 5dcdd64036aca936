import Rv64Codegen.Proofs.Session.PoolCalls
import Rv64Codegen.Proofs.Simulation.Source

namespace Rv64Codegen

/-!
# Sessions follow their source

A session that is built by successful commands holds one descriptor for every
statement of its source program, in order; labels are bound to groups that start
at the statement where the source has them; and the pool slots that constants are
loaded from still hold these constants, unless a reservation has wrapped.
-/

theorem Layout.labelGroup?_congr
    {before after : Layout}
    (same : after.labels = before.labels)
    (label : LabelId) :
    after.labelGroup? label = before.labelGroup? label := by
  rw [labelGroup?, same, labelGroup?]

namespace Session

/-- The operation that a statement has been turned into. -/
def Renders
    (session : Session) :
    Statement → Operation → Prop
  | .plain instruction, operation =>
      operation = .instruction instruction ∧ (instruction.result? fun _ => 0).isSome
  | .constant rd value, operation =>
      rd.index ≠ 0 ∧
        ((∃ sequence minSpan,
            operation = .loadConstant rd sequence ∧
              Constant.synthesize value minSpan = some sequence) ∨
          ∃ slot,
            operation = .dataLoad .ld rd rd slot ∧
              session.pool.HoldsAt slot value.toUInt64)
  | .jump kind target, operation =>
      ∃ id jump,
        operation = .jump id ∧ session.layout.jumps[id.index]? = some jump ∧
          jump.kind = kind ∧ jump.target = target

/-- Slots that descriptors load from hold what they held. -/
def KeepsSlots (before after : Session) : Prop :=
  ∀ (index : Nat) (descriptor : Descriptor) (op : Opcode) (rd base : Register) (slot : Nat)
    (value : UInt64),
    before.layout.descriptors[index]? = some descriptor →
      descriptor.operation = .dataLoad op rd base slot →
        before.pool.HoldsAt slot value → after.pool.HoldsAt slot value

end Session

namespace Source

open Session

/-- A session with one descriptor for every statement, and labels where they belong. -/
structure Tracks
    (source : Source)
    (session : Session) :
    Prop where
  size : session.layout.descriptors.size = source.statements.size
  renders :
    ∀ (index : Nat) (statement : Statement),
      source.statements[index]? = some statement →
        ∃ descriptor,
          session.layout.descriptors[index]? = some descriptor ∧
            session.Renders statement descriptor.operation
  count : source.positions.size = session.layout.labels.size
  labels :
    ∀ (label : LabelId) (target : GroupId),
      session.layout.labelGroup? label = some target →
        ∃ group,
          session.layout.groups[target.index]? = some group ∧
            source.positions[label.index]?.join = some group.first

namespace Tracks

variable
  {source : Source}
  {session after : Session}

/-- What a statement has been turned into stays in place. -/
theorem renders_later
    (tracks : source.Tracks session)
    (keeps : session.layout.Keeps after.layout)
    (slots : session.KeepsSlots after)
    {index : Nat}
    {statement : Statement}
    (found : source.statements[index]? = some statement) :
    ∃ descriptor,
      after.layout.descriptors[index]? = some descriptor ∧
        after.Renders statement descriptor.operation := by
  obtain ⟨descriptor, foundDescriptor, renders⟩ := tracks.renders index statement found
  obtain ⟨later, foundLater, sameOperation⟩ :=
    keeps.descriptors index descriptor foundDescriptor
  refine ⟨later, foundLater, ?_⟩
  rw [sameOperation]
  cases statement with
  | plain instruction =>
      exact renders
  | constant rd value =>
      obtain ⟨notZero, inline | ⟨slot, isLoad, holds⟩⟩ := renders
      · exact ⟨notZero, Or.inl inline⟩
      · refine ⟨notZero, Or.inr ⟨slot, isLoad, ?_⟩⟩
        exact slots index descriptor _ _ _ slot _ foundDescriptor isLoad holds
  | jump kind target =>
      obtain ⟨id, jump, isJump, foundJump, isKind, isTarget⟩ := renders
      obtain ⟨laterJump, foundLaterJump, persists⟩ := keeps.jumps id.index jump foundJump
      exact ⟨id, laterJump, isJump, foundLaterJump, persists.kind.trans isKind,
        persists.target.trans isTarget⟩

/-- Labels stay where they belong when no label is bound. -/
theorem labels_later
    (tracks : source.Tracks session)
    (keeps : session.layout.Keeps after.layout)
    (same : ∀ label, after.layout.labelGroup? label = session.layout.labelGroup? label)
    {label : LabelId}
    {target : GroupId}
    (isBound : after.layout.labelGroup? label = some target) :
    ∃ group,
      after.layout.groups[target.index]? = some group ∧
        source.positions[label.index]?.join = some group.first := by
  rw [same] at isBound
  obtain ⟨group, found, position⟩ := tracks.labels label target isBound
  obtain ⟨later, foundLater, first, -⟩ := keeps.groups target.index group found
  exact ⟨later, foundLater, first ▸ position⟩

/-- Nothing is appended and no label is created or bound. -/
theorem keep
    (tracks : source.Tracks session)
    (keeps : session.layout.Keeps after.layout)
    (slots : session.KeepsSlots after)
    (size : after.layout.descriptors.size = session.layout.descriptors.size)
    (labels : after.layout.labels = session.layout.labels) :
    source.Tracks after where
  size := size.trans tracks.size
  renders := fun _ _ found => tracks.renders_later keeps slots found
  count := by
    rw [labels]
    exact tracks.count
  labels := fun _ _ isBound =>
    tracks.labels_later keeps (Layout.labelGroup?_congr labels) isBound

/-- One statement is appended. -/
theorem push
    (tracks : source.Tracks session)
    (keeps : session.layout.Keeps after.layout)
    (slots : session.KeepsSlots after)
    {descriptor : Descriptor}
    {statement : Statement}
    (descriptors : after.layout.descriptors = session.layout.descriptors.push descriptor)
    (renders : after.Renders statement descriptor.operation)
    (labels : after.layout.labels = session.layout.labels) :
    { source with statements := source.statements.push statement }.Tracks after where
  size := by
    rw [descriptors, Array.size_push, Array.size_push, tracks.size]
  renders := by
    intro index other found
    rw [Array.getElem?_push] at found
    split at found
    · rename_i isNew
      cases found
      refine ⟨descriptor, ?_, renders⟩
      rw [isNew, descriptors, ← tracks.size]
      exact Array.getElem?_push_size
    · exact tracks.renders_later keeps slots found
  count := by
    rw [labels]
    exact tracks.count
  labels := fun _ _ isBound =>
    tracks.labels_later keeps (Layout.labelGroup?_congr labels) isBound

/-- One label is created. -/
theorem addLabel
    (tracks : source.Tracks session) :
    { source with positions := source.positions.push none }.Tracks
      { session with layout := session.layout.addLabel } where
  size := tracks.size
  renders := tracks.renders
  count := by
    show (source.positions.push none).size = (session.layout.labels.push none).size
    rw [Array.size_push, Array.size_push, tracks.count]
  labels := by
    intro label target isBound
    rw [Layout.labelGroup?_addLabel] at isBound
    obtain ⟨group, found, position⟩ := tracks.labels label target isBound
    refine ⟨group, found, ?_⟩
    rw [Option.join_eq_some_iff] at position
    rw [Layout.getElem?_push_of_some none position]
    rfl

/-- A label is bound in front of the next statement. -/
theorem bindLabel
    (tracks : source.Tracks session)
    {label : LabelId}
    {group : Group}
    (unbound : session.layout.labels[label.index]? = some none)
    (found : session.layout.groups[session.layout.current.index]? = some group)
    (here : group.first = session.layout.descriptors.size) :
    { source with
        positions :=
          source.positions.modify label.index fun _ => some source.statements.size }.Tracks
      { session with layout := session.layout.bindLabel label session.layout.current } where
  size := tracks.size
  renders := tracks.renders
  count := by
    show (source.positions.modify _ _).size = (session.layout.labels.modify _ _).size
    rw [Array.size_modify, Array.size_modify, tracks.count]
  labels := by
    obtain ⟨inside, -⟩ := Array.getElem?_eq_some_iff.mp unbound
    intro other target isBound
    have marked (index : Nat) (old : Group)
        (foundOld : session.layout.groups[index]? = some old) :
        ∃ later,
          (session.layout.groups.modify session.layout.current.index
              ({ · with isTarget := true }))[index]? = some later ∧
            later.first = old.first := by
      rw [Array.getElem?_modify, foundOld]
      split
      · exact ⟨_, rfl, rfl⟩
      · exact ⟨_, rfl, rfl⟩
    show ∃ group, (session.layout.groups.modify _ _)[target.index]? = some group ∧
      (source.positions.modify _ _)[other.index]?.join = some group.first
    rw [Layout.labelGroup?_bindLabel] at isBound
    by_cases isLabel : label.index = other.index
    · rw [if_pos ⟨isLabel, inside⟩] at isBound
      cases isBound
      obtain ⟨later, foundLater, first⟩ := marked _ group found
      refine ⟨later, foundLater, ?_⟩
      rw [← tracks.count] at inside
      rw [Array.getElem?_modify, if_pos isLabel, ← isLabel, Array.getElem?_eq_getElem inside,
        first, here, tracks.size]
      rfl
    · rw [if_neg fun both => isLabel both.1] at isBound
      obtain ⟨old, foundOld, position⟩ := tracks.labels other target isBound
      obtain ⟨later, foundLater, first⟩ := marked _ old foundOld
      refine ⟨later, foundLater, ?_⟩
      rw [Array.getElem?_modify, if_neg isLabel, first]
      exact position

end Tracks

end Source

namespace Session

/-!
## What successful commands append
-/

theorem append_eq_ok
    {session : Session}
    {operation : Operation}
    (succeeds : (session.append operation).1.isOk = true) :
    (session.append operation).2 =
      { session with layout := session.layout.push (Descriptor.ofOperation operation) } := by
  rcases session.append_cases operation with ⟨failure, fails⟩ | ⟨-, appends⟩
  · rw [fails] at succeeds
    cases succeeds
  · rw [appends]

theorem appendChecked_eq_ok
    {session : Session}
    {checked : Except EmissionError Operation}
    (succeeds : (session.appendChecked checked).1.isOk = true) :
    ∃ operation,
      checked = .ok operation ∧
        (session.appendChecked checked).2 =
          { session with layout := session.layout.push (Descriptor.ofOperation operation) } := by
  rcases session.appendChecked_cases checked with
    ⟨failure, fails⟩ | ⟨operation, isChecked, -, appends⟩
  · rw [fails] at succeeds
    cases succeeds
  · rw [appends]
    exact ⟨operation, isChecked, rfl⟩

/-- A constant is in place as the sequence that synthesis finds, or has a slot of the pool. -/
theorem appendConstant_eq_ok
    {session : Session}
    {value : UInt64}
    {inline : Sequence → Operation}
    {pooled : Nat → Operation}
    (succeeds : (session.appendConstant value inline pooled).1.isOk = true) :
    (∃ sequence,
      Constant.synthesize value.toInt64 session.config.constants.srliMinSpan = some sequence ∧
        (session.appendConstant value inline pooled).2 =
          { session with
            layout := session.layout.push (Descriptor.ofOperation (inline sequence)) }) ∨
      ∃ slot pool,
        Constant.plan value.toInt64 session.config.constants session.reachesPool = .ok .pool ∧
          session.pool.intern value = .ok (slot, pool) ∧
            (session.appendConstant value inline pooled).2 =
              { session with
                layout := session.layout.push (Descriptor.ofOperation (pooled slot))
                pool := pool } := by
  unfold appendConstant at succeeds ⊢
  split at succeeds
  · cases succeeds
  · rename_i sequence plans
    exact Or.inl ⟨sequence, plan_eq_inline plans, append_eq_ok succeeds⟩
  · rename_i plans
    have becomes := session.pooled_appendPooled value pooled
    generalize session.appendPooled value pooled = outcome at succeeds becomes ⊢
    cases becomes with
    | appended interns =>
        exact Or.inr ⟨_, _, plans, interns, rfl⟩
    | _ =>
        cases succeeds

theorem loadConstant_eq_ok
    {session : Session}
    (sound : session.pool.Sound)
    {rd : Register}
    {value : Int64}
    (succeeds : (session.loadConstant rd value).1.isOk = true) :
    ∃ operation pool,
      (session.loadConstant rd value).2 =
          { session with
            layout := session.layout.push (Descriptor.ofOperation operation)
            pool := pool } ∧
        (∀ slot number, session.pool.HoldsAt slot number → pool.HoldsAt slot number) ∧
          rd.index ≠ 0 ∧
            ((∃ sequence minSpan,
                operation = .loadConstant rd sequence ∧
                  Constant.synthesize value minSpan = some sequence) ∨
              ∃ slot,
                operation = .dataLoad .ld rd rd slot ∧ pool.HoldsAt slot value.toUInt64) := by
  rw [loadConstant_eq] at succeeds ⊢
  split at succeeds
  · cases succeeds
  · rename_i checked
    obtain ⟨-, notZero⟩ := Request.constantDestination_eq_ok checked
    rcases appendConstant_eq_ok succeeds with
      ⟨sequence, synthesized, after⟩ | ⟨slot, pool, -, interns, after⟩
    · rw [value.toInt64_toUInt64] at synthesized
      exact ⟨_, session.pool, after, fun _ _ holds => holds, notZero,
        Or.inl ⟨sequence, _, rfl, synthesized⟩⟩
    · obtain ⟨-, holds, -, keeps⟩ := DataPool.intern_eq_ok sound interns
      exact ⟨_, pool, after, keeps, notZero, Or.inr ⟨slot, rfl, holds⟩⟩

theorem plainStatement?_eq_some
    {checked : Except EmissionError Operation}
    {statement : Option Statement}
    (known : plainStatement? checked = some statement) :
    ∃ instruction,
      checked = .ok (.instruction instruction) ∧ statement = some (.plain instruction) ∧
        (instruction.result? fun _ => 0).isSome := by
  unfold plainStatement? at known
  split at known
  · rename_i instruction
    split at known
    · rename_i hasResult
      cases known
      exact ⟨instruction, rfl, rfl, hasResult⟩
    · cases known
  · cases known

/-- Slots are kept by commands that spare them, unless a reservation wraps. -/
theorem keepsSlots_perform
    {session : Session}
    {command : Command}
    (sound : session.pool.Sound)
    (unwrapped :
      ∀ call, session.poolCall? command = some call → call.wraps session.pool = false)
    (spared : session.spares command = true) :
    session.KeepsSlots (session.perform command).2 := by
  intro index descriptor op rd base slot value found isLoad holds
  refine holdsAt_perform sound unwrapped ?_ holds
  rintro offset data rfl -
  have clear := Array.all_eq_true_iff_forall_mem.mp spared descriptor
    (Array.mem_of_getElem? found)
  rw [isLoad] at clear
  exact clear

/-- Slots are kept when the pool stays. -/
theorem keepsSlots_of_pool
    {before after : Session}
    (same : after.pool = before.pool) :
    before.KeepsSlots after := by
  intro index descriptor op rd base slot value _ _ holds
  rw [same]
  exact holds

end Session

namespace Source.Tracks

open Session

variable
  {source : Source}
  {session : Session}

/-- A checked instruction is appended. -/
theorem appendChecked
    (tracks : source.Tracks session)
    {checked : Except EmissionError Operation}
    (known : (plainStatement? checked).isSome = true)
    (succeeds : (session.appendChecked checked).1.isOk = true) :
    ∃ statement,
      plainStatement? checked = some (some statement) ∧
        { source with statements := source.statements.push statement }.Tracks
          (session.appendChecked checked).2 := by
  obtain ⟨statement, isStatement⟩ := Option.isSome_iff_exists.mp known
  obtain ⟨instruction, rfl, rfl, hasResult⟩ := plainStatement?_eq_some isStatement
  obtain ⟨operation, isOperation, after⟩ := appendChecked_eq_ok succeeds
  cases isOperation
  refine ⟨_, isStatement, ?_⟩
  rw [after]
  refine tracks.push (Layout.Keeps.push _ _) ?_ rfl ⟨rfl, hasResult⟩ rfl
  exact keepsSlots_of_pool rfl

/-- A jump is appended. -/
theorem appendJumpChecked
    (tracks : source.Tracks session)
    {checked : Except EmissionError JumpKind}
    {kind : JumpKind}
    {target : JumpTarget}
    (isKind : ∀ checkedKind, checked = .ok checkedKind → checkedKind = kind)
    (succeeds : (session.appendJumpChecked checked target).1.isOk = true) :
    { source with statements := source.statements.push (.jump kind target) }.Tracks
      (session.appendJumpChecked checked target).2 := by
  obtain ⟨id, accepted⟩ := isOk_eq_true_iff.mp succeeds
  obtain ⟨checkedKind, isChecked, -, after⟩ := appendJumpChecked_eq_ok accepted
  obtain rfl := isKind checkedKind isChecked
  rw [after]
  refine tracks.push (Layout.Keeps.pushFresh _ _ _) ?_ rfl ?_ rfl
  · exact keepsSlots_of_pool rfl
  · exact ⟨_, _, rfl, Array.getElem?_push_size, rfl, rfl⟩

/-- A constant is loaded. -/
theorem loadConstant
    (tracks : source.Tracks session)
    (sound : session.pool.Sound)
    {rd : Register}
    {value : Int64}
    (succeeds : (session.loadConstant rd value).1.isOk = true) :
    { source with statements := source.statements.push (.constant rd value) }.Tracks
      (session.loadConstant rd value).2 := by
  obtain ⟨operation, pool, after, keeps, renders⟩ := loadConstant_eq_ok sound succeeds
  rw [after]
  refine tracks.push (Layout.Keeps.push _ _) ?_ rfl renders rfl
  intro index descriptor op rd base slot number _ _ holds
  exact keeps slot number holds

/-- The current group starts behind all descriptors when it is empty. -/
theorem first_eq_size
    {layout : Layout}
    (wellFormed : layout.WellFormed)
    (empty : layout.currentCount = 0) :
    ∃ group,
      layout.groups[layout.current.index]? = some group ∧
        group.first = layout.descriptors.size := by
  obtain ⟨group, found⟩ := wellFormed.partitioned.exists_last
  refine ⟨group, found, ?_⟩
  have atEnd := wellFormed.partitioned.last group found
  have isBack : layout.groups.back? = some group := by
    rw [Array.back?_eq_getElem?]
    exact found
  rw [Layout.currentCount, isBack] at empty
  dsimp only at empty
  rw [← atEnd, Group.last, empty]
  rfl

/-- A label is bound, to a new group if the current one has descriptors. -/
theorem bindLabelHere
    (tracks : source.Tracks session)
    (wellFormed : session.layout.WellFormed)
    {label : LabelId}
    (succeeds : (session.bindLabel label).1.isOk = true) :
    { source with
        positions :=
          source.positions.modify label.index fun _ => some source.statements.size }.Tracks
      (session.bindLabel label).2 := by
  unfold Session.bindLabel at succeeds ⊢
  split at succeeds
  · cases succeeds
  · cases succeeds
  · rename_i unbound
    dsimp only
    by_cases empty : session.layout.currentCount = 0
    · rw [if_pos empty]
      obtain ⟨group, found, first⟩ := first_eq_size wellFormed empty
      exact tracks.bindLabel unbound found first
    · rw [if_neg empty]
      have opened : source.Tracks { session with layout := session.layout.openGroup } :=
        tracks.keep (Layout.Keeps.openGroup wellFormed) (keepsSlots_of_pool rfl) rfl rfl
      obtain ⟨group, found, first⟩ :=
        first_eq_size wellFormed.openGroup (Layout.currentCount_openGroup session.layout)
      exact opened.bindLabel unbound found first

/-- A call of the pool appends nothing. -/
theorem poolCall
    (tracks : source.Tracks session)
    {command : Command}
    {call : DataPool.Call}
    (isAction : session.action command = .pool call)
    (slots : session.KeepsSlots (session.perform command).2) :
    source.Tracks (session.perform command).2 := by
  rw [perform_eq_act, isAction] at slots ⊢
  exact tracks.keep (Layout.Keeps.refl _) slots rfl rfl

/-- Relaxation only moves things. -/
theorem relax
    (tracks : source.Tracks session)
    (wellFormed : session.layout.WellFormed) :
    source.Tracks session.relax.2 := by
  have evolves := evolves_relax wellFormed
  exact tracks.keep (Layout.Keeps.of_evolves evolves) (keepsSlots_of_pool rfl)
    evolves.descriptors.size evolves.labels

/-- A command that succeeds extends the session as it extends the source. -/
theorem perform
    (tracks : source.Tracks session)
    (wellFormed : session.layout.WellFormed)
    (sound : session.pool.Sound)
    {command : Command}
    (unwrapped :
      ∀ call, session.poolCall? command = some call → call.wraps session.pool = false)
    (succeeds : (session.perform command).1.isOk = true)
    (known : command.statement?.isSome = true)
    (spared : session.spares command = true) :
    (source.extend command).Tracks (session.perform command).2 := by
  have slots := keepsSlots_perform sound unwrapped spared
  have plain
      {checked : Except EmissionError Operation}
      (isStatement : command.statement? = plainStatement? checked)
      (succeedsChecked :
        (answer (fun _ => Reply.done) (session.appendChecked checked)).1.isOk = true)
      (isExtended : source.extend command = source.append command.statement?) :
      (source.extend command).Tracks (session.appendChecked checked).2 := by
    rw [isStatement] at known isExtended
    rw [isOk_answer] at succeedsChecked
    obtain ⟨statement, isSome, tracksAfter⟩ := tracks.appendChecked known succeedsChecked
    rw [isExtended, isSome]
    exact tracksAfter
  cases command with
  | newLabel =>
      exact tracks.addLabel
  | bindLabel label =>
      rw [Session.perform, isOk_answer] at succeeds
      exact tracks.bindLabelHere wellFormed succeeds
  | newGroup =>
      exact tracks.keep (Layout.Keeps.openGroup wellFormed) (keepsSlots_of_pool rfl) rfl rfl
  | setRegion region =>
      exact tracks.keep (Layout.Keeps.refl _) (keepsSlots_of_pool rfl) rfl rfl
  | register op rd rs1 rs2 =>
      exact plain rfl succeeds rfl
  | immediate op rd rs1 imm =>
      exact plain rfl succeeds rfl
  | shift op rd rs1 amount =>
      exact plain rfl succeeds rfl
  | store op rs2 rs1 imm =>
      cases known
  | upper op rd imm =>
      exact plain rfl succeeds rfl
  | move rd rs width =>
      exact plain rfl succeeds rfl
  | branch op rs1 rs2 label =>
      rw [Session.perform, isOk_answer] at succeeds
      exact tracks.appendJumpChecked
        (fun _ checked => (Request.branch_eq_ok checked).1) succeeds
  | branchRelative op rs1 rs2 count =>
      rw [Session.perform, isOk_answer] at succeeds
      exact tracks.appendJumpChecked
        (fun _ checked => (Request.branch_eq_ok checked).1) succeeds
  | jal rd label =>
      rw [Session.perform, isOk_answer] at succeeds
      exact tracks.appendJumpChecked (fun _ checked => (Request.jal_eq_ok checked).1) succeeds
  | jump label =>
      rw [Session.perform, isOk_answer] at succeeds
      exact tracks.appendJumpChecked (fun _ checked => (Request.jal_eq_ok checked).1) succeeds
  | keepLong id =>
      exact tracks.keep (Layout.Keeps.keepLong _ _) (keepsSlots_of_pool rfl) rfl rfl
  | loadConstant rd value =>
      rw [Session.perform, isOk_answer] at succeeds
      exact tracks.loadConstant sound succeeds
  | call link target =>
      cases known
  | dataLoad op rd slot =>
      cases known
  | labelAddress rd label =>
      cases known
  | relocatedAddress rd target kind addend =>
      cases known
  | reserveData count align =>
      exact tracks.poolCall rfl slots
  | writeData offset data =>
      exact tracks.poolCall rfl slots
  | dataConstant value =>
      exact tracks.poolCall rfl slots
  | relax =>
      exact tracks.relax wellFormed

/-- Commands that build a program take the session along with the source. -/
theorem run
    {commands : List Command}
    (tracks : source.Tracks session)
    (wellFormed : session.layout.WellFormed)
    (intact : session.pool.Intact)
    (unwrapped : session.wrapsPool commands = false)
    (built : session.builds commands = true) :
    (commands.foldl extend source).Tracks (session.run commands) := by
  induction commands generalizing source session with
  | nil =>
      exact tracks
  | cons command rest inductionHypothesis =>
      simp only [builds, Bool.and_eq_true] at built
      obtain ⟨⟨⟨succeeds, known⟩, spared⟩, builtRest⟩ := built
      obtain ⟨unwrappedHere, unwrappedRest⟩ := wrapsPool_cons_eq_false_iff.mp unwrapped
      have next := tracks.perform wellFormed intact.sound unwrappedHere succeeds known spared
      have changes := run_changes_any session [command]
      exact inductionHypothesis next (changes.wellFormed wellFormed)
        (intact_perform intact unwrappedHere) unwrappedRest builtRest

end Source.Tracks

end Rv64Codegen
