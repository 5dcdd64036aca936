import Rv64Codegen.Output.Expansion
import Rv64Codegen.Proofs.Isa.Run
import Rv64Codegen.Proofs.Outcome
import Rv64Codegen.Proofs.Program.WellFormed

namespace Rv64Codegen

/-!
# Executing a jump

A jump has five encodings: two short ones, the opposite branch over a `jal`, a
pair through a register, and the opposite branch over such a pair.  Each of them
goes to the target exactly when the condition holds and to the next descriptor
otherwise, and touches no registers but the link register and the scratch
register of a pair.
-/

/-!
## Addresses
-/

theorem ofInt_natCast (number : Nat) :
    UInt64.ofInt (number : Int) = UInt64.ofNat number := by
  apply UInt64.toNat_inj.mp
  simp only [UInt64.ofInt, UInt64.toNat_ofNat']
  omega

/-- An address and a signed distance give the address at that distance. -/
theorem ofNat_add_ofInt
    {pc target : Nat}
    {distance : Int}
    (apart : (pc : Int) + distance = target) :
    UInt64.ofNat pc + UInt64.ofInt distance = UInt64.ofNat target := by
  rw [← ofInt_natCast, ← ofInt_natCast, ← UInt64.ofInt_add, apart]

theorem ofNat_add_four (pc : Nat) :
    UInt64.ofNat pc + 4 = UInt64.ofNat (pc + 4) :=
  (UInt64.ofNat_add pc 4).symm

/-- An address with its lowest bit cleared. -/
theorem ofNat_sub_mod_two (address : UInt64) :
    UInt64.ofNat (address.toNat - address.toNat % 2) = address - address % 2 := by
  have below : address % 2 ≤ address := by
    rw [UInt64.le_iff_toNat_le, UInt64.toNat_mod]
    exact Nat.mod_le _ _
  apply UInt64.toNat_inj.mp
  rw [UInt64.toNat_sub_of_le _ _ below, UInt64.toNat_mod]
  exact UInt64.toNat_ofNat_of_lt' (Nat.lt_of_le_of_lt (Nat.sub_le _ _) address.toNat_lt)

namespace Machine

/-- The word at the program counter is the first of several steps. -/
theorem stepMany_succ
    {machine next : Machine}
    {word : Word}
    {rest : List Word}
    (stand : WordsAt machine.image machine.pc.toNat (word :: rest))
    (executed : machine.execute word = .ok next)
    (count : Nat) :
    stepMany (count + 1) machine = stepMany count next := by
  rw [stepMany, step_of_wordsAt stand, executed]
  rfl

/-- Words that stand at a small offset are found by a program counter with that offset. -/
theorem wordsAt_pc
    {machine : Machine}
    {offset : Nat}
    {words : List Word}
    (atOffset : machine.pc = UInt64.ofNat offset)
    (small : offset < UInt64.size)
    (stand : WordsAt machine.image offset words) :
    WordsAt machine.image machine.pc.toNat words := by
  rw [atOffset, UInt64.toNat_ofNat_of_lt' small]
  exact stand

/--
Execution of a control transfer: where it goes, what it links, and which
registers it leaves alone.
-/
structure Transfers
    (before after : Machine)
    (next : Nat)
    (link : Nat)
    (following : Nat)
    (scratch : Option Nat) :
    Prop where
  image : after.image = before.image
  pc : after.pc = UInt64.ofNat next
  linked : link ≠ 0 → after.read link = UInt64.ofNat following
  others :
    ∀ number, number < 32 → (link ≠ 0 → number ≠ link) → scratch ≠ some number →
      after.read number = before.read number

/-- One `jal`. -/
theorem transfers_jal
    {machine : Machine}
    {rd : Register}
    {pc target : Nat}
    {word : Word}
    (encoded : (Instruction.j .jal rd ((target : Int) - pc)).encode = .ok word)
    (atPc : machine.pc = UInt64.ofNat pc) :
    ∃ after,
      machine.execute word = .ok after ∧
        machine.Transfers after target rd.index (pc + 4) none := by
  obtain ⟨-, -, -, small⟩ := (Instruction.encode_eq_ok_iff.mp encoded).1
  refine ⟨_, execute_jal encoded, commit_image .., ?_, ?_, ?_⟩
  · rw [commit_pc, atPc]
    exact ofNat_add_ofInt (by omega)
  · intro notZero
    rw [read_commit_some machine _ _ small small, if_pos ⟨rfl, notZero⟩, atPc]
    exact ofNat_add_four pc
  · intro number numberSmall notLink _
    rw [read_commit_some machine _ _ small numberSmall, if_neg]
    rintro ⟨isLink, notZero⟩
    exact notLink notZero isLink

/-- One branch. -/
theorem transfers_branch
    {machine : Machine}
    {op : Opcode}
    {rs1 rs2 : Register}
    {pc target : Nat}
    {word : Word}
    (encoded : (Instruction.b op rs1 rs2 ((target : Int) - pc)).encode = .ok word)
    (atPc : machine.pc = UInt64.ofNat pc) :
    ∃ after,
      machine.execute word = .ok after ∧
        machine.Transfers after
          (if op.holds (machine.read rs1.index) (machine.read rs2.index) then target
            else pc + 4)
          0 (pc + 4) none := by
  refine ⟨_, execute_branch encoded, rfl, ?_, fun notZero => absurd rfl notZero,
    fun _ _ _ _ => rfl⟩
  dsimp only
  split
  · rw [atPc]
    exact ofNat_add_ofInt (by omega)
  · rw [atPc]
    exact ofNat_add_four pc

theorem length_of_jumpThrough
    {link base : Register}
    {distance : Int}
    {instructions : List Instruction}
    {words : List Word}
    (expanded : PcRelative.jumpThrough link base distance = .ok instructions)
    (encoded : Instruction.encodeAll instructions = .ok words) :
    words.length = 2 := by
  obtain ⟨⟨high, low⟩, -, isPair⟩ := bind_eq_ok_iff.mp expanded
  cases isPair
  exact Instruction.length_of_encodeAll encoded

/-- The first word of a pair leaves the upper part of an address in the base register. -/
theorem exists_base
    {machine : Machine}
    {base : Register}
    {high low : Int}
    {pc target : Nat}
    {first : Word}
    {rest : List Word}
    (encoded : (Instruction.u .auipc base high).encode = .ok first)
    (parts : high * 0x1000 + low = (target : Int) - pc)
    (stand : WordsAt machine.image pc (first :: rest))
    (atPc : machine.pc = UInt64.ofNat pc)
    (small : pc + 4 < UInt64.size)
    (usable : base.index ≠ 0) :
    ∃ middle upper,
      stepMany 1 machine = .ok middle ∧ machine.Delivers middle base.index upper 4 ∧
        upper + UInt64.ofInt low = UInt64.ofNat target ∧
          middle.pc = UInt64.ofNat (pc + 4) ∧ WordsAt middle.image middle.pc.toNat rest := by
  obtain ⟨-, -, baseSmall⟩ := (Instruction.encode_eq_ok_iff.mp encoded).1
  have standFirst := wordsAt_pc atPc (by omega) stand
  have steps := stepMany_succ standFirst (execute_auipc encoded) 0
  have delivers :=
    delivers_commit machine (machine.pc + UInt64.ofInt (high * 0x1000)) usable baseSmall
  have middlePc : (machine.commit base.index
      ⟨some (machine.pc + UInt64.ofInt (high * 0x1000)), machine.pc + 4⟩).pc =
        UInt64.ofNat (pc + 4) := by
    rw [commit_pc, atPc]
    exact ofNat_add_four pc
  refine ⟨_, _, steps, delivers, ?_, middlePc, ?_⟩
  · rw [atPc, UInt64.add_assoc, ← UInt64.ofInt_add]
    exact ofNat_add_ofInt (by omega)
  · refine wordsAt_pc middlePc small ?_
    rw [delivers.image]
    exact stand.2

/-- Behind words that deliver an address, one `jalr` goes there. -/
theorem Delivers.transfers
    {before middle : Machine}
    {link base : Register}
    {value : UInt64}
    {low : Int}
    {bytes pc : Nat}
    {word : Word}
    (delivers : before.Delivers middle base.index value bytes)
    (encoded : (Instruction.i .jalr link base low).encode = .ok word)
    (stand : WordsAt middle.image middle.pc.toNat [word])
    (atPc : middle.pc = UInt64.ofNat pc) :
    let address := (value + UInt64.ofInt low).toNat
    ∃ after,
      stepMany 1 middle = .ok after ∧
        before.Transfers after (address - address % 2) link.index (pc + 4)
          (some base.index) := by
  intro address
  obtain ⟨-, -, linkSmall, -⟩ := (Instruction.encode_eq_ok_iff.mp encoded).1
  refine ⟨_, stepMany_succ stand (execute_jalr encoded) 0, ?_, ?_, ?_, ?_⟩
  · rw [commit_image, delivers.image]
  · rw [commit_pc, delivers.value, ofNat_sub_mod_two]
  · intro notZero
    rw [read_commit_some middle _ _ linkSmall linkSmall, if_pos ⟨rfl, notZero⟩, atPc]
    exact ofNat_add_four pc
  · intro number numberSmall notLink notBase
    rw [read_commit_some middle _ _ linkSmall numberSmall, if_neg]
    · exact delivers.others number numberSmall fun isBase => notBase (congrArg some isBase.symm)
    · rintro ⟨isLink, notZero⟩
      exact notLink notZero isLink

/-- A pair that goes through a register. -/
theorem transfers_pair
    {machine : Machine}
    {link base : Register}
    {pc target : Nat}
    {instructions : List Instruction}
    {words : List Word}
    (expanded :
      PcRelative.jumpThrough link base ((target : Int) - pc) = .ok instructions)
    (encoded : Instruction.encodeAll instructions = .ok words)
    (stand : WordsAt machine.image pc words)
    (atPc : machine.pc = UInt64.ofNat pc)
    (small : pc + 4 < UInt64.size)
    (even : target % 2 = 0)
    (targetSmall : target < UInt64.size)
    (usable : base.index ≠ 0) :
    ∃ after,
      stepMany 2 machine = .ok after ∧
        machine.Transfers after target link.index (pc + 8) (some base.index) := by
  obtain ⟨⟨high, low⟩, splits, isPair⟩ := bind_eq_ok_iff.mp expanded
  cases isPair
  obtain ⟨parts, -⟩ := PcRelative.split_eq_ok splits
  obtain ⟨first, _, encodedFirst, encodedRest, rfl⟩ :=
    Instruction.encodeAll_cons_eq_ok_iff.mp encoded
  obtain ⟨second, _, encodedSecond, encodedNone, rfl⟩ :=
    Instruction.encodeAll_cons_eq_ok_iff.mp encodedRest
  cases encodedNone
  obtain ⟨middle, upper, stepsFirst, delivers, whole, middlePc, standSecond⟩ :=
    exists_base encodedFirst parts stand atPc small usable
  obtain ⟨after, stepsSecond, transfers⟩ :=
    delivers.transfers encodedSecond standSecond middlePc
  rw [whole, UInt64.toNat_ofNat_of_lt' targetSmall, even, Nat.sub_zero] at transfers
  exact ⟨after, stepMany_trans stepsFirst stepsSecond, transfers⟩

/-- A transfer whose link register is its scratch register only touches that one. -/
theorem Transfers.withoutScratch
    {before after : Machine}
    {next link following : Nat}
    (transfers : before.Transfers after next link following (some link))
    (links : link ≠ 0) :
    before.Transfers after next link following none where
  image := transfers.image
  pc := transfers.pc
  linked := transfers.linked
  others := by
    intro number small notLink _
    refine transfers.others number small notLink ?_
    intro isLink
    exact notLink links (Option.some.inj isLink).symm

/--
A branch with the opposite condition over the words of a transfer that does not
link.
-/
theorem transfers_over
    {machine : Machine}
    {op opposite : Opcode}
    {rs1 rs2 : Register}
    {pc target : Nat}
    {branch : Word}
    {rest : List Word}
    {scratch : Option Nat}
    (inverts : op.inverted? = some opposite)
    (encoded :
      (Instruction.b opposite rs1 rs2 (4 + 4 * rest.length : Nat)).encode = .ok branch)
    (stand : WordsAt machine.image pc (branch :: rest))
    (atPc : machine.pc = UInt64.ofNat pc)
    (small : pc + 4 < UInt64.size)
    (behind :
      ∀ inside : Machine,
        inside.pc = UInt64.ofNat (pc + 4) →
          WordsAt inside.image (pc + 4) rest →
            ∃ after,
              stepMany rest.length inside = .ok after ∧
                inside.Transfers after target 0 (pc + 4 + 4 * rest.length) scratch) :
    ∃ count after,
      0 < count ∧ count ≤ rest.length + 1 ∧ stepMany count machine = .ok after ∧
        machine.Transfers after
          (if op.holds (machine.read rs1.index) (machine.read rs2.index) then target
            else pc + 4 + 4 * rest.length)
          0 (pc + 4 + 4 * rest.length) scratch := by
  have standFirst := wordsAt_pc atPc (by omega) stand
  have executed := @execute_branch machine _ _ _ _ _ encoded
  rw [Opcode.holds_inverted inverts] at executed
  cases holds : op.holds (machine.read rs1.index) (machine.read rs2.index) with
  | true =>
      rw [holds] at executed
      have stepsFirst := stepMany_succ standFirst executed rest.length
      obtain ⟨after, steps, image, pcAfter, linked, others⟩ :=
        behind { machine with pc := machine.pc + 4 }
          (by rw [atPc]; exact ofNat_add_four pc) stand.2
      refine ⟨rest.length + 1, after, Nat.succ_pos _, Nat.le_refl _, ?_, image, pcAfter,
        linked, others⟩
      exact stepsFirst.trans steps
  | false =>
      rw [holds] at executed
      refine ⟨1, _, Nat.one_pos, Nat.le_add_left _ _, stepMany_succ standFirst executed 0,
        rfl, ?_, fun notZero => absurd rfl notZero, fun _ _ _ _ => rfl⟩
      show machine.pc + UInt64.ofInt _ = UInt64.ofNat (pc + 4 + 4 * rest.length)
      rw [atPc]
      exact ofNat_add_ofInt (by omega)

end Machine

/-!
## Jumps
-/

/-- Whether a jump is taken, as the front end wrote it. -/
def JumpKind.taken
    (kind : JumpKind)
    (registers : Nat → UInt64) :
    Bool :=
  match kind with
  | .conditional op rs1 rs2 =>
      op.holds (registers rs1.index) (registers rs2.index)
  | .jal _ =>
      true

/-- The number of the register that a jump links; zero if there is none. -/
def JumpKind.link : JumpKind → Nat
  | .conditional .. => 0
  | .jal rd => rd.index

/-- The number of the scratch register that a jump in its current form makes use of. -/
def Jump.scratch?
    (jump : Jump)
    (scratch : Register) :
    Option Nat :=
  if jump.form = .far ∧ jump.kind.link = 0 then some scratch.index else none

/-- A jump that is executed at `pc` does what the front end asked for. -/
def Jump.Executes
    (jump : Jump)
    (scratch : Register)
    (pc target : Nat)
    (machine : Machine) :
    Prop :=
  ∃ count after,
    0 < count ∧ 4 * count ≤ jump.size ∧ Machine.stepMany count machine = .ok after ∧
      machine.Transfers after
        (if jump.kind.taken machine.read then target else pc + jump.size)
        jump.kind.link (pc + jump.size) (jump.scratch? scratch)

theorem Register.isZero_eq_true_iff
    {register : Register}
    (isInt : register.file = .int) :
    register.isZero = true ↔ register.index = 0 := by
  rw [Register.isZero, isInt, Register.index, Bool.and_eq_true, beq_iff_eq, beq_iff_eq,
    ← UInt8.toNat_inj]
  simp

/-- The five encodings of a jump at `pc` to `target`. -/
inductive Jump.Encoding
    (jump : Jump)
    (scratch : Register)
    (pc target : Nat) :
    List Instruction → Prop
  | shortBranch {op : Opcode} {rs1 rs2 : Register}
      (kind : jump.kind = .conditional op rs1 rs2)
      (form : jump.form = .short) :
      Encoding jump scratch pc target [.b op rs1 rs2 ((target : Int) - pc)]
  | nearBranch {op opposite : Opcode} {rs1 rs2 : Register}
      (kind : jump.kind = .conditional op rs1 rs2)
      (form : jump.form = .near)
      (inverts : op.inverted? = some opposite) :
      Encoding jump scratch pc target
        [.b opposite rs1 rs2 8, .j .jal .zero ((target : Int) - (pc + 4 : Nat))]
  | farBranch {op opposite : Opcode} {rs1 rs2 : Register} {pair : List Instruction}
      (kind : jump.kind = .conditional op rs1 rs2)
      (form : jump.form = .far)
      (inverts : op.inverted? = some opposite)
      (isPair :
        PcRelative.jumpThrough .zero scratch ((target : Int) - (pc + 4 : Nat)) = .ok pair) :
      Encoding jump scratch pc target (.b opposite rs1 rs2 12 :: pair)
  | shortJal {rd : Register}
      (kind : jump.kind = .jal rd)
      (form : jump.form = .short) :
      Encoding jump scratch pc target [.j .jal rd ((target : Int) - pc)]
  | farJal {rd : Register} {pair : List Instruction}
      (kind : jump.kind = .jal rd)
      (form : jump.form = .far)
      (isPair :
        PcRelative.jumpThrough rd (if rd.isZero then scratch else rd)
          ((target : Int) - pc) = .ok pair) :
      Encoding jump scratch pc target pair

/-- A jump is expanded to one of its encodings. -/
theorem Placement.expandJump_eq_ok_iff
    {jump : Jump}
    {scratch : Register}
    {pc target : Nat}
    {instructions : List Instruction}
    (sound : jump.kind.Sound)
    (isForm : jump.form ∈ jump.forms) :
    expandJump scratch jump pc target = .ok instructions ↔
      jump.Encoding scratch pc target instructions := by
  have same : (target : Int) - ((pc : Int) + 4) = (target : Int) - (pc + 4 : Nat) := by
    omega
  obtain ⟨kind, _, _, state, _, _, _, _⟩ := jump
  constructor
  · intro expanded
    cases kind with
    | conditional op rs1 rs2 =>
        obtain ⟨opposite, inverts, -⟩ := Opcode.exists_inverted sound.1
        cases state with
        | shortUnbound =>
            cases expanded
            exact .shortBranch rfl rfl
        | shortBound =>
            cases expanded
            exact .shortBranch rfl rfl
        | long long =>
            unfold expandJump at expanded
            simp only [inverts, same] at expanded
            cases long with
            | near =>
                cases expanded
                exact .nearBranch rfl rfl inverts
            | far =>
                obtain ⟨pair, isPair, rfl⟩ := map_eq_ok_iff.mp expanded
                exact .farBranch rfl rfl inverts isPair
    | jal rd =>
        cases state with
        | shortUnbound =>
            cases expanded
            exact .shortJal rfl rfl
        | shortBound =>
            cases expanded
            exact .shortJal rfl rfl
        | long long =>
            cases long with
            | near =>
                simp [Jump.form, Jump.forms, Jump.isConditional] at isForm
            | far =>
                exact .farJal rfl rfl expanded
  · intro encoding
    cases encoding with
    | shortBranch isKind form =>
        cases isKind
        rcases state with - | - | ⟨- | -⟩ <;> cases form
        all_goals rfl
    | nearBranch isKind form inverts =>
        cases isKind
        rcases state with - | - | ⟨- | -⟩ <;> cases form
        unfold expandJump
        simp only [inverts, same]
    | farBranch isKind form inverts isPair =>
        cases isKind
        rcases state with - | - | ⟨- | -⟩ <;> cases form
        unfold expandJump
        simp only [inverts, same, isPair]
        rfl
    | shortJal isKind form =>
        cases isKind
        rcases state with - | - | ⟨- | -⟩ <;> cases form
        all_goals rfl
    | farJal isKind form isPair =>
        cases isKind
        rcases state with - | - | ⟨- | -⟩ <;> cases form
        exact isPair

open Machine in
/-- Every encoding of a jump executes it. -/
theorem Jump.Encoding.executes
    {jump : Jump}
    {scratch : Register}
    {pc target : Nat}
    {instructions : List Instruction}
    {words : List Word}
    {machine : Machine}
    (encoding : jump.Encoding scratch pc target instructions)
    (sound : jump.kind.Sound)
    (encoded : Instruction.encodeAll instructions = .ok words)
    (stand : WordsAt machine.image pc words)
    (atPc : machine.pc = UInt64.ofNat pc)
    (small : pc + jump.size < UInt64.size)
    (even : target % 2 = 0)
    (targetSmall : target < UInt64.size)
    (usable : ∀ number, jump.scratch? scratch = some number → number ≠ 0) :
    jump.Executes scratch pc target machine := by
  cases encoding with
  | shortBranch kind form =>
      have size : jump.size = 4 := by rw [Jump.size, form]; rfl
      have scratchFree : jump.scratch? scratch = none := by simp [Jump.scratch?, form]
      rw [size] at small
      obtain ⟨word, _, encodedBranch, encodedNone, rfl⟩ :=
        Instruction.encodeAll_cons_eq_ok_iff.mp encoded
      cases encodedNone
      obtain ⟨after, executed, transfers⟩ := transfers_branch encodedBranch atPc
      rw [Jump.Executes, size, scratchFree, kind]
      refine ⟨1, after, Nat.one_pos, Nat.le_refl _, ?_, transfers⟩
      exact stepMany_succ (wordsAt_pc atPc (by omega) stand) executed 0
  | nearBranch kind form inverts =>
      have size : jump.size = 8 := by rw [Jump.size, form]; rfl
      have scratchFree : jump.scratch? scratch = none := by simp [Jump.scratch?, form]
      rw [size] at small
      obtain ⟨branch, _, encodedBranch, encodedRest, rfl⟩ :=
        Instruction.encodeAll_cons_eq_ok_iff.mp encoded
      obtain ⟨jal, _, encodedJal, encodedNone, rfl⟩ :=
        Instruction.encodeAll_cons_eq_ok_iff.mp encodedRest
      cases encodedNone
      have behind (inside : Machine)
          (insidePc : inside.pc = UInt64.ofNat (pc + 4))
          (standJal : WordsAt inside.image (pc + 4) [jal]) :
          ∃ after,
            stepMany 1 inside = .ok after ∧
              inside.Transfers after target 0 (pc + 8) none := by
        obtain ⟨after, executed, transfers⟩ := transfers_jal encodedJal insidePc
        refine ⟨after, ?_, transfers⟩
        exact stepMany_succ (wordsAt_pc insidePc (by omega) standJal) executed 0
      obtain ⟨count, after, positive, bounded, steps, transfers⟩ :=
        transfers_over inverts encodedBranch stand atPc (by omega) behind
      rw [Jump.Executes, size, scratchFree, kind]
      exact ⟨count, after, positive, Nat.mul_le_mul_left 4 bounded, steps, transfers⟩
  | farBranch kind form inverts isPair =>
      have size : jump.size = 12 := by
        rw [Jump.size, form, Jump.sizeOf, Jump.isConditional, kind]
        rfl
      have scratchUsed : jump.scratch? scratch = some scratch.index := by
        simp [Jump.scratch?, form, kind, JumpKind.link]
      have notZero := usable _ scratchUsed
      rw [size] at small
      obtain ⟨branch, rest, encodedBranch, encodedRest, rfl⟩ :=
        Instruction.encodeAll_cons_eq_ok_iff.mp encoded
      have two : rest.length = 2 := length_of_jumpThrough isPair encodedRest
      have behind (inside : Machine)
          (insidePc : inside.pc = UInt64.ofNat (pc + 4))
          (standPair : WordsAt inside.image (pc + 4) rest) :
          ∃ after,
            stepMany rest.length inside = .ok after ∧
              inside.Transfers after target 0 (pc + 4 + 4 * rest.length)
                (some scratch.index) := by
        rw [two]
        exact transfers_pair isPair encodedRest standPair insidePc (by omega) even
          targetSmall notZero
      rw [show (12 : Int) = (4 + 4 * rest.length : Nat) by rw [two]; rfl] at encodedBranch
      obtain ⟨count, after, positive, bounded, steps, transfers⟩ :=
        transfers_over inverts encodedBranch stand atPc (by omega) behind
      rw [two] at bounded transfers
      rw [Jump.Executes, size, scratchUsed, kind]
      exact ⟨count, after, positive, Nat.mul_le_mul_left 4 bounded, steps, transfers⟩
  | shortJal kind form =>
      have size : jump.size = 4 := by rw [Jump.size, form]; rfl
      have scratchFree : jump.scratch? scratch = none := by simp [Jump.scratch?, form]
      rw [size] at small
      obtain ⟨word, _, encodedJal, encodedNone, rfl⟩ :=
        Instruction.encodeAll_cons_eq_ok_iff.mp encoded
      cases encodedNone
      obtain ⟨after, executed, transfers⟩ := transfers_jal encodedJal atPc
      rw [Jump.Executes, size, scratchFree, kind]
      refine ⟨1, after, Nat.one_pos, Nat.le_refl _, ?_, transfers⟩
      exact stepMany_succ (wordsAt_pc atPc (by omega) stand) executed 0
  | @farJal rd _ kind form isPair =>
      have size : jump.size = 8 := by
        rw [Jump.size, form, Jump.sizeOf, Jump.isConditional, kind]
        rfl
      rw [size] at small
      rw [kind] at sound
      by_cases isZero : rd.index = 0
      · have scratchUsed : jump.scratch? scratch = some scratch.index := by
          simp [Jump.scratch?, form, kind, JumpKind.link, isZero]
        rw [if_pos ((Register.isZero_eq_true_iff sound.1).mpr isZero)] at isPair
        obtain ⟨after, steps, transfers⟩ :=
          transfers_pair isPair encoded stand atPc (by omega) even targetSmall
            (usable _ scratchUsed)
        rw [Jump.Executes, size, scratchUsed, kind]
        exact ⟨2, after, by decide, Nat.le_refl _, steps, transfers⟩
      · have scratchFree : jump.scratch? scratch = none := by
          simp [Jump.scratch?, kind, JumpKind.link, isZero]
        rw [if_neg fun zero => isZero ((Register.isZero_eq_true_iff sound.1).mp zero)] at isPair
        obtain ⟨after, steps, transfers⟩ :=
          transfers_pair isPair encoded stand atPc (by omega) even targetSmall isZero
        rw [Jump.Executes, size, scratchFree, kind]
        exact ⟨2, after, by decide, Nat.le_refl _, steps, transfers.withoutScratch isZero⟩

/-!
## Targets
-/

/-- In a placed layout the offset of a target is where its descriptor starts. -/
theorem Layout.WellFormed.targetOffset_eq
    {layout : Layout}
    (wellFormed : layout.WellFormed)
    (placed : Layout.Placed layout.groups layout.descriptors)
    (dataOffset : Nat)
    (scratch : Register)
    {id : Nat}
    {jump : Jump}
    {resolved : Resolved}
    {place : Nat}
    (found : layout.jumps[id]? = some jump)
    (isResolved : jump.resolved = some resolved)
    (aims : layout.Aims jump place resolved) :
    (Placement.of layout dataOffset scratch).targetOffset jump =
      .ok (Layout.startOf layout.descriptors place) := by
  obtain ⟨-, ⟨own, foundOwn, -, -⟩, -, -, -, resolves⟩ := wellFormed.holds id jump found
  refine bind_eq_ok_iff.mpr ⟨own, Failure.ofMissing_eq_ok_iff.mpr foundOwn, ?_⟩
  rw [isResolved]
  cases resolved with
  | group target =>
      obtain ⟨group, foundGroup, rfl⟩ := aims
      refine bind_eq_ok_iff.mpr ⟨group, Failure.ofMissing_eq_ok_iff.mpr foundGroup, ?_⟩
      rw [placed target.index group foundGroup]
  | inGroup position =>
      obtain ⟨again, foundAgain, rfl⟩ := aims
      rw [foundOwn] at foundAgain
      cases foundAgain
      obtain ⟨count, same, -, foundSame, -, inside⟩ := resolves _ isResolved
      rw [foundOwn] at foundSame
      cases foundSame
      dsimp only
      split
      · rename_i atEnd
        rw [wellFormed.partitioned.stop_eq placed foundOwn, Group.last, atEnd]
      · rename_i notEnd
        have insideAll := wellFormed.partitioned.last_le_size foundOwn
        have before : own.first + position < layout.descriptors.size := by
          unfold Group.last at insideAll
          omega
        rw [Failure.ofMissing_eq_ok_iff]
        show layout.descriptorOffsets[own.first + position]? = _
        rw [Layout.descriptorOffsets_eq wellFormed.partitioned placed]
        exact Layout.getElem?_starts before

end Rv64Codegen
