import Rv64Codegen.Isa.Machine
import Rv64Codegen.Isa.WordBuffer
import Rv64Codegen.Proofs.Isa.Meaning

namespace Rv64Codegen

/-!
# Runs of the machine

Single steps put together, words that stand in an image, and the bridge between
executing given words one after the other and stepping through an image that
holds them.
-/

/-!
## Bytes and numbers
-/

/-- As many bytes as asked for. -/
@[simp] theorem length_littleEndianBytes
    (count number : Nat) :
    (littleEndianBytes count number).length = count := by
  induction count generalizing number with
  | zero =>
      rfl
  | succ count inductionHypothesis =>
      simp [littleEndianBytes, inductionHypothesis]

/-- Bytes taken from a number give its low part back. -/
theorem littleEndian_littleEndianBytes
    (count number : Nat) :
    littleEndian (littleEndianBytes count number) = number % 1 <<< (8 * count) := by
  induction count generalizing number with
  | zero =>
      simp [littleEndianBytes, littleEndian, Nat.mod_one]
  | succ count inductionHypothesis =>
      have byte : (UInt8.ofNat number).toNat = number % 256 := by
        simp
      have wider : 1 <<< (8 * (count + 1)) = 256 * 1 <<< (8 * count) := by
        rw [Nat.mul_succ, Nat.shiftLeft_add, Nat.shiftLeft_eq _ 8, Nat.mul_comm]
      rw [littleEndianBytes, littleEndian, inductionHypothesis, byte, wider,
        Nat.mod_mul]

/-- The four bytes of a word give the word back. -/
theorem littleEndian_bytes (word : Word) :
    littleEndian word.bytes = word.toNat := by
  rw [Word.bytes, littleEndian_littleEndianBytes]
  exact Nat.mod_eq_of_lt word.toNat_lt

/-- A word has four bytes. -/
@[simp] theorem Word.length_bytes (word : Word) :
    word.bytes.length = 4 :=
  length_littleEndianBytes 4 word.toNat

/-- Words have four bytes each. -/
theorem length_flatMap_bytes (words : List Word) :
    (words.flatMap Word.bytes).length = 4 * words.length := by
  induction words with
  | nil =>
      rfl
  | cons word rest inductionHypothesis =>
      rw [List.flatMap_cons, List.length_append, inductionHypothesis,
        Word.length_bytes, List.length_cons]
      omega

/-!
## Words in an image
-/

/-- Words that stand in an image one after the other, from an offset on. -/
def WordsAt (image : Array UInt8) : Nat → List Word → Prop
  | _, [] =>
      True
  | offset, word :: rest =>
      readBytes? image offset 4 = some word.toNat ∧ WordsAt image (offset + 4) rest

/-- Bytes that are those of words make these words stand in the image. -/
theorem wordsAt_of_extract
    {image : Array UInt8}
    {offset : Nat}
    {words : List Word}
    (same :
      (image.extract offset (offset + 4 * words.length)).toList =
        words.flatMap Word.bytes)
    (inside : offset + 4 * words.length ≤ image.size) :
    WordsAt image offset words := by
  induction words generalizing offset with
  | nil =>
      trivial
  | cons word rest inductionHypothesis =>
      rw [List.length_cons] at same inside
      have split :
          (image.extract offset (offset + 4 * (rest.length + 1))).toList =
            (image.extract offset (offset + 4)).toList ++
              (image.extract (offset + 4) (offset + 4 + 4 * rest.length)).toList := by
        rw [← Array.toList_append, Array.extract_append_extract]
        congr 2 <;> omega
      rw [split, List.flatMap_cons] at same
      have firstLength : (image.extract offset (offset + 4)).toList.length = 4 := by
        simp only [Array.length_toList, Array.size_extract]
        omega
      obtain ⟨firstSame, restSame⟩ :=
        List.append_inj same (firstLength.trans (Word.length_bytes word).symm)
      refine ⟨?_, inductionHypothesis restSame (by omega)⟩
      rw [readBytes?, if_pos (by omega), firstSame, littleEndian_bytes]

/-- Words that stand in an image stand there in part. -/
theorem WordsAt.append
    {image : Array UInt8}
    {offset : Nat}
    {first second : List Word}
    (stand : WordsAt image offset (first ++ second)) :
    WordsAt image offset first ∧
      WordsAt image (offset + 4 * first.length) second := by
  induction first generalizing offset with
  | nil =>
      exact ⟨trivial, stand⟩
  | cons word rest inductionHypothesis =>
      obtain ⟨here, later⟩ := stand
      obtain ⟨restStands, secondStands⟩ := inductionHypothesis later
      refine ⟨⟨here, restStands⟩, ?_⟩
      rw [List.length_cons, show offset + 4 * (rest.length + 1) =
        offset + 4 + 4 * rest.length by omega]
      exact secondStands

namespace Machine

/-- A number of single steps. -/
def stepMany : Nat → Machine → Except Trap Machine
  | 0, machine =>
      .ok machine
  | count + 1, machine =>
      machine.step.bind (stepMany count)

/-- Steps after steps. -/
theorem stepMany_add
    (first second : Nat)
    (machine : Machine) :
    stepMany (first + second) machine =
      (stepMany first machine).bind (stepMany second) := by
  induction first generalizing machine with
  | zero =>
      rw [Nat.zero_add]
      rfl
  | succ first inductionHypothesis =>
      rw [Nat.succ_add, stepMany, stepMany]
      cases stepped : machine.step with
      | error trap =>
          rfl
      | ok next =>
          exact inductionHypothesis next

/-- Steps that succeed one after the other. -/
theorem stepMany_trans
    {first second : Nat}
    {start middle final : Machine}
    (early : stepMany first start = .ok middle)
    (late : stepMany second middle = .ok final) :
    stepMany (first + second) start = .ok final := by
  rw [stepMany_add, early]
  exact late

/-- A word at the program counter is executed. -/
theorem step_of_wordsAt
    {machine : Machine}
    {word : Word}
    {rest : List Word}
    (stand : WordsAt machine.image machine.pc.toNat (word :: rest)) :
    machine.step = machine.execute word := by
  have fetched : machine.fetch = .ok word := by
    rw [fetch, stand.1]
    exact congrArg Except.ok (UInt32.ofNat_toNat)
  rw [step, fetched]
  rfl

/-- A word after which the machine always goes on with the next one. -/
def Straight (word : Word) : Prop :=
  ∀ machine next : Machine,
    machine.execute word = .ok next →
      next.pc = machine.pc + 4 ∧ next.image = machine.image

/-- Four bytes on, as a number. -/
theorem toNat_add_four
    {address : UInt64}
    (inside : address.toNat + 4 < UInt64.size) :
    (address + 4).toNat = address.toNat + 4 := by
  rw [UInt64.toNat_add]
  exact Nat.mod_eq_of_lt inside

/--
Stepping through an image that holds straight words is executing these words
one after the other.
-/
theorem stepMany_of_executeAll
    {words : List Word}
    {machine final : Machine}
    (straight : ∀ word ∈ words, Straight word)
    (stand : WordsAt machine.image machine.pc.toNat words)
    (inside : machine.pc.toNat + 4 * words.length < UInt64.size)
    (executed : machine.executeAll words = .ok final) :
    stepMany words.length machine = .ok final := by
  induction words generalizing machine with
  | nil =>
      exact executed
  | cons word rest inductionHypothesis =>
      rw [executeAll] at executed
      cases firstExecuted : machine.execute word with
      | error trap =>
          simp [firstExecuted] at executed
      | ok next =>
          rw [firstExecuted] at executed
          obtain ⟨pcMoved, imageSame⟩ :=
            straight word (by simp) machine next firstExecuted
          rw [List.length_cons] at inside
          have moved : next.pc.toNat = machine.pc.toNat + 4 := by
            rw [pcMoved]
            exact toNat_add_four (by omega)
          rw [List.length_cons, stepMany, step_of_wordsAt stand, firstExecuted]
          apply inductionHypothesis
          · intro later member
            exact straight later (by simp [member])
          · rw [moved, imageSame]
            exact stand.2
          · omega
          · exact executed

/-- An encoded register-immediate operation is straight. -/
theorem straight_immediate
    {op : Opcode}
    {rd rs1 : Register}
    {imm : Int}
    {word : Word}
    (encoded : (Instruction.i op rd rs1 imm).encode = .ok word)
    (meaningful : ∀ source, ∃ result, op.immediateMeaning? source imm = some result) :
    Straight word := by
  intro machine next executed
  obtain ⟨result, meaning⟩ := meaningful (machine.read rs1.index).toBitVec
  rw [execute_immediate encoded meaning] at executed
  cases executed
  exact ⟨commit_pc .., commit_image ..⟩

/-- An encoded `lui` is straight. -/
theorem straight_lui
    {rd : Register}
    {imm : Int}
    {word : Word}
    (encoded : (Instruction.u .lui rd imm).encode = .ok word) :
    Straight word := by
  intro machine next executed
  rw [execute_lui encoded] at executed
  cases executed
  exact ⟨commit_pc .., commit_image ..⟩

/--
A register that received a value while the machine moved on by a number of
bytes, and nothing else that changed.
-/
structure Delivers
    (before after : Machine)
    (rd : Nat)
    (value : UInt64)
    (bytes : Nat) :
    Prop where
  value : after.read rd = value
  others : ∀ number, number < 32 → number ≠ rd → after.read number = before.read number
  pc : after.pc = before.pc + UInt64.ofNat bytes
  image : after.image = before.image

/-- One instruction with a result delivers it. -/
theorem delivers_commit
    (machine : Machine)
    {rd : Nat}
    (value : UInt64)
    (notZero : rd ≠ 0)
    (small : rd < 32) :
    machine.Delivers (machine.commit rd ⟨some value, machine.pc + 4⟩) rd value 4 where
  value := by
    rw [read_commit_some machine _ _ small small, if_pos ⟨rfl, notZero⟩]
  others := by
    intro number numberSmall other
    rw [read_commit_some machine _ _ small numberSmall, if_neg (by simp [other])]
  pc := rfl
  image := commit_image ..

/-- A later value for the same register replaces an earlier one. -/
theorem Delivers.trans
    {before middle after : Machine}
    {rd : Nat}
    {earlier later : UInt64}
    {first second : Nat}
    (early : before.Delivers middle rd earlier first)
    (late : middle.Delivers after rd later second) :
    before.Delivers after rd later (first + second) where
  value := late.value
  others := by
    intro number small other
    exact (late.others number small other).trans (early.others number small other)
  pc := by
    rw [late.pc, early.pc, UInt64.ofNat_add, UInt64.add_assoc]
  image := late.image.trans early.image

end Machine

end Rv64Codegen
