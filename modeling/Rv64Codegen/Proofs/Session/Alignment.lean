import Rv64Codegen.Proofs.DataPool.Alignment
import Rv64Codegen.Proofs.Session.Finish
import Rv64Codegen.Proofs.Session.PoolCalls

namespace Rv64Codegen

/-!
# Where the data pool goes

The pool is placed behind the code at the least multiple of the largest alignment.
Offsets within the pool are aligned there, and the largest alignment is a multiple of
each alignment that was granted.  Together they give every reserved byte the
alignment that it was asked for, whatever the size of the code.
-/

/-- A pool with bytes stands at the least suitable place that is not inside the code. -/
theorem Layout.isLeast_placeData
    {layout : Layout}
    {pool : DataPool}
    {poolAlign dataOffset : Nat}
    (nonempty : pool.bytes ≠ #[])
    (places : layout.placeData pool poolAlign = .ok dataOffset) :
    isPowerOfTwo poolAlign = true ∧
      IsLeast
        {offset | max poolAlign pool.largestAlign ∣ offset ∧ layout.codeSize ≤ offset}
        dataOffset := by
  have someByte : ¬ pool.bytes.isEmpty = true := fun isEmpty =>
    nonempty (Array.isEmpty_iff.mp isEmpty)
  unfold placeData at places
  dsimp only at places
  rw [if_neg someByte] at places
  split at places
  · cases places
  · rename_i power
    have power := Decidable.not_not.mp power
    have positive := pos_of_isPowerOfTwo power
    have same : max poolAlign pool.alignment = max poolAlign pool.largestAlign := by
      unfold DataPool.alignment
      omega
    split at places
    · cases places
    · cases places
      rw [same]
      exact ⟨power, isLeast_nextMultiple _ (by omega)⟩

namespace Session

variable
  {session : Session}

/-- A command that answers with an offset passes on the offset of its call. -/
theorem perform_reserveData
    {count align offset : Nat}
    (answers : (session.perform (.reserveData count align)).1 = .ok (.offset offset)) :
    (session.pool.perform (.reserve count align)).1 = .ok (some offset) := by
  rw [perform, reserveData] at answers
  rw [DataPool.perform]
  cases reserves : session.pool.reserve count align with
  | error cause =>
      rw [reserves] at answers
      cases answers
  | ok pair =>
      rw [reserves] at answers
      cases answers
      rfl

theorem perform_dataConstant
    {value : UInt64}
    {slot : Nat}
    (answers : (session.perform (.dataConstant value)).1 = .ok (.offset slot)) :
    (session.pool.perform (.intern value)).1 = .ok (some slot) := by
  rw [perform, dataConstant] at answers
  rw [DataPool.perform_intern]
  cases interns : session.pool.intern value with
  | error cause =>
      rw [interns] at answers
      cases answers
  | ok pair =>
      rw [interns] at answers
      cases answers
      rfl

/-- The alignments that the commands of a list get in the data pool. -/
def grantedAligns (session : Session) (commands : List Command) : List Nat :=
  session.pool.grantedAligns (session.poolCalls commands)

theorem honours_run
    (config : Config)
    (commands : List Command) :
    ((start config).run commands).pool.Honours ((start config).grantedAligns commands) := by
  rw [pool_run]
  exact DataPool.honours_empty.run _

/-- A call that is answered with an offset gets its alignment, now and for the whole run. -/
theorem mem_grantedAligns
    {front : List Command}
    (command : Command)
    (back : List Command)
    {call : DataPool.Call}
    {align offset : Nat}
    (isCall : (session.run front).poolCall? command = some call)
    (asks : call.align? = some align)
    (answers : ((session.run front).pool.perform call).1 = .ok (some offset)) :
    align ∈ session.grantedAligns (front ++ command :: back) := by
  have granted : (session.run front).pool.granted? call = some align := by
    rw [DataPool.granted?, answers, asks]
    rfl
  rw [grantedAligns, poolCalls_append, DataPool.grantedAligns_append, ← pool_run, poolCalls,
    isCall, Option.toList_some, List.singleton_append, DataPool.grantedAligns, granted]
  exact List.mem_append_right _ List.mem_cons_self

/-- Where the largest alignment fits, every alignment fits that was granted. -/
theorem dvd_of_mem_grantedAligns
    {config : Config}
    {commands : List Command}
    {align place : Nat}
    (member : align ∈ (start config).grantedAligns commands)
    (power : isPowerOfTwo config.poolAlign = true)
    (placed :
      max config.poolAlign ((start config).run commands).pool.largestAlign ∣ place) :
    align ∣ place := by
  have honours := honours_run config commands
  have alignPower := honours.powers align member
  have below := honours.bounded align member
  have positive := pos_of_isPowerOfTwo alignPower
  have largestPower :=
    honours.powers _ (honours.attained.resolve_left (by omega))
  refine Nat.dvd_trans ?_ placed
  rcases Nat.le_total config.poolAlign ((start config).run commands).pool.largestAlign with
    smaller | larger
  · rw [Nat.max_eq_right smaller]
    exact dvd_of_isPowerOfTwo alignPower largestPower below
  · rw [Nat.max_eq_left larger]
    exact dvd_of_isPowerOfTwo alignPower power (Nat.le_trans below larger)

/-- An offset of the pool that a command has got is aligned where the pool is placed. -/
theorem dvd_add_offset
    {config : Config}
    {front : List Command}
    (command : Command)
    {back : List Command}
    {call : DataPool.Call}
    {align offset place : Nat}
    (isCall : ((start config).run front).poolCall? command = some call)
    (asks : call.align? = some align)
    (answers : (((start config).run front).pool.perform call).1 = .ok (some offset))
    (power : isPowerOfTwo config.poolAlign = true)
    (placed :
      max config.poolAlign
          ((start config).run (front ++ command :: back)).pool.largestAlign ∣ place) :
    align ∣ place + offset := by
  have member := mem_grantedAligns command back isCall asks answers
  have aligned := (honours_run config front).dvd_of_perform asks answers
  exact Nat.dvd_add (dvd_of_mem_grantedAligns member power placed) aligned

/--
A pool with bytes is placed well for all that was asked for: the size of the code fits
an offset, the pool stands at the least multiple of the largest alignment that is not
inside the code, every offset that a command has got is aligned in the image as the
command asked for, and the image is the code, zeros up to the pool, and the bytes of
the pool.
-/
theorem finished_data_aligned
    (config : Config)
    (commands : List Command)
    (emitted : EmittedCode)
    (nonempty : ((start config).run commands).pool.bytes ≠ #[])
    (finishes : ((start config).run commands).finish = .ok emitted) :
    emitted.code.size < offsetRange ∧
      (∃ largest,
        IsGreatest {align | align ∈ (start config).grantedAligns commands} largest ∧
          IsLeast
            {offset | max config.poolAlign largest ∣ offset ∧ emitted.code.size ≤ offset}
            emitted.dataOffset) ∧
      (∀ front count align back offset,
        commands = front ++ .reserveData count align :: back →
          (((start config).run front).perform (.reserveData count align)).1 =
              .ok (.offset offset) →
            align ∣ emitted.dataOffset + offset) ∧
      (∀ front value back offset,
        commands = front ++ .dataConstant value :: back →
          (((start config).run front).perform (.dataConstant value)).1 =
              .ok (.offset offset) →
            8 ∣ emitted.dataOffset + offset) ∧
      emitted.image =
        emitted.code ++ Array.replicate (emitted.dataOffset - emitted.code.size) 0 ++
          ((start config).run commands).pool.bytes := by
  have wellFormed := wellFormed_run config commands
  obtain ⟨stats, -, writes⟩ := exists_relax_of_finish finishes
  obtain ⟨places, -, -⟩ := Layout.write_eq_ok writes
  obtain ⟨-, finished⟩ := finish_eq_ok wellFormed finishes
  have codeSize :=
    finished.size.trans
      (Layout.codeSize_eq (wellFormed_relax wellFormed).partitioned finished.placed).symm
  rw [config_run] at places
  obtain ⟨power, least⟩ := Layout.isLeast_placeData nonempty places
  rw [← codeSize] at least
  refine ⟨size_lt_of_finish wellFormed finishes,
    ⟨_, (honours_run config commands).isGreatest nonempty, least⟩, ?_, ?_, ?_⟩
  · rintro front count align back offset rfl replies
    exact dvd_add_offset (.reserveData count align) (poolCall?_of_action rfl) rfl
      (perform_reserveData replies) power least.1.1
  · rintro front value back offset rfl replies
    exact dvd_add_offset (.dataConstant value) (poolCall?_of_action rfl) rfl
      (perform_dataConstant replies) power least.1.1
  · rw [EmittedCode.image_eq finished.before, finished.data, Array.append_assoc]

/--
Bytes at an odd offset, behind them a constant and wider bytes, then a request that is
not granted and a constant that shares its slot, all behind a branch in its far form.
-/
def mixedAlignments : List Command :=
  [.newLabel, .branch .beq (.x 5) (.x 6) ⟨0⟩, .keepLong ⟨0⟩, .reserveData 3 1,
    .dataConstant 0x0102030405060708, .reserveData 5 32, .reserveData 1 12,
    .loadConstant (.x 10) 0x123456789abcdef1, .dataConstant 0x123456789abcdef1,
    .writeData 32 #[0xaa, 0xbb], .bindLabel ⟨0⟩]

theorem finished_data_aligned_mixedAlignments :
    let final := (start {}).run mixedAlignments
    final.pool.bytes ≠ #[] ∧
      ∃ emitted,
        final.finish = .ok emitted ∧
          (∃ largest,
            IsGreatest {align | align ∈ [1, 8, 32, 8, 8]} largest ∧
              IsLeast
                {offset |
                  max ({} : Config).poolAlign largest ∣ offset ∧ emitted.code.size ≤ offset}
                emitted.dataOffset) ∧
            32 ∣ emitted.dataOffset + 32 ∧ 8 ∣ emitted.dataOffset + 40 ∧
              emitted.image =
                emitted.code ++
                    Array.replicate (emitted.dataOffset - emitted.code.size) 0 ++
                  final.pool.bytes := by
  intro final
  have nonempty : final.pool.bytes ≠ #[] := by decide +kernel
  have granted : (start {}).grantedAligns mixedAlignments = [1, 8, 32, 8, 8] := by
    decide +kernel
  have finishes : final.finish.isOk = true := by decide +kernel
  obtain ⟨emitted, finishes⟩ := isOk_eq_true_iff.mp finishes
  obtain ⟨-, least, reserved, shared, image⟩ :=
    finished_data_aligned {} mixedAlignments emitted nonempty finishes
  rw [granted] at least
  refine ⟨nonempty, emitted, finishes, least, ?_, ?_, image⟩
  · exact reserved (mixedAlignments.take 5) 5 32 (mixedAlignments.drop 6) 32 rfl
      (by decide +kernel)
  · exact shared (mixedAlignments.take 8) 0x123456789abcdef1 (mixedAlignments.drop 9) 40 rfl
      (by decide +kernel)

end Session

end Rv64Codegen
