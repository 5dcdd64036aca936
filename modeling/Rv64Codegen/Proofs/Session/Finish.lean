import Rv64Codegen.Proofs.Output.Writer
import Rv64Codegen.Proofs.Relaxation.FixedPoint
import Rv64Codegen.Proofs.Session.Changes

namespace Rv64Codegen.Session

/-!
# Finishing a session

A session is finished by relaxing it and writing what relaxation leaves.
-/

/-- A session that is finished is relaxed and then written. -/
theorem exists_relax_of_finish
    {session : Session}
    {emitted : EmittedCode}
    (finishes : session.finish = .ok emitted) :
    ∃ stats,
      session.relax.1 = .ok stats ∧
        session.relax.2.layout.write session.pool session.config stats = .ok emitted := by
  unfold finish at finishes
  split at finishes
  · cases finishes
  · rename_i stats relaxed isRelaxed
    obtain rfl : session.relax.2 = relaxed := by rw [isRelaxed]
    exact ⟨stats, by rw [isRelaxed], finishes⟩

/-- A finished session is its relaxed layout in finished code. -/
theorem finish_eq_ok
    {session : Session}
    {emitted : EmittedCode}
    (wellFormed : session.layout.WellFormed)
    (finishes : session.finish = .ok emitted) :
    (∃ stats, session.relax.1 = .ok stats ∧ emitted.stats = stats) ∧
      session.relax.2.layout.Finished session.pool session.config.longJumpScratch emitted := by
  obtain ⟨stats, succeeds, writes⟩ := exists_relax_of_finish finishes
  obtain ⟨-, -, -, -, isStats⟩ := Layout.write_eq_ok writes
  refine ⟨⟨stats, succeeds, isStats⟩, ?_⟩
  exact Layout.finished_of_write (wellFormed_relax wellFormed).partitioned writes

/-- The size of finished code fits. -/
theorem size_lt_of_finish
    {session : Session}
    {emitted : EmittedCode}
    (wellFormed : session.layout.WellFormed)
    (finishes : session.finish = .ok emitted) :
    emitted.code.size < offsetRange := by
  obtain ⟨⟨stats, succeeds, -⟩, finished⟩ := finish_eq_ok wellFormed finishes
  rw [finished.size,
    ← Layout.codeSize_eq (wellFormed_relax wellFormed).partitioned finished.placed]
  exact Layout.codeSize_lt_of_fits (Layout.relaxWithin_eq_ok succeeds).1.fits

end Rv64Codegen.Session
