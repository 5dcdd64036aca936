import Mathlib.Data.List.Induction
import Rv64Codegen.Proofs.Program.Agreement
import Rv64Codegen.Proofs.Session.Refusals

namespace Rv64Codegen

/-!
# Where labels stand

A label stands at the place where the command that binds it has found the end of the
descriptors.  No other command gives a place to a label, and nothing takes it away
again, so the labels of a session are told by the commands that created and bound
them.
-/

/-- A label that has a place keeps it. -/
theorem Layout.Keeps.labelPlace?_eq_some
    {before after : Layout}
    (keeps : before.Keeps after)
    {label : LabelId}
    {place : Nat}
    (stands : before.labelPlace? label = some place) :
    after.labelPlace? label = some place := by
  obtain ⟨target, group, isBound, found, rfl⟩ := labelPlace?_eq_some_iff.mp stands
  obtain ⟨later, foundLater, first, -⟩ := keeps.groups target.index group found
  exact labelPlace?_eq_some_iff.mpr
    ⟨target, later, keeps.labels label target isBound, foundLater, first⟩

namespace Session

variable
  {session : Session}

/-!
## Binding
-/

/-- A label is bound exactly when it exists and is not bound yet. -/
theorem isOk_bindLabel_iff {label : LabelId} :
    (session.bindLabel label).1.isOk = true ↔
      session.layout.labels[label.index]? = some none := by
  unfold bindLabel
  cases session.layout.labels[label.index]? with
  | none =>
      exact ⟨nofun, nofun⟩
  | some bound =>
      cases bound with
      | none =>
          exact ⟨fun _ => rfl, fun _ => rfl⟩
      | some group =>
          exact ⟨nofun, nofun⟩

theorem bindLabel_snd_of_bound
    {label : LabelId}
    (notFree : session.layout.labels[label.index]? ≠ some none) :
    (session.bindLabel label).2 = session := by
  unfold bindLabel
  split
  · rfl
  · rfl
  · rename_i free
    exact absurd free notFree

/-- A label is bound to an empty group, which may have been opened for it. -/
theorem bindLabel_snd_of_free
    (session : Session)
    (wellFormed : session.layout.WellFormed)
    {label : LabelId}
    (free : session.layout.labels[label.index]? = some none) :
    ∃ layout : Layout,
      session.layout.Agrees layout ∧ layout.WellFormed ∧
        layout.labels[label.index]? = some none ∧ layout.currentCount = 0 ∧
          (session.bindLabel label).2 =
            { session with layout := layout.bindLabel label layout.current } := by
  unfold bindLabel
  rw [free]
  dsimp only
  by_cases empty : session.layout.currentCount = 0
  · rw [if_pos empty]
    exact ⟨session.layout, .refl _, wellFormed, free, empty, rfl⟩
  · rw [if_neg empty]
    exact ⟨session.layout.openGroup, .openGroup wellFormed,
      wellFormed.openGroup, free, Layout.currentCount_openGroup _, rfl⟩

/-- A label that is bound stands behind all descriptors. -/
theorem labelPlace?_bindLabel
    (wellFormed : session.layout.WellFormed)
    (label other : LabelId) :
    (session.bindLabel label).2.layout.labelPlace? other =
      if label = other ∧ (session.bindLabel label).1.isOk then
        some session.layout.descriptors.size
      else
        session.layout.labelPlace? other := by
  by_cases free : session.layout.labels[label.index]? = some none
  · obtain ⟨layout, agrees, opened, stillFree, here, after⟩ :=
      session.bindLabel_snd_of_free wellFormed free
    have same : label.index = other.index ↔ label = other := by
      cases label
      cases other
      simp
    rw [after, opened.labelPlace?_bindLabel stillFree here, agrees.descriptors, agrees.places]
    simp only [same, isOk_bindLabel_iff.mpr free, and_true]
  · rw [bindLabel_snd_of_bound free, if_neg]
    rintro ⟨-, succeeds⟩
    exact free (isOk_bindLabel_iff.mp succeeds)

theorem size_labels_bindLabel
    (wellFormed : session.layout.WellFormed)
    (label : LabelId) :
    (session.bindLabel label).2.layout.labels.size = session.layout.labels.size := by
  by_cases free : session.layout.labels[label.index]? = some none
  · obtain ⟨layout, agrees, -, -, -, after⟩ := session.bindLabel_snd_of_free wellFormed free
    rw [after]
    show (layout.labels.modify _ _).size = _
    rw [Array.size_modify, agrees.labels]
  · rw [bindLabel_snd_of_bound free]

/-!
## Other commands
-/

theorem append_labels
    (session : Session)
    (operation : Operation) :
    (session.append operation).2.layout.labels = session.layout.labels := by
  rcases session.append_cases operation with ⟨failure, fails⟩ | ⟨-, appends⟩
  · rw [fails]
  · rw [appends]
    rfl

theorem appendChecked_labels
    (session : Session)
    (checked : Except EmissionError Operation) :
    (session.appendChecked checked).2.layout.labels = session.layout.labels := by
  rcases session.appendChecked_cases checked with ⟨failure, fails⟩ | ⟨operation, -, -, appends⟩
  · rw [fails]
  · rw [appends]
    rfl

theorem appendJumpChecked_labels
    (session : Session)
    (checked : Except EmissionError JumpKind)
    (target : JumpTarget) :
    (session.appendJumpChecked checked target).2.layout.labels = session.layout.labels := by
  rcases session.appendJumpChecked_cases checked target with
    ⟨failure, fails⟩ | ⟨kind, -, -, appends⟩
  · rw [fails]
  · rw [appends]
    rfl

theorem appendConstant_labels
    (session : Session)
    (value : UInt64)
    (inline : Sequence → Operation)
    (pooled : Nat → Operation) :
    (session.appendConstant value inline pooled).2.layout.labels = session.layout.labels := by
  unfold appendConstant
  split
  · rfl
  · exact append_labels ..
  · have becomes := session.pooled_appendPooled value pooled
    generalize session.appendPooled value pooled = outcome at becomes ⊢
    cases becomes <;> rfl

/-- Only commands for labels change labels. -/
theorem labels_perform
    (wellFormed : session.layout.WellFormed)
    {command : Command}
    (notNew : command ≠ .newLabel)
    (notBind : ∀ label, command ≠ .bindLabel label) :
    (session.perform command).2.layout.labels = session.layout.labels := by
  rw [perform_eq_act]
  cases isAction : session.action command with
  | newLabel =>
      exact absurd (eq_of_command? (congrArg Action.command? isAction)) notNew
  | bindLabel label =>
      exact absurd (eq_of_command? (congrArg Action.command? isAction)) (notBind label)
  | operation checked =>
      exact appendChecked_labels ..
  | jump checked target =>
      exact appendJumpChecked_labels ..
  | constant checked value inline pooled =>
      cases checked with
      | error cause =>
          rfl
      | ok passed =>
          exact appendConstant_labels ..
  | relax =>
      exact (evolves_relax wellFormed).labels
  | _ =>
      rfl

/-- A command gives a label its place by binding it, and in no other way. -/
theorem labelPlace?_perform
    (wellFormed : session.layout.WellFormed)
    (command : Command)
    (label : LabelId) :
    (session.perform command).2.layout.labelPlace? label =
      if command = .bindLabel label ∧ (session.perform command).1.isOk then
        some session.layout.descriptors.size
      else
        session.layout.labelPlace? label := by
  by_cases isBind : ∃ other, command = .bindLabel other
  · obtain ⟨other, rfl⟩ := isBind
    show (session.bindLabel other).2.layout.labelPlace? label = _
    rw [labelPlace?_bindLabel wellFormed, perform, isOk_answer]
    simp only [Command.bindLabel.injEq]
  · have notBind : ∀ other, command ≠ .bindLabel other :=
      fun other same => isBind ⟨other, same⟩
    rw [if_neg fun both => notBind label both.1]
    have sameGroup :
        (session.perform command).2.layout.labelGroup? label =
          session.layout.labelGroup? label := by
      by_cases isNew : command = .newLabel
      · rw [isNew]
        exact Layout.labelGroup?_addLabel session.layout label
      · rw [Layout.labelGroup?, labels_perform wellFormed isNew notBind, Layout.labelGroup?]
    refine wellFormed.labelPlace?_congr sameGroup ?_
    intro index group found
    obtain ⟨later, foundLater, first, -⟩ :=
      ((run_changes_any session [command]).keeps wellFormed).groups index group found
    exact ⟨later, foundLater, first⟩

theorem size_labels_perform
    (wellFormed : session.layout.WellFormed)
    (command : Command) :
    (session.perform command).2.layout.labels.size =
      session.layout.labels.size + if command = .newLabel then 1 else 0 := by
  by_cases isNew : command = .newLabel
  · rw [isNew, if_pos rfl]
    exact Array.size_push ..
  · rw [if_neg isNew, Nat.add_zero]
    by_cases isBind : ∃ label, command = .bindLabel label
    · obtain ⟨label, rfl⟩ := isBind
      exact size_labels_bindLabel wellFormed label
    · rw [labels_perform wellFormed isNew fun label same => isBind ⟨label, same⟩]

/-!
## Sessions
-/

/-- The labels of a session are those that were created. -/
theorem size_labels_run
    (config : Config)
    (commands : List Command) :
    ((start config).run commands).layout.labels.size = commands.count .newLabel := by
  induction commands using List.reverseRecOn with
  | nil =>
      rfl
  | append_singleton front command inductionHypothesis =>
      rw [run_append, List.count_append, ← inductionHypothesis, List.count_singleton]
      refine (size_labels_perform (wellFormed_run config front) command).trans ?_
      simp only [beq_iff_eq]

/-- A label has a place exactly when it was bound, and then where it was bound. -/
theorem labelPlace?_run_eq_some_iff
    {config : Config}
    {commands : List Command}
    {label : LabelId}
    {place : Nat} :
    ((start config).run commands).layout.labelPlace? label = some place ↔
      ∃ front back,
        commands = front ++ .bindLabel label :: back ∧
          (((start config).run front).perform (.bindLabel label)).1.isOk = true ∧
            ((start config).run front).layout.descriptors.size = place := by
  constructor
  · intro stands
    induction commands using List.reverseRecOn with
    | nil =>
        cases stands
    | append_singleton earlier command inductionHypothesis =>
        have wellFormed := wellFormed_run config earlier
        rw [run_append] at stands
        have before := (labelPlace?_perform wellFormed command label).symm.trans stands
        split at before
        · rename_i isBind
          obtain ⟨rfl, succeeds⟩ := isBind
          exact ⟨earlier, [], rfl, succeeds, Option.some.inj before⟩
        · obtain ⟨front, back, rfl, succeeds, isPlace⟩ := inductionHypothesis before
          exact ⟨front, back ++ [command], by simp, succeeds, isPlace⟩
  · rintro ⟨front, back, rfl, succeeds, rfl⟩
    have wellFormed := wellFormed_run config front
    have stands := labelPlace?_perform wellFormed (.bindLabel label) label
    rw [if_pos ⟨rfl, succeeds⟩] at stands
    -- The commands behind the binding keep what it has left.
    have changes := run_changes_any ((start config).run front) [.bindLabel label]
    have keeps := (run_changes_any _ back).keeps (changes.wellFormed wellFormed)
    rw [run_append]
    exact keeps.labelPlace?_eq_some stands

end Session

end Rv64Codegen
