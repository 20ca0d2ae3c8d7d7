import ForgeFlow.Execution.Updates

/-!
# Stored runs go forward under one definition

From a stored snapshot to a later one no status goes back and no task is added. The
schedulers hold a run with the definition on file, so whatever a snapshot shows as
released has its dependencies succeeded in it.
-/

namespace ForgeFlow.Execution

open ForgeFlow.Base ForgeFlow.Workflow

variable {run base : WorkflowRun} {k : TaskID} {d : WorkflowDefinition}

/-! ## Statuses go forward -/

/-- A run starts at most once and stays as it ended. -/
def WorkflowRunStatus.Forward (a b : WorkflowRunStatus) : Prop :=
  a = b ∨ a = .pending ∧ (b = .running ∨ b.terminal = true) ∨ a = .running ∧ b.terminal = true

theorem WorkflowRunStatus.Forward.trans {a b c : WorkflowRunStatus} (h : a.Forward b)
    (h' : b.Forward c) : a.Forward c := by
  rcases h with rfl | ⟨rfl, hb⟩ | ⟨rfl, hb⟩
  · exact h'
  · rcases h' with rfl | ⟨rfl, -⟩ | ⟨-, hc⟩
    · exact .inr (.inl ⟨rfl, hb⟩)
    · simp [terminal] at hb
    · exact .inr (.inl ⟨rfl, .inr hc⟩)
  · rcases h' with rfl | ⟨rfl, -⟩ | ⟨rfl, -⟩
    · exact .inr (.inr ⟨rfl, hb⟩)
    · cases hb
    · cases hb

theorem forward_of_legal {source target : WorkflowRunStatus}
    (h : legalWorkflowTransition source target = true) : source.Forward target := by
  cases source <;> simp only [legalWorkflowTransition, Bool.or_eq_true, decide_eq_true_eq,
    Bool.false_eq_true] at h
  · rcases h with rfl | rfl
    · exact .inr (.inl ⟨rfl, .inl rfl⟩)
    · exact .inr (.inl ⟨rfl, .inr rfl⟩)
  · rcases h with (rfl | rfl) | rfl <;> exact .inr (.inr ⟨rfl, rfl⟩)

theorem apply_forward (hc : Coherent run) (op : Operation) :
    run.status.Forward (run.apply op).status := by
  have htransition : ∀ target now, run.status.Forward
      (run.orElse (run.transitionWorkflow target now)).status := fun target now =>
    orElse_induction (P := fun r => run.status.Forward r.status) (.inl rfl) fun run' hok => by
      obtain ⟨hlegal, rfl⟩ := transitionWorkflow_ok hok
      exact forward_of_legal hlegal
  by_cases hquiet : op.quiet = true
  · exact .inl (Operation.quiet_frame hquiet run).1.symm
  cases op with
  | startWorkflow now => exact htransition .running now
  | succeed now => exact htransition .succeeded now
  | startTaskAttempt k w d now =>
    refine orElse_induction (P := fun r => run.status.Forward r.status) (.inl rfl) fun run' hok => ?_
    obtain ⟨a, ha⟩ := map_fst_ok hok
    obtain ⟨-, -, t, -, -, -, rfl⟩ := startTaskAttempt_ok ha
    exact .inl rfl
  | stop target cause now now' =>
    cases hl : legalWorkflowTransition run.status target with
    | true =>
      rw [WorkflowRun.apply, stopRun_ok hl]
      exact forward_of_legal hl
    | false =>
      rw [WorkflowRun.apply, stopRun_illegal hl]
      exact .inl rfl
  | persisted version => exact .inl rfl
  | restore =>
    refine orElse_induction (P := fun r => run.status.Forward r.status) (.inl rfl) fun run' hok => ?_
    rw [restore_snapshot_eq hc hc.definition hok]
    exact .inl rfl
  | _ => exact absurd rfl hquiet

theorem Advances.forward (h : Advances base run) (hc : Coherent base) :
    base.status.Forward run.status := by
  obtain ⟨ops, rfl, -⟩ := h
  induction ops generalizing base with
  | nil => exact .inl rfl
  | cons op ops ih => exact (apply_forward hc op).trans (ih (hc.apply op))

/-- A finished task stays as it is, and none becomes pending again. -/
def TaskRunStatus.Forward (a b : TaskRunStatus) : Prop :=
  a = b ∨ a.terminal = false ∧ b ≠ .pending

theorem TaskRunStatus.Forward.trans {a b c : TaskRunStatus} (h : a.Forward b) (h' : b.Forward c) :
    a.Forward c := by
  rcases h with rfl | ⟨ha, hb⟩
  · exact h'
  · rcases h' with rfl | ⟨-, hc⟩
    · exact .inr ⟨ha, hb⟩
    · exact .inr ⟨ha, hc⟩

theorem TaskMove.forward {runID : RunID} {since : Int} {policy : RetryPolicy}
    {p : Permits} {t t' : TaskRun} (hm : TaskMove runID since policy k p t t')
    (hi : Identified runID k t) : t.status.Forward t'.status := by
  cases hterminal : t.status.terminal with
  | true =>
    rw [hm.frozen hterminal]
    exact .inl rfl
  | false =>
    have hended : ∀ timestamp, AttemptEnded timestamp t t' → t'.status ≠ .pending := by
      intro timestamp he hp
      rcases he.status with ⟨hs | hs | hs, -⟩ | ⟨hs, -⟩ <;> rw [hp] at hs <;> cases hs
    cases hm with
    | markReady timestamp hs hr hp => exact .inr ⟨hterminal, nofun⟩
    | start w d timestamp hs hr hw hd hp => exact .inr ⟨hterminal, nofun⟩
    | renew w d timestamp hs hd => exact .inl (renew_status t w d timestamp).symm
    | complete output taskErr timestamp hs hr =>
      exact .inr ⟨hterminal, hended timestamp (complete_ended t policy output taskErr timestamp)⟩
    | recover timestamp hs hr =>
      exact .inr ⟨hterminal, hended timestamp (recover_ended hi policy timestamp)⟩
    | promote timestamp hs hr => exact .inr ⟨hterminal, nofun⟩
    | cancel cause timestamp hs hp =>
      rcases cancel_cases t cause timestamp with ⟨-, he⟩ | ⟨-, he⟩ <;> rw [he]
      · exact .inl rfl
      · exact .inr ⟨hterminal, nofun⟩

/-- The tasks of a run that came from another are its tasks, further on. -/
theorem Advances.tasks_forward (h : Advances base run)
    (hc : Coherent base) {t : TaskRun} (ht : base.tasks.get? k = some t) :
    ∃ t', run.tasks.get? k = some t' ∧ t.status.Forward t'.status :=
  h.keeps hc (P := fun u => t.status.Forward u.status)
    (fun _ _ _ _ _ hi hm hu => hu.trans (hm.forward hi)) ht (.inl rfl)

theorem Advances.no_new_task (h : Advances base run) (hc : Coherent base)
    (hk : base.tasks.get? k = none) : run.tasks.get? k = none := by
  obtain ⟨ops, rfl, -⟩ := h
  induction ops generalizing base with
  | nil => exact hk
  | cons op ops ih => exact ih (hc.apply op) ((apply_evolves hc op).absent k hk)

/-! ## The definition on file -/

/-- A run of the definition in which tasks wait for their dependencies. -/
structure Lawful (d : WorkflowDefinition) (run : WorkflowRun) : Prop where
  coherent : Coherent run
  definition : run.definition = cloneDefinition d
  respected : DependenciesRespected run

theorem Lawful.advances (h : Lawful d base) (ha : Advances base run) : Lawful d run := by
  refine ⟨ha.coherent h.coherent, (ha.definition h.coherent).trans h.definition, ?_⟩
  obtain ⟨ops, rfl, -⟩ := ha
  exact h.respected.applyAll h.coherent ops

theorem newWorkflowRun_lawful {runID : RunID}
    {now : Int} (h : newWorkflowRun runID (cloneDefinition d) now = .ok run) : Lawful d run where
  coherent := newWorkflowRun_coherent h
  definition := by
    obtain ⟨-, -, rfl⟩ := newWorkflowRun_ok h
    exact cloneDefinition_clone d
  respected k t ht hrel := by
    obtain ⟨-, rfl⟩ := (newWorkflowRun_get? h).mp ht
    cases hrel

/-- Definitions are filed under their IDs, and schedulers hold runs with definitions on file. -/
structure OnFile (w : World) (ledgers : Nat → Ledger) : Prop where
  keyed : ∀ id d, w.workflows.get? id = some d → d.id = id
  held : ∀ pid held, (ledgers pid).definition = some held →
    ∃ d, w.workflows.get? d.id = some d ∧ held = cloneDefinition d

section

variable {w w' : World} {ledgers : Nat → Ledger} {choice : Choice} {pid : Nat} {p p' : Process}
  {c : EngineCall} {r : EngineResult c}

/-- A definition that is saved is on file afterwards, and none is replaced. -/
theorem saveWorkflow_filed {u : Unit} (hkeyed : ∀ id d, w.workflows.get? id = some d → d.id = id)
    (h : w.saveWorkflow d = .ok (u, w')) :
    (∀ id d, w'.workflows.get? id = some d → d.id = id) ∧
      (∀ id d, w.workflows.get? id = some d → w'.workflows.get? id = some d) ∧
      w'.workflows.get? d.id = some d := by
  unfold World.saveWorkflow at h
  split at h
  · rename_i existing hexisting
    split at h
    · rename_i heq
      cases h
      exact ⟨hkeyed, fun _ _ hd => hd, heq ▸ hexisting⟩
    · cases h
  · rename_i hnone
    cases h
    refine ⟨fun id d' hd => ?_, fun id d' hd => ?_, KeyMap.get?_insert_self _ _ _⟩
    · rw [KeyMap.get?_insert] at hd
      split at hd
      · rename_i hid
        cases hd
        exact hid.symm
      · exact hkeyed id d' hd
    · rw [KeyMap.get?_insert_ne _ _ fun hid => ?_]
      · exact hd
      · rw [hid, hnone] at hd
        cases hd

theorem answer_filed (hkeyed : ∀ id d, w.workflows.get? id = some d → d.id = id)
    (ha : answer choice pid p w c = some (r, p', w')) :
    (∀ id d, w'.workflows.get? id = some d → d.id = id) ∧
      ∀ id d, w.workflows.get? id = some d → w'.workflows.get? id = some d := by
  have hsame : w'.workflows = w.workflows →
      (∀ id d, w'.workflows.get? id = some d → d.id = id) ∧
      ∀ id d, w.workflows.get? id = some d → w'.workflows.get? id = some d := by
    intro hw
    rw [hw]
    exact ⟨hkeyed, fun _ _ hd => hd⟩
  rcases answer_cases ha with ⟨-, -, hw | ⟨d, -, hsave⟩⟩ | ⟨_, -, -, -, rfl⟩ |
    ⟨_, _, _, -, -, -, -, rfl⟩ | ⟨_, -, -, hw⟩ | ⟨_, job, -, -, hw⟩ | ⟨_, _, -, rfl, -⟩ |
    ⟨_, -, rfl, -⟩ | ⟨-, rfl, -⟩ | ⟨_, _, _, -, rfl, -⟩
  · exact hsame hw
  · exact ⟨(saveWorkflow_filed hkeyed hsave).1, (saveWorkflow_filed hkeyed hsave).2.1⟩
  · exact hsame rfl
  · exact hsame rfl
  · exact hsame (by rw [hw])
  · cases job <;> exact hsame (by rw [hw])
  all_goals exact hsame rfl

/-- A scheduler takes its definition from the store, or has saved it there. -/
theorem note_filed (hkeyed : ∀ id d, w.workflows.get? id = some d → d.id = id)
    (ha : answer choice pid p w c = some (r, p', w')) (config : EngineConfig) (runID : RunID)
    (g : Ledger) {held : WorkflowDefinition}
    (h : (g.note config runID c r).definition = some held) :
    g.definition = some held ∨ ∃ d, w'.workflows.get? d.id = some d ∧ held = cloneDefinition d := by
  cases c with
  | saveWorkflow d =>
    rcases Choice.attempt_cases (attempt_map ha).2 with ⟨a, hok, -⟩ | ⟨-, e, rfl⟩
    · cases r with
      | error e => exact .inl h
      | ok _ =>
        cases h
        exact .inr ⟨d, (saveWorkflow_filed hkeyed hok).2.2, rfl⟩
    · exact .inl h
  | loadWorkflow id =>
    rcases r with e | _ | d
    · exact .inl h
    · exact .inl h
    · rcases Choice.attempt_cases (attempt_map ha).2 with ⟨a, hok, hr⟩ | ⟨-, e, he⟩
      · obtain ⟨hvalue, rfl⟩ := World.whileLive_ok hok
        have hd := (hr (some d) rfl).trans hvalue
        cases h
        exact .inr ⟨d, by rw [hkeyed id d hd.symm]; exact hd.symm, rfl⟩
      · cases he
  | createRun s => cases r <;> exact .inl h
  | saveRun s => cases r <;> exact .inl h
  | loadRun id => rcases r with e | _ | s <;> exact .inl h
  | publish m => cases r <;> exact .inl h
  | ack d => cases r <;> exact .inl h
  | nack d => rcases r with (_ | _) | _ <;> exact .inl h
  | progress d => cases r <;> exact .inl h
  | respond claim job => cases job <;> exact .inl h
  | select armed => cases r <;> exact .inl h
  | _ => exact .inl h

/-- Every step keeps the ledgers in order and the definitions on file. -/
theorem OnFile.step {label : Label} (hc : Consistent w ledgers) (h : OnFile w ledgers)
    (hm : w.Moves label w') :
    (∃ ledgers', Consistent w' ledgers' ∧ OnFile w' ledgers') ∧
      ∀ id d, w.workflows.get? id = some d → w'.workflows.get? id = some d := by
  cases hm with
  | @launch pid config start hnone =>
    refine ⟨⟨_, hc.launch hnone config start, h.keyed, fun pid' held hheld => ?_⟩, fun _ _ hd => hd⟩
    by_cases heq : pid' = pid
    · subst heq
      rw [Function.update_self] at hheld
      cases start <;> cases hheld
    · rw [Function.update_of_ne heq] at hheld
      exact h.held pid' held hheld
  | @call pid p p' v c next r choice hlive ht ha =>
    obtain ⟨hkeyed, hkept⟩ := answer_filed h.keyed ha
    have hold : ∀ pid' held, (ledgers pid').definition = some held →
        ∃ d, v.workflows.get? d.id = some d ∧ held = cloneDefinition d := by
      intro pid' held hheld
      obtain ⟨d, hd, heq⟩ := h.held pid' held hheld
      exact ⟨d, hkept _ _ hd, heq⟩
    refine ⟨⟨_, hc.call hlive ht ha, hkeyed, fun pid' held hheld => ?_⟩, hkept⟩
    by_cases heq : pid' = pid
    · subst heq
      rw [Function.update_self] at hheld
      exact (note_filed h.keyed ha _ _ _ hheld).elim (hold pid' held) id
    · rw [Function.update_of_ne heq] at hheld
      exact hold pid' held hheld
  | again choice hlive ht =>
    exact ⟨⟨ledgers, hc.quiet (.again choice hlive ht) nofun
      (pending_none choice hlive (by rw [ht]; rfl)), h.keyed, h.held⟩, fun _ _ hd => hd⟩
  | finish choice hlive ht =>
    exact ⟨⟨ledgers, hc.quiet (.finish choice hlive ht) nofun
      (pending_none choice hlive (by rw [ht]; rfl)), h.keyed, h.held⟩, fun _ _ hd => hd⟩
  | crash hlive =>
    exact ⟨⟨ledgers, hc.quiet (.crash hlive) nofun nofun, h.keyed, h.held⟩, fun _ _ hd => hd⟩
  | cancel hlive =>
    exact ⟨⟨ledgers, hc.quiet (.cancel hlive) nofun nofun, h.keyed, h.held⟩, fun _ _ hd => hd⟩
  | worker hlive hw hm =>
    exact ⟨⟨ledgers, hc.quiet (.worker hlive hw hm) nofun nofun, h.keyed, h.held⟩,
      fun _ _ hd => hd⟩
  | transport broker =>
    exact ⟨⟨ledgers, hc.quiet (.transport broker) nofun nofun, h.keyed, h.held⟩, fun _ _ hd => hd⟩

/-- What is saved continues the last snapshot under a definition on file. -/
theorem OnFile.saves {config : EngineConfig} {s current : WorkflowRunSnapshot}
    {rest : List WorkflowRunSnapshot} (hc : Consistent w ledgers) (h : OnFile w ledgers)
    (hneeds : (ledgers pid).needs config w.runID (.saveRun s))
    (hhistory : w.history = current :: rest) (hversion : s.version = current.version) :
    ∃ base run d, Stored current base ∧ Advances base run ∧ s = run.snapshot ∧
      w.workflows.get? d.id = some d ∧ base.definition = cloneDefinition d := by
  have hstored := (Chain.saved (hhistory ▸ hc.chain) (hhistory ▸ hc.informed pid) hneeds hversion).1
  obtain ⟨s₀, base, run, hs₀, hbase, hadv, rfl, -, hdefinition⟩ := hneeds
  cases hs₀.symm.trans hstored
  obtain ⟨d, hd, heq⟩ := h.held pid _ hdefinition
  exact ⟨base, run, d, hbase, hadv, rfl, hd, (hadv.definition hbase.coherent).symm.trans heq⟩

end

end ForgeFlow.Execution
