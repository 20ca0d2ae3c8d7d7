import ForgeFlow.Execution.Guarantees

/-!
# Recovering a run that has come to its end

Recording that a task failed and failing the workflow are two saves. When the
process stops between them, `Recover` has only to finish the run: it makes no
further attempt, and all it can save is the run with its unfinished tasks canceled.
-/

namespace ForgeFlow.Execution

open ForgeFlow.Base ForgeFlow.Workflow

/-- The status left for a run in which a task failed or was canceled. -/
def WorkflowRunSnapshot.endStatus (s : WorkflowRunSnapshot) : WorkflowRunStatus :=
  if s.tasks.any fun t => t.status = .failed then .failed else .canceled

/-- The snapshot with everything unfinished canceled. -/
structure Ended (s x : WorkflowRunSnapshot) : Prop where
  status : x.status = s.endStatus
  kept : ∀ k t, s.taskMap.get? k = some t → t.status.terminal = true → x.taskMap.get? k = some t
  canceled : ∀ k t, s.taskMap.get? k = some t → t.status.terminal = false →
    ∃ t', x.taskMap.get? k = some t' ∧ t'.status = .canceled
  origin : ∀ k t, x.taskMap.get? k = some t → ∃ t₀, s.taskMap.get? k = some t₀

theorem Ended.terminal {s x : WorkflowRunSnapshot} (h : Ended s x) : x.status.terminal = true := by
  rw [h.status, WorkflowRunSnapshot.endStatus]
  split <;> rfl

/-- What the calls of `Recover` need when `s` is the last snapshot of the run; the
ghost state is what was loaded. -/
def endedNeeds (s : WorkflowRunSnapshot) (loaded : Option WorkflowRunSnapshot) :
    EngineCall → Prop
  | .saveRun x => loaded = some s ∧ x.version = s.version ∧ Ended s x
  | .createRun _ | .publish _ | .respond .. => False
  | _ => True

def endedExpects (s : WorkflowRunSnapshot) : (c : EngineCall) → EngineResult c → Prop
  | .loadRun _, .ok (some y) => y = s ∨ ∃ x, Ended s x ∧ y = x.next
  | _, _ => True

def endedNote (loaded : Option WorkflowRunSnapshot) :
    (c : EngineCall) → EngineResult c → Option WorkflowRunSnapshot
  | .loadRun _, .ok (some y) => some y
  | _, _ => loaded

def endedContract (s : WorkflowRunSnapshot) :
    Contract EngineCall EngineResult (Option WorkflowRunSnapshot) :=
  Contract.of (endedNeeds s) (fun _ => endedExpects s) endedNote

section

variable {s : WorkflowRunSnapshot} {d : WorkflowDefinition} {run run' : WorkflowRun}

theorem terminal_iff_finished {status : TaskRunStatus} (hv : status.valid = true) :
    status.terminal = true ↔ status.unfinished = false := by
  cases status <;> simp_all [TaskRunStatus.terminal, TaskRunStatus.unfinished,
    TaskRunStatus.valid]

/-- Stopping the run cancels what is unfinished and keeps the rest. -/
theorem stopRun_ended (hr : restoreWorkflowRun s d = .ok run) {cause : TaskError} {now now' : Int}
    (hstop : stopRun run s.endStatus (some cause) now now' = (run', .ok ())) :
    run'.version = s.version ∧ Ended s run'.snapshot := by
  have hstored := Stored.of_restore hr
  have hcoherent : Coherent run' := by
    have happly := hstored.coherent.apply (.stop s.endStatus (some cause) now now')
    rw [WorkflowRun.apply, hstop] at happly
    exact happly
  have hmap : run'.snapshot.taskMap = run'.tasks := (Stored.of_saved hcoherent 0).tasks
  have hvalid : ∀ k t, s.taskMap.get? k = some t → t.status.valid = true := by
    intro k t ht
    obtain ⟨u, hu, -, rfl⟩ := taskMap_mem ht
    rw [(restored_frame u s.id).2.1]
    exact ((restoreWorkflowRun_ok hr).1.taskRuns u hu).status
  obtain ⟨hstatus, hversion, htasks⟩ := stopRun_stopped hstop
  rw [← hstored.tasks, ← hmap] at htasks
  refine ⟨hversion.trans hstored.version.symm, hstatus, fun k t ht hterm => ?_,
    fun k t ht hterm => ?_, fun k t ht => ?_⟩
  · have hfin := (terminal_iff_finished (hvalid k t ht)).mp hterm
    rw [htasks, ht, Option.map_some, TaskRun.cancel, hfin]
    rfl
  · have hopen : t.status.unfinished = true := by
      by_contra hfin
      rw [(terminal_iff_finished (hvalid k t ht)).mpr (Bool.eq_false_iff.mpr hfin)] at hterm
      cases hterm
    refine ⟨_, by rw [htasks, ht, Option.map_some], ?_⟩
    rw [TaskRun.cancel, if_pos hopen]
  · rw [htasks] at ht
    obtain ⟨t₀, ht₀, -⟩ := Option.map_eq_some_iff.mp ht
    exact ⟨t₀, ht₀⟩

/-- What a call of `Recover` does here, whatever it finds: it ends without entering the loop. -/
def EndsOnly : Step Scheduler RunOutcome → Option WorkflowRunSnapshot → Prop :=
  Step.Holds (fun _ _ => False) fun _ _ => True

theorem wp_finishEnded {cause : TaskError} (hr : restoreWorkflowRun s d = .ok run) :
    (finishRecovered run s.endStatus cause).wp (endedContract s) EndsOnly (some s) := by
  refine Prog.wp_perform_bind.mpr ⟨trivial, fun now _ => ?_⟩
  refine Prog.wp_perform_bind.mpr ⟨trivial, fun now' _ => ?_⟩
  rcases hstop : stopRun run s.endStatus (some cause) now now' with ⟨run', e | _⟩ <;>
    simp only [hstop]
  · exact trivial
  · obtain ⟨hversion, hended⟩ := stopRun_ended hr hstop
    refine ⟨⟨rfl, hversion, hended⟩, fun answer _ => ?_⟩
    dsimp only [Prog.bind, pure]
    cases persisted run' "finish recovered workflow run" answer <;> exact trivial

/-- The run restored from a snapshot with a failed or canceled task has a status to
finish with. -/
theorem recoveredTerminalTaskState_ended (hr : restoreWorkflowRun s d = .ok run)
    (hs : ∃ t ∈ s.tasks, t.status = .failed ∨ t.status = .canceled) :
    ∃ cause, recoveredTerminalTaskState run = some (s.endStatus, cause) := by
  have hmem : ∀ u ∈ s.tasks, ∃ t ∈ run.sortedTasks, t.status = u.status := fun u hu =>
    ⟨_, mem_sortedTasks ((restoreWorkflowRun_get? hr).mpr ⟨u, hu, rfl, rfl⟩),
      (restored_frame u s.id).2.1⟩
  have horigin : ∀ t ∈ run.sortedTasks, ∃ u ∈ s.tasks, t.status = u.status := by
    intro t ht
    obtain ⟨k, hk⟩ := (KeyMap.mem_values_iff _ _).mp ht
    obtain ⟨u, hu, -, rfl⟩ := (restoreWorkflowRun_get? hr).mp hk
    exact ⟨u, hu, (restored_frame u s.id).2.1⟩
  cases hstate : recoveredTerminalTaskState run with
  | none =>
    exfalso
    obtain ⟨u, hu, hus⟩ := hs
    obtain ⟨t, ht, hts⟩ := hmem u hu
    unfold recoveredTerminalTaskState at hstate
    split at hstate
    · cases hstate
    · rename_i hnone
      split at hstate
      · cases hstate
      · rename_i hcanceled
        rcases hus with hus | hus
        · exact absurd (List.find?_eq_none.mp hnone t ht) (by simp [hts, hus])
        · exact hcanceled (List.any_eq_true.mpr ⟨t, ht, by simp [hts, hus]⟩)
  | some state =>
    obtain ⟨status, cause⟩ := state
    refine ⟨cause, ?_⟩
    rcases recoveredTerminalTaskState_some hstate with ⟨rfl, t, ht, hfailed⟩ | ⟨rfl, hnone, -⟩
    · obtain ⟨u, hu, hus⟩ := horigin t ht
      rw [WorkflowRunSnapshot.endStatus, if_pos]
      exact List.any_eq_true.mpr ⟨u, hu, by simp [← hus, hfailed]⟩
    · rw [WorkflowRunSnapshot.endStatus, if_neg]
      intro hany
      obtain ⟨u, hu, hus⟩ := List.any_eq_true.mp hany
      obtain ⟨t, ht, hts⟩ := hmem u hu
      exact hnone t ht (by rw [hts]; simpa using hus)

theorem wp_recoverEnded (hs : ∃ t ∈ s.tasks, t.status = .failed ∨ t.status = .canceled)
    (config : EngineConfig) (runID : RunID) :
    (recoverEngine config runID).wp (endedContract s) EndsOnly none := by
  unfold recoverEngine
  split
  · exact trivial
  · refine Prog.wp_perform_bind.mpr ⟨trivial, ?_⟩
    rintro (e | _ | y) hload
    · exact trivial
    · exact trivial
    · refine Prog.wp_perform_bind.mpr ⟨trivial, ?_⟩
      rintro (e | _ | d) -
      · exact trivial
      · exact trivial
      · dsimp only
        cases hr : restoreWorkflowRun y d with
        | error e => exact trivial
        | ok run =>
          have hstatus := (Stored.of_restore hr).status
          dsimp only
          unfold recoverRun
          split
          · exact trivial
          · rename_i hlive
            rcases hload with rfl | ⟨x, hx, rfl⟩
            · obtain ⟨cause, hstate⟩ := recoveredTerminalTaskState_ended hr hs
              rw [hstate]
              exact wp_finishEnded hr
            · rw [← hstatus] at hlive
              exact absurd hx.terminal hlive

end

/-! ## Repeated recoveries -/

/-- The world since the run came to its end: nothing was published or handed out,
and at most one snapshot was stored, the one that ends the run. -/
structure Recovering (s : WorkflowRunSnapshot) (w₀ : World)
    (loaded : Nat → Option WorkflowRunSnapshot) (w : World) : Prop where
  log : w.log = w₀.log
  history : w.history = w₀.history ∨
    ∃ x, w.history = x.next :: w₀.history ∧ x.version = s.version ∧ Ended s x
  safe : ∀ pid p, w.Live pid p →
    p.thread.Safe (endedContract s) (fun _ _ => False) (fun _ _ => True) (loaded pid)

section

variable {s : WorkflowRunSnapshot} {w₀ w w' : World} {loaded : Nat → Option WorkflowRunSnapshot}
  {pid : Nat} {p p' : Process}

/-- What the store holds last. -/
theorem Recovering.head (h : Recovering s w₀ loaded w) (hs : w₀.history.head? = some s)
    {y : WorkflowRunSnapshot} (hy : w.history.head? = some y) :
    y = s ∧ w.history = w₀.history ∨ ∃ x, Ended s x ∧ x.version = s.version ∧ y = x.next := by
  rcases h.history with heq | ⟨x, heq, hv, hx⟩
  · rw [heq, hs] at hy
    cases hy
    exact .inl ⟨rfl, heq⟩
  · rw [heq] at hy
    cases hy
    exact .inr ⟨x, hx, hv, rfl⟩

theorem Recovering.put (h : Recovering s w₀ loaded w) (broker : MemoryBroker) (p' : Process)
    (hsafe : p'.crashed = false →
      p'.thread.Safe (endedContract s) (fun _ _ => False) (fun _ _ => True) (loaded pid)) :
    Recovering s w₀ loaded ({ w with broker := broker }.put pid p') where
  log := h.log
  history := h.history
  safe pid' q hq := by
    rcases World.live_put hq with ⟨rfl, rfl⟩ | ⟨-, hq'⟩
    · exact hsafe hq.2
    · exact h.safe pid' q hq'

theorem Recovering.expects (h : Recovering s w₀ loaded w) (hs : w₀.history.head? = some s)
    {choice : Choice} {c : EngineCall} {r : EngineResult c}
    (ha : answer choice pid p w c = some (r, p', w')) : endedExpects s c r := by
  cases c with
  | loadRun id =>
    rcases Choice.attempt_cases (attempt_map ha).2 with ⟨a, hok, hr⟩ | ⟨-, e, rfl⟩
    · obtain ⟨rfl, -⟩ := World.whileLive_ok hok
      rcases r with e | _ | y
      · trivial
      · trivial
      · rcases h.head hs (hr (some y) rfl).symm with ⟨rfl, -⟩ | ⟨x, hx, -, rfl⟩
        · exact .inl rfl
        · exact .inr ⟨x, hx, rfl⟩
    · trivial
  | _ => trivial

theorem Recovering.stored (h : Recovering s w₀ loaded w) (hs : w₀.history.head? = some s)
    {choice : Choice} {c : EngineCall} {r : EngineResult c}
    (hneeds : endedNeeds s (loaded pid) c) (ha : answer choice pid p w c = some (r, p', w')) :
    w'.history = w₀.history ∨
      ∃ x, w'.history = x.next :: w₀.history ∧ x.version = s.version ∧ Ended s x := by
  rcases answer_stores ha with hsame | ⟨x, rfl, -⟩ | ⟨x, current, rest, rfl, hhist, hv, hnew⟩
  · rw [hsame]
    exact h.history
  · exact hneeds.elim
  · obtain ⟨-, hversion, hended⟩ := hneeds
    -- the save is of the version that was loaded, so nothing was stored since
    rcases h.head hs (by rw [hhist]; rfl) with ⟨rfl, heq⟩ | ⟨y, -, hy, rfl⟩
    · exact .inr ⟨x, by rw [hnew, heq], hversion, hended⟩
    · have hnext : y.next.version = y.version + 1 := rfl
      omega

theorem Recovering.call (h : Recovering s w₀ loaded w) (hs : w₀.history.head? = some s)
    {choice : Choice} {c : EngineCall} {next : EngineResult c → Round} {r : EngineResult c}
    (hlive : w.Live pid p) (ht : p.thread = .running (.call c next))
    (ha : answer choice pid p w c = some (r, p', w')) :
    Recovering s w₀ (Function.update loaded pid (endedNote (loaded pid) c r))
      (w'.put pid { p' with thread := .running (next r) }) := by
  have hsafe := h.safe pid p hlive
  rw [ht] at hsafe
  obtain ⟨hneeds, hnext⟩ := hsafe
  obtain ⟨-, hprocesses, -, -, hlog⟩ := answer_log ha
  have hstored := h.stored hs hneeds ha
  refine ⟨?_, hstored, fun pid' q hq => ?_⟩
  · rcases hlog with hlog | ⟨m, rfl, -⟩ | ⟨_, _, rfl, -⟩
    · exact hlog.trans h.log
    · exact hneeds.elim
    · exact hneeds.elim
  · rcases World.live_put hq with ⟨rfl, rfl⟩ | ⟨hne, hq'⟩
    · rw [Function.update_self]
      exact hnext r (h.expects hs ha)
    · rw [World.Live, hprocesses] at hq'
      rw [Function.update_of_ne hne]
      exact h.safe pid' q hq'

/-- The label does not start the run anew. -/
def Label.recovers : Label → Bool
  | .launch _ _ (.execute _) => false
  | _ => true

theorem Recovering.step (h : Recovering s w₀ loaded w) (hs : w₀.history.head? = some s)
    (htask : ∃ t ∈ s.tasks, t.status = .failed ∨ t.status = .canceled) {label : Label}
    (hl : label.recovers = true) (hm : w.Moves label w') :
    ∃ loaded', Recovering s w₀ loaded' w' := by
  cases hm with
  | @launch pid config start hnone =>
    cases start with
    | execute d => cases hl
    | recover =>
      refine ⟨Function.update loaded pid none, h.log, h.history, fun pid' q hq => ?_⟩
      rcases World.live_put hq with ⟨rfl, rfl⟩ | ⟨hne, hq'⟩
      · rw [Function.update_self]
        exact wp_recoverEnded htask config w.runID
      · rw [Function.update_of_ne hne]
        exact h.safe pid' q hq'
  | crash hlive => exact ⟨loaded, h.put w.broker _ nofun⟩
  | @cancel pid p hlive => exact ⟨loaded, h.put w.broker _ fun _ => h.safe pid p hlive⟩
  | @again pid p st choice hlive ht =>
    have hsafe := h.safe pid p hlive
    rw [ht] at hsafe
    exact hsafe.elim
  | finish choice hlive ht => exact ⟨loaded, h.put w.broker _ fun _ => trivial⟩
  | call hlive ht ha => exact ⟨_, h.call hs hlive ht ha⟩
  | worker hlive hw hm =>
    refine ⟨loaded, h.put _ _ fun _ => ?_⟩
    rw [(moveWorker_frame hm).2.2]
    exact h.safe _ _ hlive
  | transport broker => exact ⟨loaded, h.log, h.history, h.safe⟩

end

/-- No process that is still there runs a scheduler. -/
def World.Stopped (w : World) : Prop :=
  ∀ pid p, w.Live pid p → ∃ outcome, p.thread = .finished outcome

/-- The call makes an attempt or hands one out. -/
def EngineCall.attempts : EngineCall → Bool
  | .publish _ | .respond .. => true
  | _ => false

/-- Once a task failed or was canceled, recoveries make no further attempt, however
often they are interrupted, and store at most one more snapshot: the run ended, with
its finished tasks as they were and the others canceled. -/
theorem recovery_only_ends_run {w w' : World} {s : WorkflowRunSnapshot} {labels : List Label}
    (hstopped : w.Stopped) (hs : w.history.head? = some s)
    (htask : ∃ t ∈ s.tasks, t.status = .failed ∨ t.status = .canceled)
    (hl : ∀ label ∈ labels, label.recovers = true) (hrun : w.run labels = some w') :
    (∀ pid c, w'.pending pid = some c → c.attempts = false) ∧ w'.log = w.log ∧
      (w'.history = w.history ∨ ∃ s', w'.history = s' :: w.history ∧ Ended s s') := by
  have hinit : Recovering s w (fun _ => none) w := by
    refine ⟨rfl, .inl rfl, fun pid p hlive => ?_⟩
    obtain ⟨outcome, ht⟩ := hstopped pid p hlive
    rw [ht]
    trivial
  obtain ⟨loaded, h⟩ : ∃ loaded, Recovering s w loaded w' := by
    refine (World.meets_of_labels w hl).induction (P := fun w' => ∃ loaded, Recovering s w loaded w')
      ?_ ⟨_, hinit⟩ hrun
    rintro w₁ label w₂ hlabel ⟨loaded, h⟩ hm
    exact h.step hs htask hlabel hm
  refine ⟨fun pid c hp => ?_, h.log, ?_⟩
  · obtain ⟨p, next, hlive, ht⟩ := World.pending_some hp
    have hsafe := h.safe pid p hlive
    rw [ht] at hsafe
    have hneeds : endedNeeds s (loaded pid) c := hsafe.1
    cases c with
    | publish m => exact hneeds.elim
    | respond claim job => exact hneeds.elim
    | _ => rfl
  · rcases h.history with heq | ⟨x, heq, -, hx⟩
    · exact .inl heq
    · exact .inr ⟨x.next, heq, hx.status, hx.kept, hx.canceled, hx.origin⟩

/-- A handler fails and the failure is saved; the process ends before it fails the run. -/
def crashAfterFailure : List Label :=
  firstClaim (ascii "r") [ascii "a", ascii "b"] ++ schedulerSteps 0 [.clock 5, .go, .go] ++
    workerSteps 0 (workerIDFor sampleConfig (ascii "r") 1 1)
      [.takeAnswer, .finish [] (some ⟨ascii "failed", false⟩), .sendResult] ++
    schedulerSteps 0 [.go, .go, .clock 5, .clock 5, .take .result, .go, .clock 5, .go] ++ [.crash 0]

/-- One recovery ends before its save, the next one saves. -/
def recoverTwice : List Label :=
  .launch 1 sampleConfig .recover :: schedulerSteps 1 [.go, .go, .clock 6] ++
    .crash 1 :: .launch 2 sampleConfig .recover :: schedulerSteps 2 [.go, .go, .clock 7, .clock 7, .go]

theorem sample_recovery_ends_run : ∃ w w' s s',
    (sampleWorld (ascii "r")).run crashAfterFailure = some w ∧ w.history.head? = some s ∧
    w.run recoverTwice = some w' ∧ w'.log = w.log ∧ w'.history = s' :: w.history ∧ Ended s s' ∧
      s'.status = .failed := by
  obtain ⟨w, hrun, hstopped, hfailed, hagain⟩ := run_reaches (sampleWorld (ascii "r"))
    crashAfterFailure (fun w => (w.processes.values.all fun p => p.crashed) = true ∧
      (w.history.head?.any fun s => s.tasks.any fun t => t.status = .failed) = true ∧
      ((w.run recoverTwice).any fun w' => w'.history.length ≠ w.history.length) = true)
    (by decide +kernel)
  obtain ⟨s, hs, htask⟩ := (Option.any_eq_true _ _).mp hfailed
  obtain ⟨w', hrun', hlength⟩ := (Option.any_eq_true _ _).mp hagain
  have hwas : w.Stopped := by
    intro pid p hlive
    have hp := List.all_eq_true.mp hstopped p ((KeyMap.mem_values_iff _ _).mpr ⟨pid, hlive.1⟩)
    rw [hlive.2] at hp
    cases hp
  have hmem : ∃ t ∈ s.tasks, t.status = .failed := by simpa using htask
  obtain ⟨t, ht, hstatus⟩ := hmem
  obtain ⟨-, hlog, heq | ⟨s', hs', hended⟩⟩ := recovery_only_ends_run hwas hs
    ⟨t, ht, .inl hstatus⟩ (by decide) hrun'
  · rw [heq] at hlength
    simp at hlength
  · refine ⟨w, w', s, s', hrun, hs, hrun', hlog, hs', hended, hended.status.trans ?_⟩
    rw [WorkflowRunSnapshot.endStatus, if_pos htask]

end ForgeFlow.Execution
