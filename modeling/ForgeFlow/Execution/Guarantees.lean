import ForgeFlow.Execution.Consistency

/-!
# What holds of a run however its schedulers are interleaved

Attempts are handed out once and only under a stored lease; deliveries are
acknowledged only for attempts that are over; no worker holds two leases. The last
two do not hold of every run: the conditions say of which.
-/

namespace ForgeFlow.Execution

open ForgeFlow.Base ForgeFlow.Workflow

variable {w w' : World} {labels : List Label}

/-! ## Attempts are handed out once -/

/-- Over a whole history, however many schedulers work on the run, every attempt is
handed out at most once, and only after its lease was stored. -/
theorem attempts_handed_out_once (h : w.Initial) (hrun : w.run labels = some w') :
    w'.handedAttempts.Nodup ∧
      ∀ pid claim job, w'.pending pid = some (.respond claim (some job)) →
        ∃ s ∈ w'.history, ∃ t ∈ s.tasks, ∃ l, t.taskID = job.request.task.id ∧
          t.status = .running ∧ t.currentAttemptID = job.request.attemptID ∧ t.lease = some l ∧
          l.workerID = claim.workerID ∧ l.attemptID = job.request.attemptID := by
  obtain ⟨ledgers, hc⟩ := h.reached hrun
  refine ⟨hc.once, fun pid claim job hp => ?_⟩
  obtain ⟨config, -, -, -, s, before, k, t, u, l, hs, -, hmem, -, -, -, hk, htask, hstatus, ha, hl,
    hw, hla, -⟩ := hc.pending hp
  exact ⟨s, (hc.informed pid).stored s hs, t, hmem, l, hk.trans htask.symm, hstatus, ha, hl, hw, hla⟩

theorem run_reaches (w : World) (labels : List Label) (P : World → Prop) [DecidablePred P]
    (h : (w.run labels).any (fun w' => decide (P w')) = true) :
    ∃ w', w.run labels = some w' ∧ P w' := by
  cases hrun : w.run labels with
  | none =>
    rw [hrun] at h
    cases h
  | some w' =>
    rw [hrun] at h
    exact ⟨w', rfl, of_decide_eq_true h⟩

def schedulerSteps (pid : Nat) (choices : List Choice) : List Label :=
  choices.map (.scheduler pid)

def workerSteps (pid : Nat) (id : WorkerID) (moves : List WorkerMove) : List Label :=
  moves.map (.worker pid id)

def sampleConfig : EngineConfig where
  workerCount := 1
  leaseDuration := 10
  workerNamespace := ascii "n"
  registered := fun _ => true
  workerCount_pos := by decide
  leaseDuration_pos := by decide
  workerNamespace_valid := by decide

def sampleTask (id : TaskID) : TaskDefinition := ⟨id, ascii "task", .nil, ascii "h", [], ⟨0, 0, 0⟩⟩

/-- A store that validates, and nothing in it. -/
def sampleWorld (runID : RunID) : World := { runID := runID, validating := true }

theorem sampleWorld_initial (runID : RunID) : (sampleWorld runID).Initial := ⟨rfl, rfl, .inl rfl⟩

/-- The calls of `Execute` up to the first `select`, with so many tasks ready at the start. -/
def executeToSelect (ready : Nat) : List Choice :=
  [.clock 5, .go, .go, .go, .clock 5, .go, .clocks fun _ => 5, .go, .go, .go, .go, .clock 5,
    .clock 5] ++ List.replicate ready .go

/-- A run with independent tasks starts; its worker claims the first one. -/
def firstClaim (runID : RunID) (tasks : List TaskID) : List Label :=
  .launch 0 sampleConfig (.execute ⟨ascii "w", tasks.map sampleTask⟩) ::
    schedulerSteps 0 (executeToSelect tasks.length) ++
    workerSteps 0 (workerIDFor sampleConfig runID 1 1) [.start, .receive, .sendClaim] ++
    schedulerSteps 0 [.take .claim]

theorem sample_attempt_handed_out : ∃ w',
    (sampleWorld (ascii "r")).run (firstClaim (ascii "r") [ascii "a"] ++
      schedulerSteps 0 [.clock 5, .go, .go]) = some w' ∧
    w'.handedAttempts = [attemptIDFor (taskRunIDFor (ascii "r") (ascii "a")) 1] ∧
    w'.handedAttempts.Nodup := by
  obtain ⟨w', hrun, hhanded⟩ := run_reaches (sampleWorld (ascii "r"))
    (firstClaim (ascii "r") [ascii "a"] ++ schedulerSteps 0 [.clock 5, .go, .go])
    (fun w' => w'.handedAttempts = [attemptIDFor (taskRunIDFor (ascii "r") (ascii "a")) 1])
    (by decide +kernel)
  exact ⟨w', hrun, hhanded, (attempts_handed_out_once (sampleWorld_initial _) hrun).1⟩

/-! ## Deliveries are acknowledged for attempts that are over -/

/-- An attempt that was over in some snapshot is over in the last one. -/
theorem Chain.settled {runID : RunID} {history : List WorkflowRunSnapshot}
    (h : Chain runID history) {s : WorkflowRunSnapshot} (hs : s ∈ history) {k : TaskID} {n : Int}
    {t : TaskRun} (ht : s.taskMap.get? k = some t) (hid : Identified runID k t) (hpast : t.Past n) :
    ∃ last t', history.head? = some last ∧ last.taskMap.get? k = some t' ∧
      Identified runID k t' ∧ t'.Past n := by
  cases history with
  | nil => cases hs
  | cons last rest =>
    rcases h.head hs with rfl | hl
    · exact ⟨s, t, rfl, ht, hid, hpast⟩
    · obtain ⟨t', ht', -, hkept⟩ := hl.tasks k t ht
      have hid' := hl.named k t' ht'
      rw [h.id last List.mem_cons_self] at hid'
      exact ⟨last, t', rfl, ht', hid', hkept n hpast⟩

/-- What is over for the run as it is restored is over in the snapshot. -/
theorem restored_past {runID : RunID} {k : TaskID} {n : Int} {u : TaskRun}
    (hid : Identified runID k (u.restored runID)) (hpast : (u.restored runID).Past n) :
    n ≤ u.attemptCount ∧ ¬(u.status = .running ∧
      u.currentAttemptID = attemptIDFor (taskRunIDFor runID k) n) := by
  have hcount : (u.restored runID).attemptCount = u.attemptCount := by rw [restored_fields]
  constructor
  · rw [← hcount]
    rcases hpast with hlt | ⟨heq, -⟩
    · exact hlt.le
    · exact heq.le
  · rintro ⟨hrunning, hattempt⟩
    have hsame : (u.restored runID).currentAttemptID = attemptIDFor (taskRunIDFor runID k) n := by
      rw [restored_fields, hattempt]
      exact if_neg fun hnil => absurd hnil.1 (by simp [attemptIDFor, ascii])
    rw [← (restored_frame u runID).2.1] at hrunning
    have hname := hid.attempt_ne_nil (hid.running hrunning)
    rw [hsame] at hname
    obtain ⟨-, -, rfl⟩ := attemptID_injective hname
    rcases hpast with hlt | ⟨-, hne⟩
    · exact lt_irrefl _ hlt
    · exact hne hrunning

/-- Snapshots stay in the history. -/
theorem World.Moves.history {label : Label} (h : w.Moves label w') :
    w'.runID = w.runID ∧ ∀ s ∈ w.history, s ∈ w'.history := by
  cases h with
  | call hlive ht ha =>
    refine ⟨(answer_log ha).1, fun s hs => ?_⟩
    rcases answer_stores ha with hsame | ⟨_, -, hnil, -⟩ | ⟨_, _, _, -, -, -, hnew⟩
    · rw [World.put, hsame]
      exact hs
    · rw [hnil] at hs
      cases hs
    · rw [World.put, hnew]
      exact List.mem_cons_of_mem _ hs
  | _ => exact ⟨rfl, fun _ hs => hs⟩

theorem moves_frame {label : Label} (hm : w.Moves label w') :
    w'.runID = w.runID ∧ w'.validating = w.validating := by
  cases hm with
  | call hlive ht ha =>
    refine ⟨(answer_log ha).1, ?_⟩
    rcases answer_cases ha with ⟨-, hw, -⟩ | ⟨_, -, -, -, rfl⟩ | ⟨_, _, _, -, -, -, -, rfl⟩ |
      ⟨_, -, -, hw⟩ | ⟨_, job, -, -, hw⟩ | ⟨_, _, -, rfl, -⟩ | ⟨_, -, rfl, -⟩ | ⟨-, rfl, -⟩ |
      ⟨_, _, _, -, rfl, -⟩
    · rw [World.put, hw]
    · rfl
    · rfl
    · rw [World.put, hw]
    · cases job <;> rw [World.put, hw]
    all_goals rfl
  | _ => exact ⟨rfl, rfl⟩

/-- Whenever a scheduler acknowledges a delivery of a message it published for an
attempt, the attempt is over in the snapshot stored last, then and ever after, if
the names survive the JSON document of the message. -/
theorem acknowledged_attempts_settled (h : w.Initial) (hrun : w.run labels = some w') :
    ∀ pid d k n, w'.pending pid = some (.ack d) → .published pid d.message ∈ w'.log →
      d.message = attemptMessage w'.runID k n → validUTF8 w'.runID = true → validUTF8 k = true →
      ∀ later w'', w'.run later = some w'' →
        ∃ s, w''.history.head? = some s ∧ ∃ t ∈ s.tasks, t.taskID = k ∧ n ≤ t.attemptCount ∧
          ¬(t.status = .running ∧ t.currentAttemptID = d.message.id) := by
  intro pid d k n hp hlog hm hrunID hk later w'' hlater
  obtain ⟨ledgers, hc⟩ := h.reached hrun
  obtain ⟨config, hneeds⟩ := hc.pending hp
  have hpub := hc.published pid d.message hlog
  rw [hm] at hpub
  obtain ⟨s, t, hs, ht, hid, hpast⟩ := hneeds k n hpub hrunID hk hm
  obtain ⟨⟨ledgers', hc'⟩, hsame, hmem⟩ :=
    World.run_induction (P := fun v => (∃ ledgers, Consistent v ledgers) ∧ v.runID = w'.runID ∧
        s ∈ v.history)
      (fun v label v' ⟨⟨_, hv⟩, hvid, hvs⟩ hmoves =>
        ⟨(hv.step hmoves).imp fun _ hv' => hv'.1, hmoves.history.1.trans hvid,
          hmoves.history.2 s hvs⟩)
      ⟨⟨ledgers, hc⟩, rfl, (hc.informed pid).stored s hs⟩ hlater
  rw [← hsame] at hid
  obtain ⟨last, t', hlast, ht', hid', hpast'⟩ := hc'.chain.settled hmem ht hid hpast
  obtain ⟨u, hu, hkey, rfl⟩ := taskMap_mem ht'
  have hlastID := hc'.chain.id last (List.mem_of_mem_head? hlast)
  rw [hlastID] at hid' hpast'
  obtain ⟨hcount, hnot⟩ := restored_past hid' hpast'
  refine ⟨last, hlast, u, hu, hkey, hcount, ?_⟩
  rw [hm, attemptMessage_id, ← hsame]
  exact hnot

/-- The worker executes what it claimed and the scheduler records the result. -/
def firstResult (runID : RunID) (tasks : List TaskID) : List Label :=
  firstClaim runID tasks ++ schedulerSteps 0 [.clock 5, .go, .go] ++
    workerSteps 0 (workerIDFor sampleConfig runID 1 1)
      [.takeAnswer, .finish [] none, .sendResult] ++
    schedulerSteps 0 [.go, .go, .clock 5, .clock 5, .take .result, .go, .clock 5,
      .clocks fun _ => 5, .go]

theorem sample_acknowledged_attempt : ∃ w' s,
    (sampleWorld (ascii "r")).run (firstResult (ascii "r") [ascii "a"]) = some w' ∧
    w'.history.head? = some s ∧ ∃ t ∈ s.tasks, t.taskID = ascii "a" ∧ 1 ≤ t.attemptCount ∧
      ¬(t.status = .running ∧ t.currentAttemptID =
        (attemptMessage (ascii "r") (ascii "a") 1).id) := by
  obtain ⟨w', hrun, hp, hlog, hid⟩ := run_reaches (sampleWorld (ascii "r"))
    (firstResult (ascii "r") [ascii "a"])
    (fun w' => w'.pending 0 =
        some (.ack ⟨attemptMessage (ascii "r") (ascii "a") 1, 1⟩) ∧
      .published 0 (attemptMessage (ascii "r") (ascii "a") 1) ∈ w'.log ∧ w'.runID = ascii "r")
    (by decide +kernel)
  obtain ⟨s, hs, hsettled⟩ := acknowledged_attempts_settled (sampleWorld_initial _) hrun 0 _
    (ascii "a") 1 hp hlog (by rw [hid]) (by rw [hid]; decide) (by decide) [] w' rfl
  exact ⟨w', s, hrun, hs, hsettled⟩

/-- The tasks of the snapshot stored last, as far as their attempts go. -/
def World.storedTasks (w : World) : List (TaskID × TaskRunStatus × Int) :=
  w.history.head?.elim [] fun s => s.tasks.map fun t => (t.taskID, t.status, t.attemptCount)

/-- A run ID that is not UTF-8 does not survive the JSON document: the scheduler
takes the delivery for somebody else's and acknowledges it, with the attempt still
to be made. -/
theorem unmade_attempt_acknowledged : ∃ w',
    (sampleWorld [0xFF]).run (firstClaim [0xFF] [ascii "a"]) = some w' ∧
    w'.pending 0 = some (.ack ⟨attemptMessage [0xFF] (ascii "a") 1, 1⟩) ∧
    .published 0 (attemptMessage [0xFF] (ascii "a") 1) ∈ w'.log ∧
    w'.storedTasks = [(ascii "a", .ready, 0)] :=
  run_reaches _ _ _ (by decide +kernel)

/-! ## No worker holds two leases -/

/-- No scheduler reads a clock at or before the zero time, takes over a run with a
lease of a worker ID it may give out itself, or takes a claim of a worker while a
result of that worker still waits. -/
structure Orderly (w : World) (label : Label) : Prop where
  clock : ∀ pid now, label = .scheduler pid (.clock now) → 0 < now
  loads : ∀ pid choice p id s, label = .scheduler pid choice → w.Live pid p →
    p.thread.pending = some (.loadRun id) → w.history.head? = some s → Usable p.config w.runID s
  claims : ∀ pid p claim rest, label = .scheduler pid (.take .claim) → w.Live pid p →
    p.claimEvents = claim :: rest → ∀ r ∈ p.resultEvents, r.workerID ≠ claim.workerID

theorem Orderly.tidy {pid : Nat} {choice : Choice} {p p' : Process} {c : EngineCall}
    {next : EngineResult c → Round} {r : EngineResult c} {g : Ledger}
    (ho : Orderly w (.scheduler pid choice)) (hlive : w.Live pid p)
    (ht : p.thread = .running (.call c next)) (ha : answer choice pid p w c = some (r, p', w'))
    (hstaffed : Staffed g p.workers p.claimEvents p.resultEvents) (h : g.tidy) :
    (g.note p.config w.runID c r).tidy := by
  cases c with
  | now =>
    cases choice <;> cases ha
    exact ⟨h, ho.clock pid r rfl⟩
  | loadRun id =>
    rcases Choice.attempt_cases (attempt_map ha).2 with ⟨a, hok, hr⟩ | ⟨-, e, rfl⟩
    · obtain ⟨rfl, -⟩ := World.whileLive_ok hok
      rcases r with e | _ | s
      · exact h
      · exact h
      · exact ⟨h, ho.loads pid choice p id s rfl hlive (by rw [ht]; rfl) (hr (some s) rfl).symm⟩
    · exact h
  | select armed =>
    obtain ⟨source, rfl, htake, -⟩ := answer_select ha
    rcases take_cases htake with ⟨claim, rest, rfl, hclaims, -⟩ | ⟨_, _, rfl, -⟩ |
      ⟨_, _, _, rfl, -⟩ | ⟨_, _, _, _, rfl, -⟩ | ⟨_, _, rfl, -⟩ | ⟨rfl | ⟨_, rfl, -⟩, -⟩
    · have hsource : source = .claim := take_claim htake
      subst hsource
      refine ⟨h, fun a hout => ?_⟩
      -- a claim in the channel leaves the result of an earlier job only one place to be
      rcases hstaffed.accounted _ a hout with ⟨r, hr, hid, -⟩ | ⟨-, hnone⟩
      · exact ho.claims pid p claim rest rfl hlive hclaims r hr hid
      · exact hnone claim (by rw [hclaims]; exact List.mem_cons_self) rfl
    all_goals exact h
  | createRun _ => rcases r with _ | _ <;> exact h
  | saveRun _ => rcases r with _ | _ <;> exact h
  | loadWorkflow _ => rcases r with _ | _ | _ <;> exact h
  | saveWorkflow _ => rcases r with _ | _ <;> exact h
  | publish _ => rcases r with _ | _ <;> exact h
  | ack _ => rcases r with _ | _ <;> exact h
  | nack _ => rcases r with (_ | _) | _ <;> exact h
  | progress _ => rcases r with _ | _ <;> exact h
  | respond _ job => cases job <;> exact h
  | _ => exact h

/-- As long as every step is orderly, all ledgers stay tidy. -/
theorem orderly_tidy (h : w.Initial) (ho : w.Meets Orderly labels)
    (hrun : w.run labels = some w') :
    ∃ ledgers, Consistent w' ledgers ∧ ∀ pid, (ledgers pid).tidy := by
  refine ho.induction (P := fun v => ∃ ledgers, Consistent v ledgers ∧ ∀ pid, (ledgers pid).tidy)
    ?_ ⟨_, h.consistent, fun _ => trivial⟩ hrun
  rintro v label v' hord ⟨ledgers, hc, htidy⟩ hm
  obtain ⟨ledgers', hc', hfollows⟩ := hc.step hm
  refine ⟨ledgers', hc', fun pid => ?_⟩
  have hf := hfollows pid
  generalize ledgers' pid = g at hf
  cases hf with
  | same => exact htidy pid
  | @start config start hl => cases start <;> trivial
  | call hl hlive ht ha =>
    subst hl
    exact hord.tidy hlive ht ha (hc.staffed pid _ hlive) (htidy pid)

/-- In every orderly run, every snapshot a scheduler saves is valid, and no worker
holds two leases in the run a scheduler has between two rounds. -/
theorem orderly_runs_never_rejected (h : w.Initial) (ho : w.Meets Orderly labels)
    (hrun : w.run labels = some w') :
    (∀ pid s, w'.pending pid = some (.createRun s) ∨ w'.pending pid = some (.saveRun s) →
      s.validate = .ok ()) ∧
    ∀ pid p st, w'.Live pid p → p.thread = .running (.ret (.again st)) →
      ∀ k k' t t' id, st.run.tasks.get? k = some t → st.run.tasks.get? k' = some t' →
        t.leasedTo = some id → t'.leasedTo = some id → k = k' := by
  obtain ⟨ledgers, hc, htidy⟩ := orderly_tidy h ho hrun
  constructor
  · rintro pid s (hp | hp)
    · obtain ⟨config, run, rfl, -, -, hvalid⟩ := hc.pending hp
      exact (hvalid (htidy pid)).snapshot_valid
    · obtain ⟨config, _, _, run, -, -, -, rfl, hvalid, -⟩ := hc.pending hp
      exact (hvalid (htidy pid)).snapshot_valid
  · intro pid p st hlive ht k k' t t' id hk hk' hl hl'
    have hsafe := hc.safe pid p hlive
    rw [ht] at hsafe
    exact (hsafe.books.tracked.valid (htidy pid)).oneLease k k' t t' id hk hk' hl hl'

/-- What there is to check of a step that loads nothing. -/
def World.orderly (w : World) : Label → Bool
  | .scheduler pid choice =>
    (match choice with
      | .clock now => 0 < now
      | _ => true) &&
    match w.processes.get? pid with
    | none => true
    | some p =>
      (match p.thread.pending with
        | some (.loadRun _) => false
        | _ => true) &&
      match p.claimEvents with
      | [] => true
      | claim :: _ => p.resultEvents.all fun r => r.workerID ≠ claim.workerID
  | _ => true

theorem World.orderly_sound {label : Label} (h : w.orderly label = true) : Orderly w label := by
  constructor
  · rintro pid now rfl
    exact of_decide_eq_true (Bool.and_eq_true_iff.mp h).1
  · rintro pid choice p id s rfl ⟨hget, -⟩ hp -
    have hp' := (Bool.and_eq_true_iff.mp h).2
    simp only [hget, hp, Bool.false_and] at hp'
    cases hp'
  · rintro pid p claim rest rfl ⟨hget, -⟩ hclaims r hr
    simp only [World.orderly, hget, hclaims, Bool.true_and, Bool.and_eq_true] at h
    simpa using List.all_eq_true.mp h.2 r hr

/-- The snapshot process `pid` is about to save. -/
def World.saving (w : World) (pid : Nat) : Option WorkflowRunSnapshot :=
  match w.pending pid with
  | some (.saveRun s) => some s
  | _ => none

theorem World.saving_pending {pid : Nat} {s : WorkflowRunSnapshot} (h : w.saving pid = some s) :
    w.pending pid = some (.saveRun s) := by
  unfold World.saving at h
  split at h
  · rename_i hp
    cases h
    exact hp
  · cases h

theorem sample_lease_not_rejected : ∃ w' s,
    (sampleWorld (ascii "r")).run (firstClaim (ascii "r") [ascii "a"] ++
      schedulerSteps 0 [.clock 5]) = some w' ∧
    w'.pending 0 = some (.saveRun s) ∧ s.validate = .ok () := by
  obtain ⟨w', hrun, hsaving⟩ := run_reaches (sampleWorld (ascii "r"))
    (firstClaim (ascii "r") [ascii "a"] ++ schedulerSteps 0 [.clock 5])
    (fun w' => (w'.saving 0).isSome = true) (by decide +kernel)
  have hmeets : (sampleWorld (ascii "r")).Meets (fun w label => w.orderly label = true)
      (firstClaim (ascii "r") [ascii "a"] ++ schedulerSteps 0 [.clock 5]) := by decide +kernel
  obtain ⟨s, hs⟩ := Option.isSome_iff_exists.mp hsaving
  have hp := World.saving_pending hs
  exact ⟨w', s, hrun, hp, (orderly_runs_never_rejected (sampleWorld_initial _)
    (hmeets.mono fun _ _ => World.orderly_sound) hrun).1 0 s (.inr hp)⟩

/-- Two independent tasks and one worker: its result for the first is in the
channel when `select` takes its claim for the second. -/
def claimBeforeResult : List Label :=
  firstClaim (ascii "r") [ascii "a", ascii "b"] ++ schedulerSteps 0 [.clock 5, .go, .go] ++
    workerSteps 0 (workerIDFor sampleConfig (ascii "r") 1 1)
      [.takeAnswer, .finish [] none, .sendResult, .receive, .sendClaim] ++
    schedulerSteps 0 [.go, .go, .clock 5, .clock 5, .take .claim, .clock 5]

theorem worker_with_two_leases_rejected : ∃ w',
    (sampleWorld (ascii "r")).run claimBeforeResult = some w' ∧
    (w'.saving 0).elim [] (fun s => s.tasks.filterMap TaskRun.leasedTo) =
      [workerIDFor sampleConfig (ascii "r") 1 1, workerIDFor sampleConfig (ascii "r") 1 1] ∧
    (w'.saving 0).any (fun s => s.validate.isOk) = false :=
  run_reaches _ _ _ (by decide +kernel)

end ForgeFlow.Execution
