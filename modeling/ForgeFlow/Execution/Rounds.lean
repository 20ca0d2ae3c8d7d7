import ForgeFlow.Execution.Books
import ForgeFlow.Execution.Deadlines

/-!
# A round of the scheduler keeps its books in order

`Scheduling` is the invariant of the loop of `executeBrokerRun`. Each part of a
round and each event handler keeps it or ends the call.
-/

namespace ForgeFlow.Execution

open ForgeFlow.Base ForgeFlow.Workflow

variable {k : TaskID} {t : TaskRun} {now n : Int} {before : WorkflowRun}
  {recoveries : List LeaseRecovery} {promoted : List TaskID}

/-! ## The sweeps at the head of a round -/

/-- The report of a recovery says what became of the task. -/
theorem recover_report {runID : RunID} (h : Identified runID k t)
    (policy : RetryPolicy) (timestamp : Int) :
    (t.recover runID k policy timestamp).2.taskID = k ∧
      (t.recover runID k policy timestamp).2.attemptID = t.currentAttemptID ∧
      (t.recover runID k policy timestamp).1.status ≠ .succeeded ∧
      ((t.recover runID k policy timestamp).2.outcome = .retryScheduled ∧
          (t.recover runID k policy timestamp).1.status ≠ .failed ∨
        (t.recover runID k policy timestamp).2.outcome = .failed ∧
          (t.recover runID k policy timestamp).1.status = .failed) := by
  rw [recover_eq h]
  refine ⟨rfl, rfl, ?_⟩
  rcases retryOrFail_cases _ policy true timestamp with ⟨ho, hs | hs⟩ | ⟨ho, hs⟩
  · exact ⟨by rw [hs]; nofun, .inl ⟨ho, by rw [hs]; nofun⟩⟩
  · exact ⟨by rw [hs]; nofun, .inl ⟨ho, by rw [hs]; nofun⟩⟩
  · exact ⟨by rw [hs]; nofun, .inr ⟨ho, hs⟩⟩

section

variable {run : WorkflowRun}

theorem mem_recoveries (hc : Coherent run) {r : LeaseRecovery}
    (h : r ∈ (run.recoverExpiredLeases now).2) :
    ∃ t t', run.tasks.get? r.taskID = some t ∧ t.status = .running ∧
      r.attemptID = t.currentAttemptID ∧
      (run.recoverExpiredLeases now).1.tasks.get? r.taskID = some t' ∧
      AttemptEnded (run.nextTimestamp now) t t' ∧ t'.status ≠ .succeeded ∧
      (r.outcome = .retryScheduled ∧ t'.status ≠ .failed ∨
        r.outcome = .failed ∧ t'.status = .failed) := by
  obtain ⟨⟨k, t⟩, hmem, hr⟩ := List.mem_filterMap.mp h
  have hget := (KeyMap.mem_entries_iff _ _ _).mp hmem
  have hid := hc.tasks k t hget
  split at hr
  · rename_i hx
    have hr : (t.recover run.id k (run.retryPolicy k) (run.nextTimestamp now)).2 = r :=
      Option.some.inj hr
    subst hr
    have hnew : (run.recoverExpiredLeases now).1.tasks.get? k =
        some (t.recover run.id k (run.retryPolicy k) (run.nextTimestamp now)).1 := by
      show (KeyMap.map _ run.tasks).get? k = _
      rw [KeyMap.get?_map, hget, Option.map_some, if_pos hx]
    obtain ⟨htask, hattempt, hrest⟩ :=
      recover_report hid (run.retryPolicy k) (run.nextTimestamp now)
    rw [htask]
    exact ⟨t, _, hget, leaseExpired_running hx, hattempt, hnew, recover_ended hid _ _, hrest⟩
  · cases hr

/-- A task after the sweep is as before, or its recovery is reported. -/
theorem recovered_origin (hc : Coherent run) {t' : TaskRun}
    (h : (run.recoverExpiredLeases now).1.tasks.get? k = some t') :
    run.tasks.get? k = some t' ∨ ∃ r ∈ (run.recoverExpiredLeases now).2, r.taskID = k := by
  have hmap : (run.recoverExpiredLeases now).1.tasks.get? k = (run.tasks.get? k).map fun t =>
      if t.leaseExpired (run.nextTimestamp now) then
        (t.recover run.id k (run.retryPolicy k) (run.nextTimestamp now)).1
      else t := KeyMap.get?_map _ _ _
  rw [hmap] at h
  obtain ⟨t, ht, hif⟩ := Option.map_eq_some_iff.mp h
  by_cases hx : t.leaseExpired (run.nextTimestamp now) = true
  · right
    refine ⟨(t.recover run.id k (run.retryPolicy k) (run.nextTimestamp now)).2, ?_, ?_⟩
    · refine List.mem_filterMap.mpr ⟨(k, t), (KeyMap.mem_entries_iff _ _ _).mpr ht, ?_⟩
      rw [if_pos hx]
    · rw [recover_eq (hc.tasks k t ht)]
  · rw [if_neg hx] at hif
    exact .inl (hif ▸ ht)

theorem mem_promoted (h : k ∈ (run.promoteDueRetries now).2) :
    ∃ t, run.tasks.get? k = some t ∧ t.status = .retryWaiting ∧
      (run.promoteDueRetries now).1.tasks.get? k = some (t.promote (run.nextTimestamp now)) := by
  obtain ⟨⟨k', t⟩, hmem, hr⟩ := List.mem_filterMap.mp h
  have ht := (KeyMap.mem_entries_iff _ _ _).mp hmem
  split at hr
  · rename_i hx
    cases hr
    have hwait : t.status = .retryWaiting := by
      simp only [TaskRun.retryDue, Bool.and_eq_true, decide_eq_true_eq] at hx
      exact hx.1
    refine ⟨t, ht, hwait, ?_⟩
    show (KeyMap.map _ run.tasks).get? _ = _
    rw [KeyMap.get?_map, ht, Option.map_some, if_pos hx]
  · cases hr

theorem promoted_origin {t' : TaskRun} (h : (run.promoteDueRetries now).1.tasks.get? k = some t') :
    run.tasks.get? k = some t' ∨ t'.status = .ready := by
  have hmap : (run.promoteDueRetries now).1.tasks.get? k = (run.tasks.get? k).map fun t =>
      if t.retryDue (run.nextTimestamp now) then t.promote (run.nextTimestamp now) else t :=
    KeyMap.get?_map _ _ _
  rw [hmap] at h
  obtain ⟨t, ht, hif⟩ := Option.map_eq_some_iff.mp h
  split at hif
  · exact .inr (hif ▸ rfl)
  · exact .inl (hif ▸ ht)

end

/-! ## Marking tasks ready -/

/-- Some pending tasks became ready and nothing else changed. -/
structure MarkedReady (run run' : WorkflowRun) : Prop where
  kept : ∀ k t, run.tasks.get? k = some t → t.status ≠ .pending → run'.tasks.get? k = some t
  origin : ∀ k t', run'.tasks.get? k = some t' → run.tasks.get? k = some t' ∨ t'.status = .ready

theorem MarkedReady.refl (run : WorkflowRun) : MarkedReady run run :=
  ⟨fun _ _ h _ => h, fun _ _ h => .inl h⟩

theorem MarkedReady.trans {run run' run'' : WorkflowRun} (h : MarkedReady run run')
    (h' : MarkedReady run' run'') : MarkedReady run run'' where
  kept k t ht hs := h'.kept k t (h.kept k t ht hs) hs
  origin k t ht := by
    rcases h'.origin k t ht with ht | hr
    · exact h.origin k t ht
    · exact .inr hr

/-- The run after one task was marked. -/
def WorkflowRun.markReady (run : WorkflowRun) (k : TaskID) (t : TaskRun) (now : Int) :
    WorkflowRun :=
  { run with
    tasks := run.tasks.insert k (t.enter run.id k .ready [] none (run.nextTimestamp now))
    updatedAt := run.nextTimestamp now }

theorem markReady_marked {run : WorkflowRun}
    (ht : run.tasks.get? k = some t) (hp : t.status = .pending) (now : Int) :
    MarkedReady run (run.markReady k t now) where
  kept k' t' ht' hs := by
    have hne : k' ≠ k := by
      rintro rfl
      rw [ht] at ht'
      cases ht'
      exact hs hp
    rw [WorkflowRun.markReady, KeyMap.get?_insert_ne _ _ hne]
    exact ht'
  origin k' t' ht' := by
    rw [WorkflowRun.markReady, KeyMap.get?_insert] at ht'
    split at ht'
    · cases ht'
      exact .inr rfl
    · exact .inl ht'

theorem markReadyLoop_cons (run : WorkflowRun) (task : TaskDefinition)
    (rest : List TaskDefinition) (now : Nat → Int) :
    (∃ e, run.tasks.get? task.id = none ∧
      markReadyLoop run (task :: rest) now = (run, .error e)) ∨
    (∃ t, run.tasks.get? task.id = some t ∧ t.status ≠ .pending ∧
      markReadyLoop run (task :: rest) now = markReadyLoop run rest now) ∨
    ∃ t, run.tasks.get? task.id = some t ∧ t.status = .pending ∧
      markReadyLoop run (task :: rest) now =
        ((markReadyLoop (run.markReady task.id t (now 0)) rest fun i => now (i + 1)).1,
          (markReadyLoop (run.markReady task.id t (now 0)) rest fun i => now (i + 1)).2.map
            (task :: ·)) := by
  rw [markReadyLoop]
  cases ht : run.tasks.get? task.id with
  | none => exact .inl ⟨.unknownTaskRun run.id task.id, rfl, by simp [WorkflowRun.taskStatus, ht]⟩
  | some t =>
    right
    by_cases hp : t.status = .pending
    · right
      refine ⟨t, rfl, hp, ?_⟩
      simp [WorkflowRun.taskStatus, WorkflowRun.transitionTask, ht, hp, legalTaskTransition,
        WorkflowRun.markReady]
    · exact .inl ⟨t, rfl, hp, by simp [WorkflowRun.taskStatus, ht, hp]⟩

theorem markReadyLoop_marked : ∀ (candidates : List TaskDefinition) (run : WorkflowRun)
    (now : Nat → Int), MarkedReady run (markReadyLoop run candidates now).1 ∧
      ∀ newReady, (markReadyLoop run candidates now).2 = .ok newReady → ∀ task ∈ newReady,
        ∃ t, (markReadyLoop run candidates now).1.tasks.get? task.id = some t ∧ t.status = .ready
  | [], run, _ => ⟨.refl run, fun newReady h => by cases h; nofun⟩
  | task :: rest, run, now => by
    rcases markReadyLoop_cons run task rest now with ⟨e, -, heq⟩ | ⟨t, -, -, heq⟩ | ⟨t, ht, hp, heq⟩ <;>
      rw [heq]
    · exact ⟨.refl run, nofun⟩
    · exact markReadyLoop_marked rest run now
    · obtain ⟨hmarked, hready⟩ := markReadyLoop_marked rest (run.markReady task.id t (now 0))
        fun i => now (i + 1)
      refine ⟨(markReady_marked ht hp (now 0)).trans hmarked, fun newReady hok task' hmem => ?_⟩
      obtain ⟨more, hmore, rfl⟩ := map_eq_ok.mp hok
      rcases List.mem_cons.mp hmem with rfl | hmem
      · refine ⟨t.enter run.id task'.id .ready [] none (run.nextTimestamp (now 0)),
          hmarked.kept _ _ ?_ nofun, rfl⟩
        rw [WorkflowRun.markReady, KeyMap.get?_insert_self]
      · exact hready more hmore task' hmem

theorem markReadyLoop_total : ∀ (candidates : List TaskDefinition) (run : WorkflowRun)
    (now : Nat → Int), (∀ task ∈ candidates, run.tasks.contains task.id = true) →
    ∃ newReady, (markReadyLoop run candidates now).2 = .ok newReady
  | [], _, _, _ => ⟨[], rfl⟩
  | task :: rest, run, now, hk => by
    have hrest : ∀ task ∈ rest, run.tasks.contains task.id = true :=
      fun t ht => hk t (List.mem_cons_of_mem _ ht)
    rcases markReadyLoop_cons run task rest now with ⟨e, hnone, -⟩ | ⟨t, -, -, heq⟩ | ⟨t, ht, hp, heq⟩
    · have hsome := hk task List.mem_cons_self
      rw [KeyMap.contains, hnone] at hsome
      cases hsome
    · rw [heq]
      exact markReadyLoop_total rest run now hrest
    · obtain ⟨more, hmore⟩ := markReadyLoop_total rest (run.markReady task.id t (now 0))
        (fun i => now (i + 1)) fun t' ht' => by
          rw [WorkflowRun.markReady, KeyMap.contains_insert]
          exact .inr (hrest t' ht')
      exact ⟨task :: more, by rw [heq, hmore]; rfl⟩

/-- With a valid definition every unlocked task can be marked. -/
theorem markNewReady_total {run : WorkflowRun} (hc : Coherent run)
    (hd : run.definition.validate = .ok ())
    (hkeys : ∀ k, (run.tasks.get? k).isSome = true ↔ k ∈ run.definition.tasks.map TaskDefinition.id)
    (now : Nat → Int) :
    ∃ candidates newReady,
      markNewReady run run.definition (completedTaskIDs run) now = markReadyLoop run candidates now ∧
      (∀ task, task ∈ candidates ↔ task ∈ run.definition.tasks ∧
        WorkflowDefinition.unlocked (completedTaskIDs run) task = true) ∧
      (markReadyLoop run candidates now).2 = .ok newReady := by
  have hknown : ∀ k, (completedTaskIDs run).contains k = true →
      k ∈ run.definition.tasks.map TaskDefinition.id := by
    intro k hk
    obtain ⟨t, ht, -⟩ := (mem_completedTaskIDs hc.tasks).mp hk
    exact (hkeys k).mp (by rw [ht]; rfl)
  obtain ⟨candidates, hready, hmem⟩ := WorkflowDefinition.readyTasks_of_validate hd hknown
  obtain ⟨newReady, hok⟩ := markReadyLoop_total candidates run now fun task htask =>
    (hkeys task.id).mpr (List.mem_map.mpr ⟨task, ((hmem task).mp htask).1, rfl⟩)
  exact ⟨candidates, newReady, by rw [markNewReady, hready], hmem, hok⟩

theorem RunSound.markNewReady_total {run : WorkflowRun} (h : RunSound run) (now : Nat → Int) :
    ∃ newReady, (markNewReady run run.definition (completedTaskIDs run) now).2 = .ok newReady := by
  obtain ⟨candidates, newReady, heq, -, hok⟩ :=
    Execution.markNewReady_total h.coherent h.definition h.keys now
  exact ⟨newReady, by rw [heq, hok]⟩

theorem markNewReady_marked (run : WorkflowRun) (completed : KeyMap TaskID Unit)
    (now : Nat → Int) : MarkedReady run (markNewReady run run.definition completed now).1 ∧
      ∀ newReady, (markNewReady run run.definition completed now).2 = .ok newReady →
        ∀ task ∈ newReady, ∃ t,
          (markNewReady run run.definition completed now).1.tasks.get? task.id = some t ∧
            t.status = .ready := by
  unfold markNewReady
  split
  · exact ⟨.refl run, nofun⟩
  · exact markReadyLoop_marked _ run now

/-! ## The tables of the scheduler -/

theorem workerIDFor_injective {config : EngineConfig} {runID : RunID} {slot slot' n n' : Nat}
    (h : workerIDFor config runID slot n = workerIDFor config runID slot' n') :
    slot = slot' ∧ n = n' := by
  have hslash : ∀ m : Nat, (0x2F : UInt8) ∉ formatNat m := by
    intro m hm
    exact absurd (formatNat_digit hm) (by decide)
  have hsplit : ∀ i j : Nat, workerIDFor config runID i j =
      (config.workerNamespace ++ ascii "/" ++ runID ++ ascii "/slot-") ++
        (formatNat i ++ 0x2F :: (ascii "generation-" ++ formatNat j)) := by
    intro i j
    simp [workerIDFor, ascii]
  rw [hsplit, hsplit] at h
  obtain ⟨hi, hj⟩ := sep_append_inj (hslash _) (hslash _) (List.append_cancel_left h)
  exact ⟨formatNat_injective hi, formatNat_injective (List.append_cancel_left hj)⟩

/-- The separators and numerals keep a worker ID a valid identifier. -/
theorem validIdentifier_workerIDFor (config : EngineConfig) {runID : RunID}
    (h : validIdentifier runID = true) (slot n : Nat) :
    validIdentifier (workerIDFor config runID slot n) = true := by
  have hspace := config.workerNamespace_valid
  have hpart : ∀ (word : GoString) (m : Nat), (∀ b ∈ word, 0x20 < b ∧ b < 0x7F) →
      (runes (word ++ formatNat m)).all plainRune = true := by
    intro word m hword
    refine all_plainRune_of_printable fun b hb => ?_
    rcases List.mem_append.mp hb with hb | hb
    · exact hword b hb
    · exact formatInt_printable (n := m) hb
  have hslot := hpart (ascii "slot-") slot (by decide +kernel)
  have hgeneration := hpart (ascii "generation-") n (by decide +kernel)
  have hsep : plainRune (0x2F : UInt8).toNat = true := by decide
  have hsplit : workerIDFor config runID slot n = config.workerNamespace ++ 0x2F :: (runID ++
      0x2F :: ((ascii "slot-" ++ formatNat slot) ++ 0x2F :: (ascii "generation-" ++ formatNat n))) := by
    simp [workerIDFor, ascii]
  simp only [validIdentifier, plainIdentifier_eq, Bool.and_eq_true] at hspace h ⊢
  refine ⟨by simp [workerIDFor, ascii], ?_⟩
  have hc : (0x2F : UInt8) < 0x80 := by decide
  rw [hsplit, all_runes_append_ascii _ _ _ hc, all_runes_append_ascii _ _ _ hc,
    all_runes_append_ascii _ _ _ hc]
  simp only [hspace.2, hsep, h.2, hslot, hgeneration, Bool.and_self]

structure Desk (config : EngineConfig) (runID : RunID) (g : Ledger) (st : Scheduler) : Prop where
  completed : ∀ k, st.completed.contains k = true ↔
    ∃ t, st.run.tasks.get? k = some t ∧ t.status = .succeeded
  ready : ∀ k, st.ready.contains k = true → ∃ t, st.run.tasks.get? k = some t ∧ t.status = .ready
  pending : ∀ a, ∀ c ∈ st.pendingFor a, c.delivery.message.id = a ∧ c ∈ g.taken
  slots : ∀ slot w, st.currentBySlot.get? slot = some w →
    Spawnable config runID w ∧ g.roster slot = some w
  spawned : ∀ w ∈ g.spawned, ∃ slot n, w = workerIDFor config runID slot n ∧
    n ≤ (st.generations.get? slot).getD 0
  workers : ∀ w slot, st.workers.get? w = some slot → w ∈ g.spawned ∧ config.HasSlot slot

structure Scheduling (config : EngineConfig) (runID : RunID) (st : Scheduler) (g : Ledger) :
    Prop where
  books : Books config runID g st.run
  desk : Desk config runID g st
  current : Current g st.run
  unfailed : ∀ k t, st.run.tasks.get? k = some t → t.status ≠ .failed

section

variable {config : EngineConfig} {runID : RunID} {g g' : Ledger} {st st' : Scheduler}

theorem Desk.quiet (h : Desk config runID g st) (hq : Quiet g g') : Desk config runID g' st where
  completed := h.completed
  ready := h.ready
  pending a c hc := ⟨(h.pending a c hc).1, hq.taken (h.pending a c hc).2⟩
  slots := by rw [hq.roster]; exact h.slots
  spawned := by rw [hq.spawned]; exact h.spawned
  workers := by rw [hq.spawned]; exact h.workers

/-- A new state of the run in which no task was finished, and ready ones stayed. -/
theorem Desk.with_run (h : Desk config runID g st) (run : WorkflowRun)
    (hdone : ∀ k, (∃ t, run.tasks.get? k = some t ∧ t.status = .succeeded) ↔
      ∃ t, st.run.tasks.get? k = some t ∧ t.status = .succeeded)
    (hready : ∀ k t, st.run.tasks.get? k = some t → t.status = .ready →
      ∃ t', run.tasks.get? k = some t' ∧ t'.status = .ready) :
    Desk config runID g { st with run := run } where
  completed k := (h.completed k).trans (hdone k).symm
  ready k hk := by
    obtain ⟨t, ht, hs⟩ := h.ready k hk
    exact hready k t ht hs
  pending := h.pending
  slots := h.slots
  spawned := h.spawned
  workers := h.workers

theorem Desk.addReady (h : Desk config runID g st)
    (ht : st.run.tasks.get? k = some t) (hs : t.status = .ready) (task : TaskDefinition) :
    Desk config runID g (st.addReady k task) where
  completed := h.completed
  ready k' hk' := by
    rw [Scheduler.addReady, KeyMap.contains_insert] at hk'
    rcases hk' with rfl | hk'
    · exact ⟨t, ht, hs⟩
    · exact h.ready k' hk'
  pending := h.pending
  slots := h.slots
  spawned := h.spawned
  workers := h.workers

/-! ## Workers come and go -/

/-- The workers changed and nothing else. -/
structure Restaffed (config : EngineConfig) (runID : RunID) (g : Ledger) (st st' : Scheduler)
    (g' : Ledger) : Prop where
  ledger : ∃ l roster staff, g' = { g with spawned := l, roster := roster, staff := staff }
  run : st'.run = st.run
  desk : Desk config runID g' st'

theorem wp_spawnWorker (h : Desk config runID g st) (hid : st.run.id = runID) {slot : Nat}
    (hslot : config.HasSlot slot) :
    (st.spawnWorker config slot).wp (schedulerContract config runID)
      (Restaffed config runID g st) g := by
  have hfresh : workerIDFor config st.run.id slot ((st.generations.get? slot).getD 0 + 1) ∉
      g.spawned := by
    intro hmem
    obtain ⟨slot', n, heq, hle⟩ := h.spawned _ hmem
    rw [hid] at heq
    obtain ⟨rfl, rfl⟩ := workerIDFor_injective heq
    omega
  refine wp_call_of ⟨hslot, ⟨slot, _, by rw [hid]⟩, hfresh⟩ fun _ => ?_
  refine ⟨⟨_, _, _, rfl⟩, rfl, h.completed, h.ready, h.pending, fun slot' w hw => ?_,
    fun w hw => ?_, fun w slot' hw => ?_⟩
  · show _ ∧ Function.update g.roster slot _ slot' = some w
    rcases KeyMap.get?_insert_cases hw with ⟨rfl, rfl⟩ | ⟨hne, hw⟩
    · rw [Function.update_self]
      exact ⟨⟨slot', _, by rw [hid]⟩, rfl⟩
    · rw [Function.update_of_ne hne]
      exact h.slots slot' w hw
  · rcases List.mem_cons.mp hw with rfl | hw
    · exact ⟨slot, _, by rw [hid], by rw [KeyMap.get?_insert_self]; exact le_refl _⟩
    · obtain ⟨slot', n, heq, hle⟩ := h.spawned w hw
      refine ⟨slot', n, heq, ?_⟩
      rw [KeyMap.get?_insert]
      split
      · rename_i hslot
        subst hslot
        exact hle.trans (Nat.le_succ _)
      · exact hle
  · rcases KeyMap.get?_insert_cases hw with ⟨rfl, rfl⟩ | ⟨-, hw⟩
    · exact ⟨List.mem_cons_self, hslot⟩
    · exact (h.workers w slot' hw).imp_left (List.mem_cons_of_mem _)

theorem wp_replaceWorker (h : Desk config runID g st) (hid : st.run.id = runID) (w : WorkerID) :
    (st.replaceWorker config w).wp (schedulerContract config runID)
      (Restaffed config runID g st) g := by
  have hsame : Restaffed config runID g st st g := ⟨⟨g.spawned, g.roster, g.staff, rfl⟩, rfl, h⟩
  unfold Scheduler.replaceWorker
  split
  · exact hsame
  · rename_i slot hslot
    split
    · exact hsame
    · have hdesk : Desk config runID g { st with
          activeDeliveries := st.activeDeliveries.erase w
          workers := st.workers.erase w
          currentBySlot := st.currentBySlot.erase slot } :=
        ⟨h.completed, h.ready, h.pending,
          fun slot' w' hw' => h.slots slot' w' (KeyMap.get?_of_erase hw'), h.spawned,
          fun w' slot' hw' => h.workers w' slot' (KeyMap.get?_of_erase hw')⟩
      refine wp_call_of trivial fun _ => ?_
      exact Prog.wp_mono (fun _ _ hr => ⟨hr.ledger, hr.run, hr.desk⟩)
        (wp_spawnWorker hdesk hid (h.workers w slot hslot).2)

theorem wp_replaceRecovered (h : Desk config runID g st) (hid : st.run.id = runID)
    (w : WorkerID) :
    (replaceRecovered config st w).wp (schedulerContract config runID)
      (Restaffed config runID g st) g := by
  unfold replaceRecovered
  split
  · exact ⟨⟨g.spawned, g.roster, g.staff, rfl⟩, rfl, h⟩
  · exact wp_replaceWorker h hid w

/-! ## Recovering leases -/

/-- The run after both sweeps of a round, with what they report. -/
structure Swept (config : EngineConfig) (runID : RunID) (g : Ledger) (before run : WorkflowRun)
    (recoveries : List LeaseRecovery) (promoted : List TaskID) : Prop where
  books : Books config runID g run
  succeeded : ∀ k, (∃ t, run.tasks.get? k = some t ∧ t.status = .succeeded) ↔
    ∃ t, before.tasks.get? k = some t ∧ t.status = .succeeded
  ready : ∀ k t, before.tasks.get? k = some t → t.status = .ready →
    ∃ t', run.tasks.get? k = some t' ∧ t'.status = .ready
  settled : ∀ r ∈ recoveries, ∃ n t, r.attemptID = attemptIDFor (taskRunIDFor runID r.taskID) n ∧
    run.tasks.get? r.taskID = some t ∧ t.Past n ∧ t.status ≠ .succeeded
  offered : ∀ k ∈ promoted, ∃ t, run.tasks.get? k = some t ∧ t.status = .ready
  unfailed : (∀ r ∈ recoveries, r.outcome = .retryScheduled) →
    ∀ k t, run.tasks.get? k = some t → t.status ≠ .failed
  idle : recoveries = [] → promoted = [] → run = before

theorem Books.swept {run : WorkflowRun} (h : Books config runID g run)
    (hunfailed : ∀ k t, run.tasks.get? k = some t → t.status ≠ .failed) (now now' : Int) :
    Swept config runID g run ((run.recoverExpiredLeases now).1.promoteDueRetries now').1
      (run.recoverExpiredLeases now).2
      ((run.recoverExpiredLeases now).1.promoteDueRetries now').2 := by
  have hc := h.tracked.coherent
  have hbooks₁ : Books config runID g (run.recoverExpiredLeases now).1 :=
    h.apply (.recoverExpiredLeases now) rfl
  have hc₁ := hbooks₁.tracked.coherent
  have hbooks₂ : Books config runID g ((run.recoverExpiredLeases now).1.promoteDueRetries now').1 :=
    hbooks₁.apply (.promoteDueRetries now') rfl
  have he₁ : Evolves (fun _ => {}) run (run.recoverExpiredLeases now).1 :=
    recoverExpiredLeases_evolves run now
  have he₂ : Evolves (fun _ => {}) (run.recoverExpiredLeases now).1
      ((run.recoverExpiredLeases now).1.promoteDueRetries now').1 := promoteDueRetries_evolves _ now'
  refine ⟨hbooks₂, fun k => ⟨?_, ?_⟩, fun k t ht hs => ?_, fun r hr => ?_, fun k hk => ?_,
    fun hall k t ht hs => ?_, fun hr hp => ?_⟩
  · rintro ⟨t, ht, hs⟩
    rcases promoted_origin ht with ht | hready
    · rcases recovered_origin hc ht with ht | ⟨r, hr, rfl⟩
      · exact ⟨t, ht, hs⟩
      · obtain ⟨-, t', -, -, -, ht', -, hne, -⟩ := mem_recoveries hc hr
        rw [ht] at ht'
        cases ht'
        exact absurd hs hne
    · rw [hs] at hready
      cases hready
  · rintro ⟨t, ht, hs⟩
    exact ⟨t, he₂.frozen (he₁.frozen ht (by rw [hs]; rfl)) (by rw [hs]; rfl), hs⟩
  · obtain ⟨t₁, ht₁, hs₁⟩ := he₁.ready_kept hc (fun _ _ hf => hf) (fun _ hf => hf) ht hs
    exact he₂.ready_kept hc₁ (fun _ _ hf => hf) (fun _ hf => hf) ht₁ hs₁
  · obtain ⟨t, t', ht, hrun, ha, ht', hended, hne, -⟩ := mem_recoveries hc hr
    have hid := hc.tasks _ _ ht
    obtain ⟨t'', ht'', hpast⟩ := he₂.past hc₁ ht'
      (.inr ⟨hended.attempts.symm, hended.not_running⟩ : t'.Past t.attemptCount)
    refine ⟨t.attemptCount, t'', ?_, ht'', hpast, fun hs => ?_⟩
    · rw [ha, hid.attempt_ne_nil (hid.running hrun), h.id]
    · rcases promoted_origin ht'' with hsame | hready
      · rw [ht'] at hsame
        cases hsame
        exact hne hs
      · rw [hs] at hready
        cases hready
  · obtain ⟨t, -, -, ht⟩ := mem_promoted hk
    exact ⟨_, ht, rfl⟩
  · rcases promoted_origin ht with ht | hready
    · rcases recovered_origin hc ht with ht | ⟨r, hr, rfl⟩
      · exact hunfailed k t ht hs
      · obtain ⟨-, t', -, -, -, ht', -, -, ⟨-, hne⟩ | ⟨ho, -⟩⟩ := mem_recoveries hc hr
        · rw [ht] at ht'
          cases ht'
          exact hne hs
        · rw [hall r hr] at ho
          cases ho
    · rw [hs] at hready
      cases hready
  · have hidle := recoverExpiredLeases_idle hr
    rw [hidle] at hp ⊢
    exact promoteDueRetries_idle hp

theorem Books.respawned {run : WorkflowRun} (h : Books config runID g run) (l : List WorkerID)
    (roster : Nat → Option WorkerID) (staff : Staffing) :
    Books config runID { g with spawned := l, roster := roster, staff := staff } run :=
  ⟨⟨h.tracked.base, h.tracked.valid, h.tracked.definition⟩, h.grounded, h.id, h.status,
    h.published, h.jobs, h.leases⟩

theorem wp_shutdownWorkers :
    shutdownWorkers.wp (schedulerContract config runID)
      (fun _ g' => g' = { g with staff := .gone }) g :=
  wp_call_of trivial fun _ => ⟨rfl, fun _ _ => rfl⟩

theorem Tracked.deserted {run : WorkflowRun} (h : Tracked g run) :
    Tracked { g with staff := .gone } run := ⟨h.base, h.valid, h.definition⟩

section

variable {I : Scheduler → Ledger → Prop}

theorem wp_done {o : RunOutcome} (h : Ending o g) :
    (pure (.done o) : Round).wp (schedulerContract config runID) (Step.Holds I Ending) g := h

theorem wp_abandon (h : ¬g.clean) (st : Scheduler) (err : GoString) :
    (abandon st err).wp (schedulerContract config runID) (Step.Holds I Ending) g := by
  refine Prog.wp_seq wp_shutdownWorkers ?_
  rintro - g' rfl
  exact wp_done (Ending.of_unclean (.inr rfl) h)

theorem wp_failWith (h : Tracked g st.run) (hs : st.run.status = .running)
    (hopen : g.tidy → ∃ k t, st.run.tasks.get? k = some t ∧ t.status ≠ .succeeded)
    (cause : GoString) :
    (failWith st cause).wp (schedulerContract config runID) (Step.Holds I Ending) g := by
  refine Prog.wp_seq wp_shutdownWorkers ?_
  rintro - g' rfl
  exact Prog.wp_seq (wp_failRun h.deserted hs hopen (.inr rfl) cause) fun _ _ he => he

theorem wp_cancelWith (h : Tracked g st.run) (hs : st.run.status = .running)
    (hopen : ∀ k t, st.run.tasks.get? k = some t → t.status ≠ .failed) (cause : GoString) :
    (cancelWith st cause).wp (schedulerContract config runID) (Step.Holds I Ending) g := by
  refine Prog.wp_seq wp_shutdownWorkers ?_
  rintro - g' rfl
  exact Prog.wp_seq (wp_cancelRun h.deserted (.inr hs) (fun _ => hopen) (.inr rfl) cause)
    fun _ _ he => he

end

theorem wp_checkContext (h : Scheduling config runID st g) :
    (checkContext st).wp (schedulerContract config runID)
      (Step.Holds (Scheduling config runID) Ending) g := by
  refine wp_call_of trivial fun contextErr => ?_
  cases contextErr with
  | none => exact h
  | some e => exact wp_cancelWith h.books.tracked h.books.status h.unfailed e

theorem wp_noteRecoveries : ∀ (recoveries : List LeaseRecovery) {st : Scheduler} {g : Ledger}
    (failure : Option GoString), Books config runID g st.run → Desk config runID g st →
    (noteRecoveries config recoveries st failure).wp (schedulerContract config runID)
      (fun r g' => Restaffed config runID g st r.1 g' ∧
        (r.2 = none ↔ failure = none ∧ ∀ r ∈ recoveries, r.outcome = .retryScheduled)) g
  | [], st, g, failure, _, hd => by
    refine ⟨⟨⟨g.spawned, g.roster, g.staff, rfl⟩, rfl, hd⟩, ?_⟩
    simp
  | r :: rest, st, g, failure, hb, hd => by
    have hd' : Desk config runID g { st with inFlight := st.inFlight.erase r.attemptID } :=
      ⟨hd.completed, hd.ready, hd.pending, hd.slots, hd.spawned, hd.workers⟩
    refine Prog.wp_seq (wp_replaceRecovered hd' hb.id r.workerID) ?_
    rintro st₁ g₁ ⟨⟨l, roster, staff, hg₁⟩, hrun, hd₁⟩
    have hrun : st₁.run = st.run := hrun
    have hb₁ : Books config runID g₁ st₁.run := hg₁ ▸ hrun ▸ hb.respawned l roster staff
    -- what is left of the list runs with the same run and other workers
    have hrest : ∀ st₂ failure', st₂.run = st₁.run → Desk config runID g₁ st₂ →
        (noteRecoveries config rest st₂ failure').wp (schedulerContract config runID)
          (fun q g' => Restaffed config runID g st q.1 g' ∧
            (q.2 = none ↔ failure' = none ∧ ∀ r ∈ rest, r.outcome = .retryScheduled)) g₁ := by
      intro st₂ failure' hrun₂ hd₂
      refine Prog.wp_mono ?_ (wp_noteRecoveries rest failure' (hrun₂ ▸ hb₁) hd₂)
      rintro q g' ⟨⟨⟨l', roster', staff', rfl⟩, hq, hdq⟩, hiff⟩
      subst hg₁
      exact ⟨⟨⟨l', roster', staff', rfl⟩, hq.trans (hrun₂.trans hrun), hdq⟩, hiff⟩
    by_cases hretry : r.outcome = .retryScheduled
    · simp only [hretry, if_true]
      refine Prog.wp_mono ?_ (hrest _ failure ?_ ?_)
      · rintro q g' ⟨hq, hiff⟩
        exact ⟨hq, by rw [hiff]; simp [hretry]⟩
      · split <;> rfl
      · split
        · rename_i hready
          unfold Scheduler.isReady at hready
          split at hready
          · rename_i t ht
            rw [Scheduler.definitionOf, hb₁.grounded.defined _ t ht]
            exact hd₁.addReady ht (by simpa using hready) _
          · cases hready
        · exact hd₁
    · simp only [hretry, if_false]
      refine Prog.wp_mono ?_ (hrest st₁ _ rfl hd₁)
      rintro q g' ⟨hq, hiff⟩
      exact ⟨hq, by rw [hiff]; simp [hretry]⟩

theorem Current.holds_past {run : WorkflowRun} (h : Current g run) (hrun : run.id = runID)
    (hpast : ∃ t, run.tasks.get? k = some t ∧ t.Past n) :
    g.Holds k fun t => Identified runID k t ∧ t.Past n := by
  obtain ⟨t, ht, hp⟩ := hpast
  refine h.holds.mpr ⟨t, ht, ?_, hp⟩
  obtain ⟨s, -, hs⟩ := h
  rw [← hrun]
  exact hs.coherent.tasks k t ht

/-- An attempt that is over in the stored run may be acknowledged. -/
theorem Current.needs_ack {run : WorkflowRun} (h : Current g run) (hrun : run.id = runID)
    {d : Delivery} (hid : d.message.id = attemptIDFor (taskRunIDFor runID k) n)
    (hpast : ∃ t, run.tasks.get? k = some t ∧ t.Past n) : g.needs config runID (.ack d) := by
  intro k' n' _ _ _ hm
  rw [hm, attemptMessage_id] at hid
  obtain ⟨-, rfl, rfl⟩ := attemptID_injective hid
  exact h.holds_past hrun hpast

theorem Desk.settlePending (h : Desk config runID g st) (a : AttemptID) :
    Desk config runID g (st.settlePending a) where
  completed := h.completed
  ready := h.ready
  pending a' c hc := by
    refine h.pending a' c ?_
    rw [Scheduler.pendingFor, Scheduler.settlePending, KeyMap.get?_erase] at hc
    split at hc
    · cases hc
    · exact hc
  slots := h.slots
  spawned := h.spawned
  workers := h.workers

/-- The claims that waited for the end of an attempt are acknowledged. -/
theorem wp_acknowledgePending (hd : Desk config runID g st) (hcur : Current g st.run)
    (hrun : st.run.id = runID) (r : RunID)
    (hpast : ∃ t, st.run.tasks.get? k = some t ∧ t.Past n) :
    (acknowledgePendingClaims r (st.pendingFor (attemptIDFor (taskRunIDFor runID k) n))).wp
      (schedulerContract config runID) (Settling g) g := by
  refine wp_acknowledgePendingClaims r fun c hc => ?_
  obtain ⟨hid, htaken⟩ := hd.pending _ c hc
  exact ⟨hcur.needs_ack hrun hid hpast, htaken⟩

/-- How acknowledging the recovered attempts comes out. -/
def Acknowledged (config : EngineConfig) (runID : RunID) (g : Ledger) (st : Scheduler) :
    Except GoString Scheduler → Ledger → Prop
  | .ok st', g' => Quiet g g' ∧ st'.run = st.run ∧ Desk config runID g' st'
  | .error _, g' => ¬g'.clean

theorem wp_acknowledgeRecoveries : ∀ {recoveries : List LeaseRecovery} {st : Scheduler} {g : Ledger},
    Desk config runID g st → Current g st.run → st.run.id = runID →
    (∀ r ∈ recoveries, ∃ n, r.attemptID = attemptIDFor (taskRunIDFor runID r.taskID) n ∧
      ∃ t, st.run.tasks.get? r.taskID = some t ∧ t.Past n) →
    (acknowledgeRecoveries recoveries st).wp (schedulerContract config runID)
      (Acknowledged config runID g st) g
  | [], st, g, hd, _, _, _ => ⟨.refl g, rfl, hd⟩
  | r :: rest, st, g, hd, hcur, hid, hpast => by
    obtain ⟨n, ha, ht⟩ := hpast r List.mem_cons_self
    rw [acknowledgeRecoveries, ha]
    refine Prog.wp_seq (wp_acknowledgePending hd hcur hid _ ht) ?_
    rintro (_ | e) g₁ ⟨hq, hmark⟩
    · refine Prog.wp_mono ?_ (wp_acknowledgeRecoveries ((hd.quiet hq).settlePending _)
        (hcur.quiet hq) hid fun r' hr' => hpast r' (List.mem_cons_of_mem _ hr'))
      rintro (e | st') g' hack
      · exact hack
      · exact ⟨hq.trans hack.1, hack.2⟩
    · exact hmark (by simp)

/-- The run after the sweeps with the tables brought up to date. -/
structure Caught (config : EngineConfig) (runID : RunID) (g : Ledger) (before : WorkflowRun)
    (recoveries : List LeaseRecovery) (promoted : List TaskID) (st : Scheduler) : Prop where
  swept : Swept config runID g before st.run recoveries promoted
  desk : Desk config runID g st
  current : Current g before

theorem Caught.unfinished (h : Caught config runID g before recoveries promoted st)
    (hne : ¬(recoveries = [] ∧ promoted = [])) :
    ∃ k t, st.run.tasks.get? k = some t ∧ t.status ≠ .succeeded := by
  by_cases hr : recoveries = []
  · obtain ⟨k, hk⟩ := List.exists_mem_of_ne_nil promoted fun hp => hne ⟨hr, hp⟩
    obtain ⟨t, ht, hs⟩ := h.swept.offered k hk
    exact ⟨k, t, ht, by rw [hs]; nofun⟩
  · obtain ⟨r, hr⟩ := List.exists_mem_of_ne_nil recoveries hr
    obtain ⟨n, t, -, ht, -, hs⟩ := h.swept.settled r hr
    exact ⟨r.taskID, t, ht, hs⟩

/-- The state after the head of a round, whether or not a task has failed for good. -/
structure Recovered (config : EngineConfig) (runID : RunID) (recoveries : List LeaseRecovery)
    (st : Scheduler) (g : Ledger) : Prop where
  books : Books config runID g st.run
  desk : Desk config runID g st
  current : Current g st.run
  unfailed : (∀ r ∈ recoveries, r.outcome = .retryScheduled) →
    ∀ k t, st.run.tasks.get? k = some t → t.status ≠ .failed
  unfinished : recoveries ≠ [] → ∃ k t, st.run.tasks.get? k = some t ∧ t.status ≠ .succeeded

theorem wp_saveRecoveries (h : Caught config runID g before recoveries promoted st) :
    (saveRecoveries st recoveries promoted).wp (schedulerContract config runID)
      (Step.Holds (Recovered config runID recoveries) Ending) g := by
  have hbooks := h.swept.books
  unfold saveRecoveries
  split
  · rename_i hnone
    have hrun := h.swept.idle hnone.1 hnone.2
    exact ⟨hbooks, h.desk, hrun ▸ h.current, h.swept.unfailed, fun hne => absurd hnone.1 hne⟩
  · rename_i hsome
    have hopen := h.unfinished hsome
    refine Prog.wp_seq (wp_saveRun hbooks.tracked _) ?_
    rintro (e | run) g' hsave
    · rw [hsave]
      exact wp_failWith (hbooks.tracked.quiet (.failed g)) hbooks.status (fun _ => hopen) e
    · obtain ⟨rfl, rfl⟩ := hsave
      have hd : Desk config runID (g.saved st.run) { st with run := st.run.nextVersion } :=
        ⟨h.desk.completed, h.desk.ready, h.desk.pending, h.desk.slots, h.desk.spawned,
          h.desk.workers⟩
      refine Prog.wp_seq (wp_acknowledgeRecoveries hd hbooks.tracked.saved hbooks.id fun r hr => ?_) ?_
      · obtain ⟨n, t, ha, ht, hp, -⟩ := h.swept.settled r hr
        exact ⟨n, ha, t, ht, hp⟩
      · rintro (e | st') g' hack
        · exact wp_abandon hack _ _
        · obtain ⟨hq, hrun, hd'⟩ := hack
          have hrun : st'.run = st.run.nextVersion := hrun
          exact ⟨hrun ▸ hbooks.saved.quiet hq, hd', hrun ▸ hbooks.tracked.saved.quiet hq,
            hrun ▸ h.swept.unfailed, fun _ => hrun ▸ hopen⟩

theorem promote_ready : ∀ (promoted : List TaskID) {st : Scheduler}, Desk config runID g st →
    (∀ k ∈ promoted, ∃ t, st.run.tasks.get? k = some t ∧ t.status = .ready) →
    (promoted.foldl (fun st k => st.addReady k (st.definitionOf k)) st).run = st.run ∧
      Desk config runID g (promoted.foldl (fun st k => st.addReady k (st.definitionOf k)) st)
  | [], st, hd, _ => ⟨rfl, hd⟩
  | k :: rest, st, hd, hready => by
    obtain ⟨t, ht, hs⟩ := hready k List.mem_cons_self
    exact promote_ready rest (hd.addReady ht hs _) fun k' hk' => hready k' (List.mem_cons_of_mem _ hk')

theorem Swept.quiet {run : WorkflowRun} (h : Swept config runID g before run recoveries promoted)
    (hb : Books config runID g' run) : Swept config runID g' before run recoveries promoted :=
  ⟨hb, h.succeeded, h.ready, h.settled, h.offered, h.unfailed, h.idle⟩

theorem wp_recoverLeases (h : Scheduling config runID st g) :
    (recoverLeases config st).wp (schedulerContract config runID)
      (Step.Holds (Scheduling config runID) Ending) g := by
  refine wp_call_of trivial fun now => ?_
  refine wp_call_of trivial fun now' => ?_
  have hq := (Quiet.now config runID g now).trans (Quiet.now config runID _ now')
  have hswept := (h.books.quiet hq).swept h.unfailed now now'
  have hdesk := (h.desk.quiet hq).with_run _ hswept.succeeded hswept.ready
  refine Prog.wp_seq (wp_noteRecoveries _ none hswept.books hdesk) ?_
  rintro ⟨st₁, failure⟩ g₁ ⟨⟨⟨l, roster, staff, rfl⟩, hrun, hd₁⟩, hfailure⟩
  have hrun : st₁.run = ((st.run.recoverExpiredLeases now).1.promoteDueRetries now').1 := hrun
  obtain ⟨hrun₂, hd₂⟩ := promote_ready _ hd₁ (hrun ▸ hswept.offered)
  have hcaught := hswept.quiet (hswept.books.respawned l roster staff)
  rw [← hrun, ← hrun₂] at hcaught
  have hcurrent := h.current.quiet hq
  refine Step.wp_andThen (wp_saveRecoveries ⟨hcaught, hd₂, hcurrent⟩) fun st₂ g₂ hst => ?_
  cases failure with
  | none =>
    exact ⟨hst.books, hst.desk, hst.current, hst.unfailed (hfailure.mp rfl).2⟩
  | some cause =>
    refine wp_failWith hst.books.tracked hst.books.status (fun _ => hst.unfinished ?_) cause
    intro hnil
    rw [hnil] at hfailure
    exact absurd (hfailure.mpr ⟨rfl, by simp⟩) (by simp)

/-! ## Completing, publishing, stalling -/

theorem transitionWorkflow_legal {run : WorkflowRun} {target : WorkflowRunStatus}
    (h : legalWorkflowTransition run.status target = true) (now : Int) :
    run.transitionWorkflow target now =
      .ok { run with status := target, updatedAt := run.nextTimestamp now } := by
  simp [WorkflowRun.transitionWorkflow, h]

/-- All tasks are counted as completed just when all of them have succeeded. -/
theorem Desk.completed_all (h : Desk config runID g st) (hd : st.run.definition.validate = .ok ())
    (hkeys : ∀ k, (st.run.tasks.get? k).isSome = true ↔
      k ∈ st.run.definition.tasks.map TaskDefinition.id) :
    st.completed.size = st.run.definition.tasks.length ↔
      ∀ k t, st.run.tasks.get? k = some t → t.status = .succeeded := by
  have hids := (WorkflowDefinition.wellFormed_of_validate hd).ids_nodup
  have hsub : st.completed.keys ⊆ st.run.definition.tasks.map TaskDefinition.id := by
    intro k hk
    obtain ⟨t, ht, -⟩ := (h.completed k).mp ((KeyMap.mem_keys_iff _ _).mp hk)
    exact (hkeys k).mp (by rw [ht]; rfl)
  have hperm := st.completed.keys_nodup.subperm hsub
  have hsize : st.completed.size = st.completed.keys.length := by
    simp [KeyMap.size, KeyMap.keys]
  rw [hsize, ← List.length_map TaskDefinition.id]
  constructor
  · intro hlen k t ht
    have hmem : k ∈ st.completed.keys :=
      (hperm.perm_of_length_le (le_of_eq hlen.symm)).mem_iff.mpr ((hkeys k).mp (by rw [ht]; rfl))
    obtain ⟨t', ht', hs⟩ := (h.completed k).mp ((KeyMap.mem_keys_iff _ _).mp hmem)
    rw [ht] at ht'
    cases ht'
    exact hs
  · intro hall
    refine le_antisymm hperm.length_le (hids.subperm fun k hk => ?_).length_le
    obtain ⟨t, ht⟩ := Option.isSome_iff_exists.mp ((hkeys k).mpr hk)
    exact (KeyMap.mem_keys_iff _ _).mpr ((h.completed k).mpr ⟨t, ht, hall k t ht⟩)

/-- The invariant of the loop, with some task still to be done. -/
structure Working (config : EngineConfig) (runID : RunID) (st : Scheduler) (g : Ledger) : Prop
    extends Scheduling config runID st g where
  unfinished : g.tidy → ∃ k t, st.run.tasks.get? k = some t ∧ t.status ≠ .succeeded

theorem wp_completeWorkflow (h : Scheduling config runID st g) :
    (completeWorkflow st).wp (schedulerContract config runID)
      (Step.Holds (Working config runID) Ending) g := by
  unfold completeWorkflow
  split
  · rename_i hall
    refine Prog.wp_seq wp_shutdownWorkers ?_
    rintro - g' rfl
    refine wp_call_of trivial fun now => ?_
    have hq := Quiet.now config runID { g with staff := .gone } now
    have hl : legalWorkflowTransition st.run.status .succeeded = true := by
      rw [h.books.status]
      rfl
    have hok := transitionWorkflow_legal hl now
    have happly : st.run.apply (.succeed now) =
        { st.run with status := .succeeded, updatedAt := st.run.nextTimestamp now } := by
      rw [WorkflowRun.apply, hok]
      rfl
    have htracked := (h.books.tracked.deserted.quiet hq).apply (.succeed now) (by rw [happly])
      fun ht =>
      have hsound := (h.books.tracked.valid (hq.tidy ht)).sound
      (h.desk.completed_all hsound.definition hsound.keys).mp hall
    rw [happly] at htracked
    simp only [hok]
    refine Prog.wp_seq (wp_saveRun htracked _) ?_
    rintro (e | run) g' hsave
    · rw [hsave]
      exact wp_done (Ending.of_unclean (.inr rfl) id)
    · obtain ⟨rfl, rfl⟩ := hsave
      exact wp_done (Ending.of_saved (.inr rfl) rfl)
  · rename_i hsome
    refine ⟨h, fun ht => ?_⟩
    by_contra hall
    push Not at hall
    have hsound := (h.books.tracked.valid ht).sound
    exact hsome ((h.desk.completed_all hsound.definition hsound.keys).mpr hall)

theorem Working.publish (h : Working config runID st g)
    (ht : st.run.tasks.get? k = some t) (hs : t.status = .ready) {m : TaskMessage}
    (hm : m = attemptMessage runID k (t.attemptCount + 1)) (a : AttemptID) :
    Working config runID { st with published := st.published.insert a () }
      { g with published := m :: g.published } := by
  subst hm
  have hb := h.books
  have hpublished : ∀ k' n', attemptMessage runID k' n' ∈
      attemptMessage runID k (t.attemptCount + 1) :: g.published →
      ∃ t, st.run.tasks.get? k' = some t ∧ t.Dispatched n' := by
    intro k' n' hm
    rcases List.mem_cons.mp hm with heq | hm
    · have hid := congrArg TaskMessage.id heq
      rw [attemptMessage_id, attemptMessage_id] at hid
      obtain ⟨-, rfl, rfl⟩ := attemptID_injective hid
      exact ⟨t, ht, .inl ⟨hs, rfl⟩⟩
    · exact hb.published k' n' hm
  exact ⟨⟨⟨⟨hb.tracked.base, hb.tracked.valid, hb.tracked.definition⟩, hb.grounded, hb.id,
    hb.status, hpublished, hb.jobs, hb.leases⟩,
    ⟨h.desk.completed, h.desk.ready, h.desk.pending, h.desk.slots, h.desk.spawned,
      h.desk.workers⟩,
    h.current, h.unfailed⟩, h.unfinished⟩

/-- How publishing comes out. -/
def Announced (config : EngineConfig) (runID : RunID) :
    Except GoString Scheduler → Ledger → Prop
  | .ok st, g => Working config runID st g
  | .error _, g => ¬g.clean

theorem wp_publishTasks : ∀ {keys : List TaskID} {st : Scheduler} {g : Ledger},
    Working config runID st g →
    (∀ k ∈ keys, ∃ t, st.run.tasks.get? k = some t ∧ t.status = .ready) →
    (publishTasks keys st).wp (schedulerContract config runID) (Announced config runID) g
  | [], _, _, h, _ => h
  | k :: rest, st, g, h, hready => by
    obtain ⟨t, ht, hs⟩ := hready k List.mem_cons_self
    have hrest : ∀ k ∈ rest, ∃ t, st.run.tasks.get? k = some t ∧ t.status = .ready :=
      fun k' hk' => hready k' (List.mem_cons_of_mem _ hk')
    have hmessage : dispatchMessage ⟨st.run.id, k, t.taskRunID,
        attemptIDFor t.taskRunID (t.attemptCount + 1)⟩ =
        attemptMessage runID k (t.attemptCount + 1) := by
      rw [(h.books.tracked.coherent.tasks k t ht).taskRun, h.books.id]
      rfl
    unfold publishTasks
    simp only [ht]
    split
    · exact wp_publishTasks h hrest
    · refine wp_call_of ⟨k, _, hmessage, h.current.holds.mpr ⟨t, ht, hs, rfl⟩⟩ fun answer => ?_
      cases answer with
      | error e => exact fun hclean => hclean
      | ok _ => exact wp_publishTasks (h.publish ht hs hmessage _) hrest

theorem wp_publishReadyTasks (h : Working config runID st g) :
    (publishReadyTasks st).wp (schedulerContract config runID)
      (Step.Holds (Working config runID) Ending) g := by
  refine Prog.wp_seq (wp_publishTasks h fun k hk => h.desk.ready k ((KeyMap.mem_keys_iff _ _).mp hk)) ?_
  rintro (e | st') g' hpub
  · exact wp_abandon hpub _ _
  · exact hpub

theorem wp_checkStalled (h : Working config runID st g) :
    (checkStalled st).wp (schedulerContract config runID)
      (Step.Holds (Working config runID) Ending) g := by
  unfold checkStalled
  split
  · exact wp_failWith h.books.tracked h.books.status h.unfinished _
  · exact h

end

end ForgeFlow.Execution
