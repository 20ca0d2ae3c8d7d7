import ForgeFlow.Execution.Conducted

/-!
# Who renews a lease

A scheduler renews the leases of the attempts it gave out itself, as long as it starts no
worker under an ID that a lease names. A lease left over by earlier calls then stays as it
is until its task is recovered. The IDs start again with every call on an engine, so a
worker may well be given the ID of such a lease.
-/

namespace ForgeFlow.Execution

open ForgeFlow.Base ForgeFlow.Workflow

variable {s : WorkflowRunSnapshot} {l : TaskLease}

/-- The jobs a scheduler has noted are in the log. -/
def Logged (w : World) (conducts : Nat → Conduct) : Prop :=
  ∀ pid, ∀ q ∈ (conducts pid).books.jobs, .handed pid q.1 q.2 ∈ w.log

section

variable {w w' : World} {conducts conducts' : Nat → Conduct} {label : Label} {pid : Nat}
  {p p' : Process}

/-- The log only grows. -/
theorem World.Moves.log (hm : w.Moves label w') : ∀ o ∈ w.log, o ∈ w'.log := by
  cases hm with
  | call hlive ht ha =>
    intro o ho
    rcases (answer_log ha).2.2.2.2 with hlog | ⟨_, -, hlog⟩ | ⟨_, _, -, hlog⟩ <;>
      rw [World.put, hlog]
    · exact ho
    · exact List.mem_cons_of_mem _ ho
    · exact List.mem_cons_of_mem _ ho
  | _ => exact fun _ ho => ho

theorem Logged.step (h : Logged w conducts) (hm : ConductMoves w conducts label w' conducts') :
    Logged w' conducts' := by
  have hlog := hm.moves.log
  intro pid' q hq
  cases hm with
  | quiet hm => exact hlog _ (h pid' q hq)
  | @launch pid config start hnone =>
    by_cases heq : pid' = pid
    · subst heq
      rw [Function.update_self] at hq
      cases start <;> cases hq
    · rw [Function.update_of_ne heq] at hq
      exact hlog _ (h pid' q hq)
  | @call pid p p' w'' c next r choice hlive ht ha =>
    by_cases heq : pid' = pid
    · subst heq
      rw [Function.update_self] at hq
      rcases note_jobs p.config w.runID _ c r q hq with hq | rfl
      · exact hlog _ (h pid' q hq)
      · cases ha
        exact List.mem_cons_self
    · rw [Function.update_of_ne heq] at hq
      exact hlog _ (h pid' q hq)

end

/-! ## Workers with IDs of their own -/

/-- No worker is started under an ID that a lease of the last snapshot names. -/
def FreshWorkers (w : World) (label : Label) : Prop :=
  ∀ pid choice id slot s, label = .scheduler pid choice →
    w.pending pid = some (.spawnWorker id slot) → w.history.head? = some s →
    ∀ t ∈ s.tasks, t.leasedTo ≠ some id

/-- A scheduler that knows the last snapshot has started no such worker. -/
def Owning (w : World) (conducts : Nat → Conduct) : Prop :=
  ∀ pid s, (conducts pid).books.stored = some s → w.history.head? = some s → (conducts pid).own

/-- A snapshot that is the last one of a longer history was the last one before. -/
theorem Chain.head?_of_mem {runID runID' : RunID} {history history' : List WorkflowRunSnapshot}
    (hc : Chain runID history) (hc' : Chain runID' history') (hg : ∀ s ∈ history, s ∈ history')
    (hs : s ∈ history) (hhead : history'.head? = some s) :
    history.head? = some s := by
  cases history with
  | nil => cases hs
  | cons last rest =>
    cases history' with
    | nil => cases hhead
    | cons last' rest' =>
      cases hhead
      rcases hc'.head (hg last List.mem_cons_self) with rfl | hl
      · rfl
      · rcases hc.head hs with rfl | hl'
        · rfl
        · exact absurd hl.version (Nat.lt_asymm hl'.version)

section

variable {w w' : World} {conducts conducts' : Nat → Conduct} {label : Label} {pid : Nat}
  {p p' : Process}

theorem Owning.step (h : Owning w conducts) (hfresh : FreshWorkers w label)
    (hc : Conducted w conducts) (hc' : Conducted w' conducts')
    (hm : ConductMoves w conducts label w' conducts') : Owning w' conducts' := by
  -- what a scheduler knew before is not a new snapshot
  have hkept : ∀ pid s, (conducts pid).books.stored = some s → w'.history.head? = some s →
      (conducts pid).own := fun pid s hs hhead =>
    h pid s hs (hc.consistent.chain.head?_of_mem hc'.consistent.chain hm.moves.history.2
      ((hc.consistent.informed pid).stored s hs) hhead)
  intro pid' s hs hhead
  cases hm with
  | quiet hm => exact hkept pid' s hs hhead
  | @launch pid config start hnone =>
    by_cases heq : pid' = pid
    · subst heq
      rw [Function.update_self]
      trivial
    · rw [Function.update_of_ne heq] at hs ⊢
      exact hkept pid' s hs hhead
  | @call pid p p' w'' c next r choice hlive ht ha =>
    by_cases heq : pid' = pid
    · subst heq
      rw [Function.update_self] at hs ⊢
      have hstored : c.storing = false → (conducts pid').books.stored = some s := fun hnot =>
        (note_kept (r := r) p.config w.runID _ hnot).1.symm.trans hs
      cases c with
      | createRun _ => trivial
      | loadRun _ => trivial
      | saveRun x =>
        rcases Choice.attempt_cases (attempt_map ha).2 with ⟨a, hok, -⟩ | ⟨-, e, rfl⟩
        · obtain ⟨current, rest, hhistory, hv, -⟩ := World.saveRun_ok hok
          exact h pid' current (hc.saving hlive ht hhistory hv).1 (by rw [hhistory]; rfl)
        · exact hkept pid' s hs hhead
      | spawnWorker id slot =>
        have hhead : w''.history.head? = some s := hhead
        rw [answer_history rfl ha] at hhead
        refine ⟨h pid' s hs hhead, fun s' hs' => ?_⟩
        rw [hstored rfl] at hs'
        cases hs'
        exact hfresh pid' choice id slot s rfl (hlive.pending ht) hhead
      | _ => exact hkept pid' s (hstored rfl) hhead
    · rw [Function.update_of_ne heq] at hs ⊢
      exact hkept pid' s hs hhead

/-! ## Calls that have ended -/

/-- The call has returned, or its process is gone. -/
def World.Ended (w : World) (pid : Nat) : Prop :=
  ∃ p, w.processes.get? pid = some p ∧ (p.crashed = true ∨ ∃ o, p.thread = .finished o)

theorem World.Ended.finished (h : w.Ended pid) (hlive : w.Live pid p) :
    ∃ o, p.thread = .finished o := by
  obtain ⟨q, hget, hended⟩ := h
  rw [hlive.1] at hget
  cases hget
  rcases hended with hcrashed | hfinished
  · rw [hlive.2] at hcrashed
    cases hcrashed
  · exact hfinished

theorem World.Ended.not_running (h : w.Ended pid) (hlive : w.Live pid p) {rest : Round} :
    p.thread ≠ .running rest := by
  obtain ⟨o, ho⟩ := h.finished hlive
  rw [ho]
  nofun

theorem World.Ended.put {pid' : Nat} (h : w.Ended pid)
    (hp : pid = pid' → p.crashed = true ∨ ∃ o, p.thread = .finished o) :
    (w.put pid' p).Ended pid := by
  by_cases heq : pid = pid'
  · subst heq
    exact ⟨p, KeyMap.get?_insert_self _ _ _, hp rfl⟩
  · obtain ⟨q, hget, hended⟩ := h
    refine ⟨q, ?_, hended⟩
    rw [World.put, KeyMap.get?_insert, if_neg heq]
    exact hget

/-- A call that has ended makes no further step. -/
theorem World.Moves.ended (hm : w.Moves label w') (h : w.Ended pid) : w'.Ended pid := by
  cases hm with
  | transport _ => exact h
  | launch config start hnone =>
    refine h.put fun heq => ?_
    obtain ⟨p, hget, -⟩ := h
    rw [heq, hnone] at hget
    cases hget
  | crash hlive => exact h.put fun _ => .inl rfl
  | cancel hlive =>
    refine h.put fun heq => .inr ?_
    subst heq
    have hfinished := h.finished hlive
    exact hfinished
  | again choice hlive ht => exact h.put fun heq => absurd ht ((heq ▸ h).not_running hlive)
  | finish choice hlive ht => exact h.put fun heq => absurd ht ((heq ▸ h).not_running hlive)
  | @call pid' p p' w'' c next r choice hlive ht ha =>
    have hsame : w''.Ended pid := by
      rw [World.Ended, (answer_log ha).2.1]
      exact h
    exact hsame.put fun heq => absurd ht ((heq ▸ h).not_running hlive)
  | worker hlive hw hmove =>
    refine World.Ended.put (w := { w with broker := _ }) h fun heq => .inr ?_
    rw [(moveWorker_frame hmove).2.2]
    exact (heq ▸ h).finished hlive

/-! ## A lease that is left over -/

/-- A lease of the last snapshot when every call has ended. -/
structure Leftover where
  world : World
  ended : ∀ pid p, world.processes.get? pid = some p → world.Ended pid
  snapshot : WorkflowRunSnapshot
  last : world.history.head? = some snapshot
  taskID : TaskID
  task : TaskRun
  stored : snapshot.taskMap.get? taskID = some task
  lease : TaskLease
  leased : task.lease = some lease

/-- The task stands as it was left, or its attempt is over. -/
def Leftover.Rests (o : Leftover) (t : TaskRun) : Prop :=
  t.lease = some o.lease ∨ ∀ l, t.lease = some l → l.attemptID ≠ o.lease.attemptID

/-- What a call started since has to do with the lease. -/
structure Leftover.Unrelated (o : Leftover) (g : Ledger) : Prop where
  fresh : g.fresh → ∀ s, g.stored = some s → s ∉ o.world.history
  jobs : ∀ q ∈ g.jobs, q.2.request.attemptID ≠ o.lease.attemptID

/-- The lease in the worlds that follow. -/
structure LeftAlone (o : Leftover) (w : World) (conducts : Nat → Conduct) : Prop where
  grown : Grown o.world.history w.history
  ended : ∀ pid, o.world.Ended pid → w.Ended pid
  unrelated : ∀ pid p, w.Live pid p → ¬o.world.Ended pid → o.Unrelated (conducts pid).books
  lease : ∀ s, w.history.head? = some s → ∃ t, s.taskMap.get? o.taskID = some t ∧
    o.task.attemptCount ≤ t.attemptCount ∧ o.Rests t ∧
    (s = o.snapshot ∨ Identified w.runID o.taskID o.task)

variable {o : Leftover}

theorem Identified.leased {runID : RunID} {k : TaskID} {t : TaskRun}
    (h : Identified runID k t) (hl : t.lease = some l) :
    l.attemptID = attemptIDFor (taskRunIDFor runID k) t.attemptCount := by
  obtain ⟨hrunning, hattempt, -⟩ := h.lease l hl
  rw [hattempt, h.attempt_ne_nil (h.running hrunning)]

theorem Leftover.mem (o : Leftover) : o.snapshot ∈ o.world.history :=
  List.mem_of_mem_head? o.last

theorem Leftover.leftAlone (o : Leftover) (conducts : Nat → Conduct) :
    LeftAlone o o.world conducts where
  grown := .refl _
  ended _ h := h
  unrelated pid p hlive hnot := absurd (o.ended pid p hlive.1) hnot
  lease s hs := by
    rw [o.last] at hs
    cases hs
    exact ⟨o.task, o.stored, le_refl _, .inl o.leased, .inl rfl⟩

/-- A snapshot stored since comes after the one with the lease. -/
theorem LeftAlone.newer (h : LeftAlone o w conducts)
    (hs : s ∈ w.history) (hnew : s ∉ o.world.history) : o.snapshot.version < s.version :=
  ((h.grown.new s hs).resolve_left hnew) o.snapshot o.mem

/-- Once something was stored since, the task with the lease is known to be named well. -/
theorem LeftAlone.identified (h : LeftAlone o w conducts) (hc : Chain w.runID w.history)
    (hs : s ∈ w.history) (hnew : s ∉ o.world.history) :
    Identified w.runID o.taskID o.task := by
  have hnewer := h.newer hs hnew
  cases hhistory : w.history with
  | nil =>
    rw [hhistory] at hs
    cases hs
  | cons last rest =>
    obtain ⟨-, -, -, -, rfl | hid⟩ := h.lease last (by rw [hhistory]; rfl)
    · rw [hhistory] at hs hc
      rcases hc.head hs with rfl | hl
      · exact absurd hnewer (lt_irrefl _)
      · exact absurd hl.version (Nat.lt_asymm hnewer)
    · exact hid

/-- The save of a scheduler started since leaves the lease alone. -/
theorem LeftAlone.saved (h : LeftAlone o w conducts) (hc : Conducted w conducts)
    (hown : Owning w conducts) (hlive : w.Live pid p) {x current : WorkflowRunSnapshot}
    {rest : List WorkflowRunSnapshot} {next : EngineResult (.saveRun x) → Round}
    (ht : p.thread = .running (.call (.saveRun x) next)) (hhistory : w.history = current :: rest)
    (hv : x.version = current.version) :
    ∃ t, x.next.taskMap.get? o.taskID = some t ∧ o.task.attemptCount ≤ t.attemptCount ∧
      o.Rests t ∧ Identified w.runID o.taskID o.task := by
  have hhead : w.history.head? = some current := by
    rw [hhistory]
    rfl
  have hunrelated := h.unrelated pid p hlive fun hended => (h.ended pid hended).not_running hlive ht
  obtain ⟨hstored, hlater⟩ := hc.saving hlive ht hhistory hv
  obtain ⟨t, hget, hcount, hrests, hknown⟩ := h.lease current hhead
  have hsafe := hc.safe pid p hlive
  have hledger := hc.consistent.safe pid p hlive
  rw [ht] at hsafe hledger
  obtain ⟨s₀, base, run, hs₀, hst, hadv, rfl, -⟩ := hledger.1
  cases hstored.symm.trans hs₀
  have hid : current.id = w.runID := hc.consistent.chain.id current (List.mem_of_mem_head? hhead)
  have hidentified : Identified w.runID o.taskID o.task := by
    rcases hknown with rfl | hid'
    · rw [← hid, hst.id]
      exact hst.coherent.tasks _ _ (hst.tasks ▸ o.stored)
    · exact hid'
  obtain ⟨t', hget', hle, -⟩ := hlater.tasks _ t hget
  refine ⟨t', hget', hcount.trans hle, ?_, hidentified⟩
  by_contra hrenewed
  rw [Leftover.Rests, not_or] at hrenewed
  push Not at hrenewed
  obtain ⟨hne, l, hl, hattempt⟩ := hrenewed
  have hc' := hadv.coherent hst.coherent
  have htasks : run.snapshot.next.taskMap = run.tasks := (Stored.of_saved hc' _).tasks
  rw [htasks] at hget'
  have hnamed : Identified w.runID o.taskID t' := by
    rw [← hid, hst.id, ← hadv.id hst.coherent]
    exact hc'.tasks _ t' hget'
  rcases hsafe.1.2 (hown pid current hstored hhead) t' (mem_sortedTasks hget') l hl with
    ⟨s, u, hs, hu, hlt | ⟨hsame, -⟩⟩ | ⟨q, hq, -, hjob⟩
  · -- a new attempt is not the one of the lease
    rw [hstored] at hs
    cases hs
    rw [hnamed.task, hget] at hu
    cases hu
    rw [hnamed.leased hl, hidentified.leased o.leased] at hattempt
    obtain ⟨-, -, hcounts⟩ := attemptID_injective hattempt
    omega
  · rw [hstored] at hs
    cases hs
    rw [hnamed.task, hget] at hu
    cases hu
    rcases hrests with hrests | hrests
    · exact hne (hl.trans (hsame.symm.trans hrests))
    · exact hrests l hsame hattempt
  · exact hunrelated.jobs q hq (hjob.trans hattempt)

/-- A call of a scheduler started since is not about the lease. -/
theorem LeftAlone.noted (h : LeftAlone o w conducts) (hc : Conducted w conducts)
    (hlive : w.Live pid p) {c : EngineCall} {next : EngineResult c → Round} {r : EngineResult c}
    {choice : Choice} (ht : p.thread = .running (.call c next))
    (ha : answer choice pid p w c = some (r, p', w')) :
    o.Unrelated ((conducts pid).books.note p.config w.runID c r) := by
  have hunrelated := h.unrelated pid p hlive fun hended => (h.ended pid hended).not_running hlive ht
  have hsafe := hc.consistent.safe pid p hlive
  rw [ht] at hsafe
  have hchain := hc.consistent.chain
  have hinformed := hc.consistent.informed pid
  have hlearned := answer_learned hchain hinformed hsafe.1 ha
  refine ⟨fun hfresh s hs hmem => ?_, fun q hq hattempt => ?_⟩
  · rcases hlearned.fresh hfresh with ⟨hfresh, hsame⟩ | ⟨s', hs', hnew⟩
    · exact hunrelated.fresh hfresh s (hsame ▸ hs) hmem
    · cases hs.symm.trans hs'
      exact hnew (h.grown.mem s hmem)
  · rcases note_jobs p.config w.runID _ c r q hq with hq | rfl
    · exact hunrelated.jobs q hq hattempt
    · -- the attempt would have been there before the save that brought it
      obtain ⟨-, -, hfresh, s, before, k, t, u, l, hs, hb, -, hget, hu, hlt, -, -, -, -, -, -, -,
        hjob, -⟩ := hsafe.1
      have hnew := hunrelated.fresh hfresh s hs
      have hmem := hinformed.stored s hs
      have hidentified := h.identified hchain hmem hnew
      rw [hjob, hidentified.leased o.leased] at hattempt
      obtain ⟨-, rfl, hcount⟩ := attemptID_injective hattempt
      have hfirst := (hinformed.first hchain hfresh hs hb hget hu hlt).first o.snapshot
        (h.grown.mem _ o.mem) o.task o.stored hcount.le
      exact absurd (h.newer hmem hnew) (Nat.not_lt.mpr hfirst)

theorem LeftAlone.step (h : LeftAlone o w conducts) (hown : Owning w conducts)
    (hc : Conducted w conducts) (hm : ConductMoves w conducts label w' conducts') :
    LeftAlone o w' conducts' := by
  have hended := fun pid hpid => hm.moves.ended (h.ended pid hpid)
  have hid := hm.moves.history.1
  cases hm with
  | quiet hm hlaunch hcall =>
    have hhistory := hm.stores_nothing hcall
    refine ⟨hhistory ▸ h.grown, hended, fun pid q hq hnot => ?_, ?_⟩
    · rcases hm.thread_cases hq with ⟨config, start, rfl, -⟩ | ⟨p, hlive, -⟩
      · exact absurd rfl (hlaunch pid config start)
      · exact h.unrelated pid p hlive hnot
    · rw [hhistory, hid]
      exact h.lease
  | launch config start hnone =>
    refine ⟨h.grown, hended, fun pid q hq hnot => ?_, h.lease⟩
    rcases World.live_put hq with ⟨rfl, -⟩ | ⟨hne, hq'⟩
    · rw [Function.update_self]
      cases start <;> exact ⟨False.elim, nofun⟩
    · rw [Function.update_of_ne hne]
      exact h.unrelated pid q hq' hnot
  | @call pid p p' w'' c next r choice hlive ht ha =>
    have hsafe := hc.consistent.safe pid p hlive
    rw [ht] at hsafe
    have hlearned :=
      answer_learned hc.consistent.chain (hc.consistent.informed pid) hsafe.1 ha
    refine ⟨h.grown.trans hlearned.grown, hended, fun pid' q hq hnot => ?_, fun s hs => ?_⟩
    · rcases World.live_put hq with ⟨rfl, -⟩ | ⟨hne, hq'⟩
      · rw [Function.update_self]
        exact h.noted hc hlive ht ha
      · rw [Function.update_of_ne hne]
        rw [World.Live, (answer_log ha).2.1] at hq'
        exact h.unrelated pid' q hq' hnot
    · have hs : w''.history.head? = some s := hs
      rcases answer_stores ha with hsame | ⟨_, -, hnil, -⟩ |
        ⟨x, current, rest, rfl, hhistory, hv, hnew⟩
      · rw [hid]
        exact h.lease s (hsame ▸ hs)
      · have hmem := h.grown.mem _ o.mem
        rw [hnil] at hmem
        cases hmem
      · cases (congrArg List.head? hnew).symm.trans hs
        obtain ⟨t, hget, hcount, hrests, hidentified⟩ := h.saved hc hown hlive ht hhistory hv
        exact ⟨t, hget, hcount, hrests, .inr (hid ▸ hidentified)⟩

/-! ## Who renews -/

/-- The scheduler gave the attempt of the lease to its worker. -/
def World.Handed (w : World) (pid : Nat) (l : TaskLease) : Prop :=
  ∃ claim job, .handed pid claim job ∈ w.log ∧ claim.workerID = l.workerID ∧
    job.request.attemptID = l.attemptID

theorem Logged.handed (h : Logged w conducts) (hg : (conducts pid).Given l) :
    w.Handed pid l := by
  obtain ⟨q, hq, hworker, hattempt⟩ := hg
  exact ⟨q.1, q.2, h pid q hq, hworker, hattempt⟩

/-- From the expiry of the lease on, the sweep takes the task from its worker. -/
theorem Leftover.Rests.recovered {run : WorkflowRun} (hc : Coherent run) {t t' : TaskRun}
    (ht : run.tasks.get? o.taskID = some t) (h : o.Rests t) {now : Int}
    (hnow : o.lease.expiresAt ≤ now)
    (ht' : (run.recoverExpiredLeases now).1.tasks.get? o.taskID = some t')
    (hl : t'.lease = some l) : l.attemptID ≠ o.lease.attemptID := by
  have hid := hc.tasks _ t ht
  have hget := (KeyMap.get?_map _ _ _).symm.trans ht'
  rw [ht, Option.map_some] at hget
  have hget := Option.some.inj hget
  split at hget
  · rw [← hget, (recover_ended hid _ _).lease] at hl
    cases hl
  · rename_i hgood
    subst hget
    rcases h with hlease | hover
    · have hdue : ¬run.nextTimestamp now < o.lease.expiresAt := by
        unfold WorkflowRun.nextTimestamp
        omega
      exact absurd (by simp [TaskRun.leaseExpired, (hid.lease _ hlease).1, hlease, hdue]) hgood
    · exact hover l hl

/-- In every run in which no worker is started under an ID that a lease of the last snapshot
names: a lease that is there when every call has ended stays as it is until its attempt is
over; a scheduler that takes the run up recovers it at its expiry; a lease that names one of
the scheduler's workers is of an attempt that worker was given; and a save changes no lease
but those, unless it starts a new attempt. -/
theorem leases_renewed_for_own_attempts {labels later : List Label} (h : w.Initial)
    (hv : w.validating = true) (o : Leftover) (hfresh : w.Meets FreshWorkers labels)
    (hrun : w.run labels = some o.world) (hfresh' : o.world.Meets FreshWorkers later)
    (hlater : o.world.run later = some w')
    (hs : w'.history.head? = some s) :
    (∃ t, s.taskMap.get? o.taskID = some t ∧ o.Rests t) ∧
    (∀ pid p st, w'.Live pid p → p.thread = .running (.ret (.again st)) →
      st.run.version = s.version →
      (∀ now t l, o.lease.expiresAt ≤ now →
        (st.run.recoverExpiredLeases now).1.tasks.get? o.taskID = some t → t.lease = some l →
        l.attemptID ≠ o.lease.attemptID) ∧
      ∀ k t l, st.run.tasks.get? k = some t → t.lease = some l →
        p.workers.contains l.workerID = true → w'.Handed pid l) ∧
    ∀ pid x, w'.pending pid = some (.saveRun x) → x.version = s.version → ∀ t ∈ x.tasks, ∀ l,
      t.lease = some l → w'.Handed pid l ∨ ∃ u, s.taskMap.get? t.taskID = some u ∧
        (u.attemptCount < t.attemptCount ∨ u.lease = some l) := by
  obtain ⟨hv₁, conducts₁, hc₁, hown₁, hlogged₁⟩ := h.conducted.reached
    (P := fun w conducts => Owning w conducts ∧ Logged w conducts) hv
    ⟨fun _ _ _ _ => trivial, fun _ _ hq => by cases hq⟩
    (fun _ _ _ _ _ hfresh hc hc' hm ih => ⟨ih.1.step hfresh hc hc' hm, ih.2.step hm⟩) hfresh hrun
  obtain ⟨-, conducts, hc, ⟨hown, hlogged⟩, hleft⟩ := hc₁.reached
    (P := fun w conducts => (Owning w conducts ∧ Logged w conducts) ∧ LeftAlone o w conducts) hv₁
    ⟨⟨hown₁, hlogged₁⟩, o.leftAlone conducts₁⟩
    (fun _ _ _ _ _ hfresh hc hc' hm ih => ⟨⟨ih.1.1.step hfresh hc hc' hm, ih.1.2.step hm⟩,
      ih.2.step ih.1.1 hc hm⟩) hfresh' hlater
  have hmem := List.mem_of_mem_head? hs
  have hchain := hc.consistent.chain
  obtain ⟨t₀, hget₀, -, hrests, -⟩ := hleft.lease s hs
  refine ⟨⟨t₀, hget₀, hrests⟩, fun pid p st hlive ht hversion => ?_, fun pid x hp hversion => ?_⟩
  · have hsafe := hc.safe pid p hlive
    rw [ht] at hsafe
    obtain ⟨hscheduling, hplan⟩ := hsafe
    obtain ⟨s₀, hstored, hst⟩ := hscheduling.current
    have heq := hchain.eq_of_version ((hc.consistent.informed pid).stored s₀ hstored) hmem
      (hst.version.trans hversion)
    subst heq
    refine ⟨fun now t l hnow hget hl => ?_, fun k t l hget hl hw => ?_⟩
    · rw [hst.tasks] at hget₀
      exact hrests.recovered hst.coherent hget₀ hnow hget hl
    · obtain ⟨worker, hworker⟩ := Option.isSome_iff_exists.mp hw
      exact hlogged.handed ((hplan.leases k t l hget hl).2 (hown pid s₀ hstored hs)
        ((hc.consistent.staffed pid p hlive).spawned _ worker hworker))
  · intro t ht l hl
    obtain ⟨p, next, hlive, hthread⟩ := World.pending_some hp
    have hsafe := hc.safe pid p hlive
    rw [hthread] at hsafe
    cases hhistory : w'.history with
    | nil =>
      rw [hhistory] at hs
      cases hs
    | cons current rest =>
      rw [hhistory] at hs
      cases hs
      obtain ⟨hstored, -⟩ := hc.saving hlive hthread hhistory hversion
      rcases hsafe.1.2 (hown pid s hstored (by rw [hhistory]; rfl)) t ht l hl with
        ⟨s₀, u, hs₀, hu, hacc⟩ | hgiven
      · cases hstored.symm.trans hs₀
        exact .inr ⟨u, hu, hacc.imp_right And.left⟩
      · exact .inl (hlogged.handed hgiven)

end

def World.spawnsFresh (w : World) : Label → Bool
  | .scheduler pid _ =>
    match w.pending pid, w.history.head? with
    | some (.spawnWorker id _), some s => s.tasks.all fun t => t.leasedTo ≠ some id
    | _, _ => true
  | _ => true

theorem World.spawnsFresh_sound {w : World} {label : Label} (h : w.spawnsFresh label = true) :
    FreshWorkers w label := by
  rintro pid choice id slot s rfl hp hs t ht
  simp only [World.spawnsFresh, hp, hs, List.all_eq_true, decide_eq_true_eq] at h
  exact h t ht

def World.allEnded (w : World) : Bool :=
  w.processes.values.all fun p => p.crashed ||
    match p.thread with
    | .finished _ => true
    | .running _ => false

def World.leaseOf (w : World) (k : TaskID) : Option TaskLease :=
  w.history.head?.bind fun s => (s.taskMap.get? k).bind TaskRun.lease

theorem exists_leftover {w : World} {k : TaskID} (h : w.allEnded = true)
    (hl : w.leaseOf k = some l) : ∃ o : Leftover, o.world = w ∧ o.taskID = k ∧ o.lease = l := by
  obtain ⟨s, hs, hl⟩ := Option.bind_eq_some_iff.mp hl
  obtain ⟨t, ht, hl⟩ := Option.bind_eq_some_iff.mp hl
  refine ⟨⟨w, fun pid p hget => ⟨p, hget, ?_⟩, s, hs, k, t, ht, l, hl⟩, rfl, rfl, rfl⟩
  have hended := List.all_eq_true.mp h p ((KeyMap.mem_values_iff _ _).mpr ⟨pid, hget⟩)
  rcases Bool.or_eq_true_iff.mp hended with hcrashed | hfinished
  · exact .inl hcrashed
  · split at hfinished
    · rename_i o ho
      exact .inr ⟨o, ho⟩
    · cases hfinished

/-- The first worker lets its lease run out and is replaced. The second one is given the next
attempt, and the call ends at a heartbeat it cannot save. -/
def secondWorkerLeft : List Label :=
  .launch 0 sampleConfig (.execute ⟨ascii "w",
      [{ sampleTask (ascii "a") with retry := ⟨2, 0, 0⟩ }]⟩) ::
    schedulerSteps 0 (executeToSelect 1) ++
    workerSteps 0 (workerIDFor sampleConfig (ascii "r") 1 1) [.start, .receive, .sendClaim] ++
    schedulerSteps 0 [.take .claim, .clock 5, .go, .go, .go, .go, .clock 20, .clock 20, .go, .go,
      .go, .go] ++
    workerSteps 0 (workerIDFor sampleConfig (ascii "r") 1 2) [.start, .receive, .sendClaim] ++
    schedulerSteps 0 [.take .claim, .clock 20, .go, .go, .go, .go, .clock 21, .clock 21,
      .take .heartbeat, .go, .go, .clock 21, .clock 21, .take .heartbeat, .clock 21,
      .fail (ascii "disk full") false, .go] ++
    ([1, 2].map fun generation => workerSteps 0 (workerIDFor sampleConfig (ascii "r") 1 generation)
      [.takeAnswer, .finish [] none, .leave]).flatten ++
    schedulerSteps 0 [.go, .go]

/-- The next call on the same engine takes a heartbeat of its first worker. -/
def nextCallBeats : List Label :=
  .launch 1 sampleConfig .recover ::
    schedulerSteps 1 [.go, .go, .go, .clocks fun _ => 21, .go, .go, .go, .clock 21, .clock 21] ++
    workerSteps 1 (workerIDFor sampleConfig (ascii "r") 1 1) [.start] ++
    schedulerSteps 1 [.take .heartbeat, .clock 25, .go]

theorem nextCallBeats_leaves_lease : ∃ (o : Leftover) (w' : World) (s : WorkflowRunSnapshot)
    (p : Process) (st : Scheduler),
    (sampleWorld (ascii "r")).run secondWorkerLeft = some o.world ∧ o.lease.expiresAt = 30 ∧
    o.world.run nextCallBeats = some w' ∧ w'.history.head? = some s ∧
    w'.history.length = o.world.history.length + 1 ∧ w'.Live 1 p ∧
    p.thread = .running (.ret (.again st)) ∧ st.run.version = s.version ∧
    (∃ t, s.taskMap.get? o.taskID = some t ∧ o.Rests t) ∧
    (∀ now t l, o.lease.expiresAt ≤ now →
      (st.run.recoverExpiredLeases now).1.tasks.get? o.taskID = some t → t.lease = some l →
      l.attemptID ≠ o.lease.attemptID) := by
  obtain ⟨w₁, hrun, hended, hlease, hmeets, hlater⟩ := run_reaches (sampleWorld (ascii "r"))
    secondWorkerLeft (fun w₁ => w₁.allEnded = true ∧
      (w₁.leaseOf (ascii "a")).map TaskLease.expiresAt = some 30 ∧
      w₁.Meets (fun w label => w.spawnsFresh label = true) nextCallBeats ∧
      (w₁.run nextCallBeats).any (fun w' => w'.history.length = w₁.history.length + 1 ∧
        (w'.between 1).bind (fun q => w'.history.head?.map fun s => (q.2.run.version, s.version)) =
          some (7, 7)) = true) (by decide +kernel)
  obtain ⟨l, hl, hexpires⟩ := Option.map_eq_some_iff.mp hlease
  obtain ⟨o, rfl, -, rfl⟩ := exists_leftover hended hl
  obtain ⟨w', hlater, hlength, hversions⟩ := run_reaches o.world nextCallBeats _ hlater
  obtain ⟨⟨config, st⟩, hbetween, hhead⟩ := Option.bind_eq_some_iff.mp hversions
  obtain ⟨s, hs, hversion⟩ := Option.map_eq_some_iff.mp hhead
  obtain ⟨hst, hs'⟩ := Prod.mk.inj hversion
  obtain ⟨p, hlive, -, ht⟩ := World.between_live hbetween
  have hfresh : (sampleWorld (ascii "r")).Meets (fun w label => w.spawnsFresh label = true)
      secondWorkerLeft := by decide +kernel
  obtain ⟨hrests, hbetween, -⟩ := leases_renewed_for_own_attempts (sampleWorld_initial _) rfl o
    (hfresh.mono fun _ _ => World.spawnsFresh_sound) hrun
    (hmeets.mono fun _ _ => World.spawnsFresh_sound) hlater hs
  have hcurrent : st.run.version = s.version := hst.trans hs'.symm
  exact ⟨o, w', s, p, st, hrun, hexpires, hlater, hs, hlength, hlive, ht, hcurrent, hrests,
    (hbetween 1 p st hlive ht hcurrent).1⟩

/-- The leases of a snapshot, with the instants at which they expire. -/
def WorkflowRunSnapshot.expiries (s : WorkflowRunSnapshot) : List (WorkerID × AttemptID × Int) :=
  s.tasks.filterMap fun t => t.lease.map fun l => (l.workerID, l.attemptID, l.expiresAt)

def Observation.handedBy (pid : Nat) : Observation → Bool
  | .handed pid' _ _ => pid' = pid
  | .published .. => false

/-- A call gives out the only task and ends at a heartbeat it cannot save. The next call on
the same engine calls its first worker what the first call called its own, and takes that
worker's heartbeat. -/
def leftoverLease : List Label :=
  firstClaim (ascii "r") [ascii "a"] ++
    schedulerSteps 0 [.clock 5, .go, .go, .go, .go, .clock 5, .clock 5, .take .heartbeat, .clock 6,
      .fail (ascii "disk full") false, .go] ++
    workerSteps 0 (workerIDFor sampleConfig (ascii "r") 1 1) [.takeAnswer, .finish [] none, .leave] ++
    schedulerSteps 0 [.go, .go] ++
    .launch 1 sampleConfig .recover ::
    schedulerSteps 1 [.go, .go, .go, .clocks fun _ => 6, .go, .go, .go, .clock 6, .clock 6] ++
    workerSteps 1 (workerIDFor sampleConfig (ascii "r") 1 1) [.start] ++
    schedulerSteps 1 [.take .heartbeat, .clock 12, .go]

theorem leftoverLease_renewed : ∃ w', (sampleWorld (ascii "r")).run leftoverLease = some w' ∧
    (w'.history.take 2).map WorkflowRunSnapshot.expiries =
      [[(workerIDFor sampleConfig (ascii "r") 1 1,
          attemptIDFor (taskRunIDFor (ascii "r") (ascii "a")) 1, 22)],
        [(workerIDFor sampleConfig (ascii "r") 1 1,
          attemptIDFor (taskRunIDFor (ascii "r") (ascii "a")) 1, 15)]] ∧
    w'.log.any (Observation.handedBy 1) = false :=
  run_reaches _ _ _ (by decide +kernel)

end ForgeFlow.Execution
