import ForgeFlow.Execution.Entry
import ForgeFlow.Execution.System

/-!
# What schedulers know of the store

The snapshots stored for a run form a chain in which attempts only grow and what is
over stays over, whoever saves. A scheduler knows a part of that chain, and the
save that brings a new attempt is made by one of them only.
-/

namespace ForgeFlow.Execution

open ForgeFlow.Base ForgeFlow.Workflow

variable {k : TaskID} {g : Ledger} {history' : List WorkflowRunSnapshot} {armed : Bool}
  {config : EngineConfig}

/-! ## The chain of snapshots -/

/-- A snapshot stored after another. -/
structure Later (old new : WorkflowRunSnapshot) : Prop where
  version : old.version < new.version
  tasks : ∀ k t, old.taskMap.get? k = some t → ∃ t', new.taskMap.get? k = some t' ∧
    t.attemptCount ≤ t'.attemptCount ∧ ∀ n, t.Past n → t'.Past n
  named : ∀ k t, new.taskMap.get? k = some t → Identified new.id k t

theorem Later.trans {a b c : WorkflowRunSnapshot} (h : Later a b) (h' : Later b c) : Later a c where
  version := h.version.trans h'.version
  tasks k t ht := by
    obtain ⟨u, hu, hle, hpast⟩ := h.tasks k t ht
    obtain ⟨v, hv, hle', hpast'⟩ := h'.tasks k u hu
    exact ⟨v, hv, hle.trans hle', fun n hn => hpast' n (hpast n hn)⟩
  named := h'.named

/-- What a scheduler saves comes after what it knew to be stored. -/
theorem Stored.later {s : WorkflowRunSnapshot} {base run : WorkflowRun} (hs : Stored s base)
    (hadv : Advances base run) :
    Later s { run.snapshot with version := run.snapshot.version + 1 } where
  version := by
    obtain ⟨-, -, hv⟩ := hadv
    rw [hs.version, ← hv]
    exact Nat.lt_succ_self _
  tasks k t ht := by
    rw [hs.tasks] at ht
    obtain ⟨t', ht', hle, hpast⟩ := hadv.keeps hs.coherent (k := k)
      (P := fun u => t.attemptCount ≤ u.attemptCount ∧ ∀ n, t.Past n → u.Past n)
      (fun _ _ _ u u' hi hm hu =>
        ⟨hu.1.trans (hm.attempts_le hi), fun n hn => hm.past hi (hu.2 n hn)⟩)
      ht ⟨le_refl _, fun _ hn => hn⟩
    refine ⟨t', ?_, hle, hpast⟩
    rw [(Stored.of_saved (hadv.coherent hs.coherent) _).tasks]
    exact ht'
  named k t ht := by
    have hc := hadv.coherent hs.coherent
    rw [(Stored.of_saved hc _).tasks] at ht
    exact hc.tasks k t ht

/-- The snapshots of a run, the last one first. -/
structure Chain (runID : RunID) (history : List WorkflowRunSnapshot) : Prop where
  id : ∀ s ∈ history, s.id = runID
  later : history.Pairwise fun new old => Later old new

section

variable {runID : RunID} {history : List WorkflowRunSnapshot} {s s' last : WorkflowRunSnapshot}
  {rest : List WorkflowRunSnapshot}

theorem Chain.head (h : Chain runID (last :: rest)) (hs : s ∈ last :: rest) :
    s = last ∨ Later s last := by
  rcases List.mem_cons.mp hs with rfl | hs
  · exact .inl rfl
  · exact .inr ((List.pairwise_cons.mp h.later).1 s hs)

/-- Two snapshots are the same or one was stored after the other. -/
theorem Chain.compare (h : Chain runID history) (hs : s ∈ history) (hs' : s' ∈ history) :
    s = s' ∨ Later s s' ∨ Later s' s := by
  obtain ⟨-, hlater⟩ := h
  induction hlater with
  | nil => cases hs
  | cons hhead _ ih =>
    rcases List.mem_cons.mp hs with rfl | hm <;> rcases List.mem_cons.mp hs' with rfl | hm'
    · exact .inl rfl
    · exact .inr (.inr (hhead s' hm'))
    · exact .inr (.inl (hhead s hm))
    · exact ih hm hm'

theorem Chain.eq_of_version (h : Chain runID history) (hs : s ∈ history) (hs' : s' ∈ history)
    (hv : s.version = s'.version) : s = s' := by
  rcases h.compare hs hs' with heq | hl | hl
  · exact heq
  · exact absurd hv hl.version.ne
  · exact absurd hv hl.version.ne'

theorem Chain.of_version_le (h : Chain runID history) (hs : s ∈ history) (hs' : s' ∈ history)
    (hv : s.version ≤ s'.version) : s = s' ∨ Later s s' := by
  rcases h.compare hs hs' with heq | hl | hl
  · exact .inl heq
  · exact .inr hl
  · exact absurd hl.version (Nat.not_lt.mpr hv)

theorem Chain.cons (h : Chain runID (last :: rest)) (hl : Later last s) (hid : s.id = runID) :
    Chain runID (s :: last :: rest) where
  id s' hs' := by
    rcases List.mem_cons.mp hs' with rfl | hs'
    · exact hid
    · exact h.id s' hs'
  later := by
    refine List.pairwise_cons.mpr ⟨fun s' hs' => ?_, h.later⟩
    rcases h.head hs' with rfl | hl'
    · exact hl
    · exact hl'.trans hl

theorem Chain.singleton (hid : s.id = runID) : Chain runID [s] :=
  ⟨fun _ hs' => by rw [List.mem_singleton.mp hs']; exact hid, List.pairwise_singleton _ _⟩

/-- The snapshot that brought attempt `n` of the task. -/
structure First (history : List WorkflowRunSnapshot) (s : WorkflowRunSnapshot) (k : TaskID)
    (n : Int) : Prop where
  mem : s ∈ history
  reached : ∃ t, s.taskMap.get? k = some t ∧ n ≤ t.attemptCount
  first : ∀ s' ∈ history, ∀ t, s'.taskMap.get? k = some t → n ≤ t.attemptCount →
    s.version ≤ s'.version

theorem First.unique {n : Int} (h : Chain runID history) (hf : First history s k n)
    (hf' : First history s' k n) : s = s' := by
  obtain ⟨t, ht, hn⟩ := hf.reached
  obtain ⟨t', ht', hn'⟩ := hf'.reached
  exact h.eq_of_version hf.mem hf'.mem
    (le_antisymm (hf.first s' hf'.mem t' ht' hn') (hf'.first s hf.mem t ht hn))

/-! ## What one scheduler knows -/

structure Informed (history : List WorkflowRunSnapshot) (g : Ledger) : Prop where
  stored : ∀ s, g.stored = some s → s ∈ history
  /-- Nothing was stored between the last save and what it replaced. -/
  previous : g.fresh → ∀ s before, g.stored = some s → g.previous = some before →
    before ∈ history ∧ ∀ s' ∈ history, s'.version < s.version → s'.version ≤ before.version

/-- A fresh ledger that counts a new attempt owns the save that brought it. -/
theorem Informed.first (h : Informed history g) (hc : Chain runID history)
    (hfresh : g.fresh) {before : WorkflowRunSnapshot} {t u : TaskRun}
    (hs : g.stored = some s) (hb : g.previous = some before) (ht : s.taskMap.get? k = some t)
    (hu : before.taskMap.get? k = some u) (hlt : u.attemptCount < t.attemptCount) :
    First history s k t.attemptCount where
  mem := h.stored s hs
  reached := ⟨t, ht, le_refl _⟩
  first s' hs' t' ht' hn := by
    by_contra hlater
    obtain ⟨hmem, hbetween⟩ := h.previous hfresh s before hs hb
    have hle := hbetween s' hs' (Nat.lt_of_not_le hlater)
    rcases hc.of_version_le hs' hmem hle with rfl | hl
    · rw [hu] at ht'
      cases ht'
      omega
    · obtain ⟨v, hv, hcount, -⟩ := hl.tasks k t' ht'
      rw [hu] at hv
      cases hv
      omega

/-- The chain grew by a snapshot newer than all others. -/
structure Grown (history history' : List WorkflowRunSnapshot) : Prop where
  mem : ∀ s ∈ history, s ∈ history'
  new : ∀ s ∈ history', s ∈ history ∨ ∀ s' ∈ history, s'.version < s.version

theorem Grown.refl (history : List WorkflowRunSnapshot) : Grown history history :=
  ⟨fun _ h => h, fun _ h => .inl h⟩

theorem Grown.trans {history'' : List WorkflowRunSnapshot} (h : Grown history history')
    (h' : Grown history' history'') : Grown history history'' where
  mem s hs := h'.mem s (h.mem s hs)
  new s hs := by
    rcases h'.new s hs with hs | hnew
    · exact h.new s hs
    · exact .inr fun s' hs' => hnew s' (h.mem s' hs')

theorem Informed.grown
    (h : Informed history g) (hg : Grown history history') : Informed history' g where
  stored s hs := hg.mem s (h.stored s hs)
  previous hfresh s before hs hb := by
    obtain ⟨hmem, hbetween⟩ := h.previous hfresh s before hs hb
    refine ⟨hg.mem before hmem, fun s' hs' hlt => ?_⟩
    rcases hg.new s' hs' with hs' | hnew
    · exact hbetween s' hs' hlt
    · exact absurd (hnew s (h.stored s hs)) (Nat.lt_asymm hlt)

theorem First.grown {n : Int}
    (h : First history s k n) (hg : Grown history history') : First history' s k n where
  mem := hg.mem s h.mem
  reached := h.reached
  first s' hs' t ht hn := by
    rcases hg.new s' hs' with hs' | hnew
    · exact h.first s' hs' t ht hn
    · exact (hnew s h.mem).le

end

/-! ## Calls and the store -/

/-- A call took effect, whatever it reported, or it failed and changed nothing. -/
theorem Choice.attempt_cases {ε α : Type} {choice : Choice} {failure : GoString → ε}
    {world world' : World} {operation : Except ε (α × World)} {result : Except ε α}
    (h : choice.attempt failure world operation = some (result, world')) :
    (∃ a, operation = .ok (a, world') ∧ ∀ b, result = .ok b → b = a) ∨
      world' = world ∧ ∃ e, result = .error e := by
  unfold Choice.attempt at h
  split at h
  · cases h
    exact .inl ⟨_, rfl, fun b hb => by cases hb; rfl⟩
  · cases h
    exact .inr ⟨rfl, _, rfl⟩
  · cases h
    exact .inl ⟨_, rfl, nofun⟩
  · cases h
    exact .inr ⟨rfl, _, rfl⟩
  · cases h

namespace World

variable {world world' : World} {snapshot stored : WorkflowRunSnapshot}

theorem checkSnapshot_ok {label : String} (h : world.checkSnapshot label snapshot = .ok ())
    (hv : world.validating = true) : snapshot.validate = .ok () := by
  rw [checkSnapshot, if_pos hv] at h
  exact mapError_ok_iff.mp h

theorem createRun_ok (h : world.createRun snapshot = .ok (stored, world')) :
    world.history = [] ∧ stored = { snapshot with version := snapshot.version + 1 } ∧
      world' = { world with history := [stored] } := by
  obtain ⟨-, h⟩ := bind_unit_ok_iff.mp h
  obtain ⟨hchecks, h⟩ := bind_unit_ok_iff.mp h
  cases h
  simp only [firstError_cons, Bool.not_eq_eq_eq_not, Bool.not_false, List.isEmpty_iff] at hchecks
  exact ⟨hchecks.1, rfl, rfl⟩

theorem saveRun_ok (h : world.saveRun snapshot = .ok (stored, world')) :
    ∃ current rest, world.history = current :: rest ∧ snapshot.version = current.version ∧
      stored = { snapshot with version := snapshot.version + 1 } ∧
      world' = { world with history := stored :: world.history } := by
  obtain ⟨-, h⟩ := bind_unit_ok_iff.mp h
  split at h
  · cases h
  · rename_i current rest hhistory
    split at h
    · cases h
    · rename_i hversion
      cases h
      exact ⟨current, rest, hhistory, not_not.mp hversion, rfl, rfl⟩

theorem saveWorkflow_ok {d : WorkflowDefinition} {u : Unit}
    (h : world.saveWorkflow d = .ok (u, world')) :
    world' = { world with workflows := world'.workflows } := by
  unfold saveWorkflow at h
  split at h
  · split at h
    · cases h
      rfl
    · cases h
  · cases h
    rfl

theorem whileLive_ok {α : Type} {process : Process} {value a : α}
    (h : world.whileLive process value = .ok (a, world')) : a = value ∧ world' = world := by
  unfold whileLive at h
  split at h
  · cases h
  · cases h
    exact ⟨rfl, rfl⟩

theorem publish_ok {pid : Nat} {process : Process} {message : TaskMessage} {u : Unit}
    (h : world.publish pid process message = .ok (u, world')) :
    world' = { world with
      broker := world'.broker
      log := .published pid message :: world.log } := by
  unfold publish at h
  split at h
  · cases h
  · obtain ⟨broker, -, heq⟩ := map_eq_ok.mp h
    cases heq
    rfl

end World

/-- The snapshot as the store keeps it. -/
def WorkflowRunSnapshot.next (s : WorkflowRunSnapshot) : WorkflowRunSnapshot :=
  { s with version := s.version + 1 }

/-- Validation does not look at the version. -/
theorem WorkflowRunSnapshot.validate_next {s : WorkflowRunSnapshot} (h : s.validate = .ok ()) :
    s.next.validate = .ok () := by
  have hv := (validate_ok_iff s).mp h
  exact (validate_ok_iff _).mpr ⟨hv.id, hv.workflowID, hv.status, hv.created, hv.updated, hv.tasks,
    hv.taskRuns, hv.taskIDs, hv.oneLease, hv.workers, hv.workerIDs, hv.leasedWorkers, hv.aggregate⟩

section

variable {choice : Choice} {pid : Nat} {p p' : Process} {w w' : World} {c : EngineCall}
  {r : EngineResult c}

theorem attempt_map {ε α : Type} {failure : GoString → ε} {operation : Except ε (α × World)}
    {result : Except ε α}
    (h : (choice.attempt failure w operation).map (fun r => (r.1, p, r.2)) = some (result, p', w')) :
    
    
    p' = p ∧ choice.attempt failure w operation = some (result, w') := by
  obtain ⟨⟨result', w''⟩, hattempt, heq⟩ := Option.map_eq_some_iff.mp h
  cases heq
  exact ⟨rfl, hattempt⟩

/-- A `select` answers with an event it took. -/
theorem answer_select {event : SchedulerEvent}
    (h : answer choice pid p w (.select armed) = some (event, p', w')) :
    ∃ source, choice = .take source ∧ p.take armed source = some (event, p') ∧ w' = w := by
  cases choice with
  | take source =>
    obtain ⟨⟨event', p''⟩, htake, heq⟩ := Option.map_eq_some_iff.mp h
    cases heq
    exact ⟨source, rfl, htake, rfl⟩
  | go => cases h
  | clock _ => cases h
  | clocks _ => cases h
  | fail _ _ => cases h

/-- What a call can do to the process that makes it and to the world. -/
theorem answer_cases (h : answer choice pid p w c = some (r, p', w')) :
    (p' = p ∧ w' = { w with workflows := w'.workflows, broker := w'.broker } ∧
      (w'.workflows = w.workflows ∨ ∃ d, c = .saveWorkflow d ∧ w.saveWorkflow d = .ok ((), w'))) ∨
    (∃ s, c = .createRun s ∧ p' = p ∧ w.history = [] ∧ w' = { w with history := [s.next] }) ∨
    (∃ s current rest, c = .saveRun s ∧ p' = p ∧ w.history = current :: rest ∧
      s.version = current.version ∧ w' = { w with history := s.next :: w.history }) ∨
    (∃ m, c = .publish m ∧ p' = p ∧
      w' = { w with broker := w'.broker, log := .published pid m :: w.log }) ∨
    (∃ claim job, c = .respond claim job ∧
      p' = p.mapWorker claim.workerID (fun worker => worker.answer claim job) ∧
      w' = match job with
        | some job => { w with log := .handed pid claim job :: w.log }
        | none => w) ∨
    (∃ id slot, c = .spawnWorker id slot ∧ w' = w ∧
      p' = { p with workers := p.workers.insert id { slot := slot } }) ∨
    (∃ id, c = .cancelWorker id ∧ w' = w ∧
      p' = p.mapWorker id fun worker => { worker with canceled := true }) ∨
    (c = .cancelWorkers ∧ w' = w ∧ p' = { p with workersCanceled := true }) ∨
    ∃ armed source event, c = .select armed ∧ w' = w ∧ p.take armed source = some (event, p') := by
  have hsame : p' = p → w' = w →
      p' = p ∧ w' = { w with workflows := w'.workflows, broker := w'.broker } ∧
      (w'.workflows = w.workflows ∨
        ∃ d, c = .saveWorkflow d ∧ w.saveWorkflow d = .ok ((), w')) := by
    rintro rfl rfl
    exact ⟨rfl, rfl, .inl rfl⟩
  cases c with
  | now =>
    cases choice <;> cases h
    exact .inl (hsame rfl rfl)
  | nows =>
    cases choice <;> cases h
    exact .inl (hsame rfl rfl)
  | contextErr =>
    cases h
    exact .inl (hsame rfl rfl)
  | saveWorkflow d =>
    obtain ⟨hp, ha⟩ := attempt_map h
    refine .inl ?_
    rcases Choice.attempt_cases ha with ⟨_, hok, -⟩ | ⟨hw, -⟩
    · refine ⟨hp, ?_, .inr ⟨d, rfl, hok⟩⟩
      have hw := World.saveWorkflow_ok hok
      have hbroker : w'.broker = w.broker := by rw [hw]
      rw [hbroker]
      exact hw
    · exact hsame hp hw
  | createRun s =>
    obtain ⟨hp, ha⟩ := attempt_map h
    rcases Choice.attempt_cases ha with ⟨_, hok, -⟩ | ⟨hw, -⟩
    · obtain ⟨hnil, rfl, hw⟩ := World.createRun_ok hok
      exact .inr (.inl ⟨s, rfl, hp, hnil, hw⟩)
    · exact .inl (hsame hp hw)
  | saveRun s =>
    obtain ⟨hp, ha⟩ := attempt_map h
    rcases Choice.attempt_cases ha with ⟨_, hok, -⟩ | ⟨hw, -⟩
    · obtain ⟨current, rest, hhistory, hv, rfl, hw⟩ := World.saveRun_ok hok
      exact .inr (.inr (.inl ⟨s, current, rest, rfl, hp, hhistory, hv, hw⟩))
    · exact .inl (hsame hp hw)
  | loadRun _ =>
    obtain ⟨hp, ha⟩ := attempt_map h
    rcases Choice.attempt_cases ha with ⟨_, hok, -⟩ | ⟨hw, -⟩
    · exact .inl (hsame hp (World.whileLive_ok hok).2)
    · exact .inl (hsame hp hw)
  | loadWorkflow _ =>
    obtain ⟨hp, ha⟩ := attempt_map h
    rcases Choice.attempt_cases ha with ⟨_, hok, -⟩ | ⟨hw, -⟩
    · exact .inl (hsame hp (World.whileLive_ok hok).2)
    · exact .inl (hsame hp hw)
  | publish m =>
    obtain ⟨hp, ha⟩ := attempt_map h
    rcases Choice.attempt_cases ha with ⟨_, hok, -⟩ | ⟨hw, -⟩
    · exact .inr (.inr (.inr (.inl ⟨m, rfl, hp, World.publish_ok hok⟩)))
    · exact .inl (hsame hp hw)
  | ack d =>
    obtain ⟨hp, ha⟩ := attempt_map h
    rcases Choice.attempt_cases ha with ⟨_, hok, -⟩ | ⟨hw, -⟩
    · obtain ⟨broker, -, heq⟩ := map_eq_ok.mp hok
      cases heq
      exact .inl ⟨hp, rfl, .inl rfl⟩
    · exact .inl (hsame hp hw)
  | nack d =>
    obtain ⟨hp, ha⟩ := attempt_map h
    rcases Choice.attempt_cases ha with ⟨_, hok, -⟩ | ⟨hw, -⟩
    · obtain ⟨broker, -, heq⟩ := map_eq_ok.mp hok
      cases heq
      exact .inl ⟨hp, rfl, .inl rfl⟩
    · exact .inl (hsame hp hw)
  | progress d =>
    obtain ⟨hp, ha⟩ := attempt_map h
    rcases Choice.attempt_cases ha with ⟨_, hok, -⟩ | ⟨hw, -⟩
    · obtain ⟨_, -, heq⟩ := map_eq_ok.mp hok
      cases heq
      exact .inl ⟨hp, rfl, .inl rfl⟩
    · exact .inl (hsame hp hw)
  | spawnWorker id slot =>
    cases h
    exact .inr (.inr (.inr (.inr (.inr (.inl ⟨id, slot, rfl, rfl, rfl⟩)))))
  | cancelWorker id =>
    cases h
    exact .inr (.inr (.inr (.inr (.inr (.inr (.inl ⟨id, rfl, rfl, rfl⟩))))))
  | cancelWorkers =>
    cases h
    exact .inr (.inr (.inr (.inr (.inr (.inr (.inr (.inl ⟨rfl, rfl, rfl⟩)))))))
  | waitWorkers =>
    simp only [answer] at h
    split at h <;> cases h
    exact .inl (hsame rfl rfl)
  | respond claim job =>
    cases h
    exact .inr (.inr (.inr (.inr (.inl ⟨claim, job, rfl, rfl, rfl⟩))))
  | select armed =>
    obtain ⟨source, -, htake, hw⟩ := answer_select h
    exact .inr (.inr (.inr (.inr (.inr (.inr (.inr (.inr ⟨armed, source, r, rfl, hw, htake⟩)))))))

/-- What `select` takes, and from which channel. -/
theorem take_cases {source : EventSource} {event : SchedulerEvent}
    (h : p.take armed source = some (event, p')) :
    (∃ claim rest, event = .claim claim ∧ p.claimEvents = claim :: rest ∧
      p' = { p with claimEvents := rest }) ∨
    (∃ id rest, event = .heartbeat id ∧ p.heartbeatEvents = id :: rest ∧
      p' = { p with heartbeatEvents := rest }) ∨
    (∃ id slot rest, event = .lost id slot ∧ p.lostEvents = (id, slot) :: rest ∧
      p' = { p with lostEvents := rest }) ∨
    (∃ id slot err rest, event = .brokerError id slot err ∧
      p.brokerErrors = (id, slot, err) :: rest ∧ p' = { p with brokerErrors := rest }) ∨
    (∃ result rest, event = .result result ∧ p.resultEvents = result :: rest ∧
      p' = { p with resultEvents := rest }) ∨
    (event = .timer ∨ ∃ err, event = .done err ∧ p.canceled = true) ∧ p' = p := by
  cases source with
  | claim =>
    simp only [Process.take] at h
    split at h
    · cases h
    · rename_i claim rest hevents
      cases h
      exact .inl ⟨claim, rest, rfl, hevents, rfl⟩
  | heartbeat =>
    simp only [Process.take] at h
    split at h
    · cases h
    · rename_i id rest hevents
      cases h
      exact .inr (.inl ⟨id, rest, rfl, hevents, rfl⟩)
  | lost =>
    simp only [Process.take] at h
    split at h
    · cases h
    · rename_i id slot rest hevents
      cases h
      exact .inr (.inr (.inl ⟨id, slot, rest, rfl, hevents, rfl⟩))
  | brokerError =>
    simp only [Process.take] at h
    split at h
    · cases h
    · rename_i id slot err rest hevents
      cases h
      exact .inr (.inr (.inr (.inl ⟨id, slot, err, rest, rfl, hevents, rfl⟩)))
  | result =>
    simp only [Process.take] at h
    split at h
    · cases h
    · rename_i result rest hevents
      cases h
      exact .inr (.inr (.inr (.inr (.inl ⟨result, rest, rfl, hevents, rfl⟩))))
  | timer =>
    simp only [Process.take] at h
    split at h <;> cases h
    exact .inr (.inr (.inr (.inr (.inr ⟨.inl rfl, rfl⟩))))
  | done =>
    simp only [Process.take] at h
    split at h <;> cases h
    rename_i hcanceled
    exact .inr (.inr (.inr (.inr (.inr ⟨.inr ⟨_, rfl, hcanceled⟩, rfl⟩))))

theorem take_claim {source : EventSource} {claim : WorkerClaim}
    (h : p.take armed source = some (.claim claim, p')) : source = .claim := by
  cases source <;> simp only [Process.take] at h <;> split at h <;> cases h
  rfl

/-- Results come from the store and from the channels as the contract expects. -/
theorem answer_expects (hchain : Chain w.runID w.history)
    (hresults : ∀ r ∈ p.resultEvents, ∃ q ∈ g.jobs, r = taskResult q.1 q.2 r.output r.err)
    (h : answer choice pid p w c = some (r, p', w')) : g.expects w.runID c r := by
  cases c with
  | createRun s =>
    rcases Choice.attempt_cases (attempt_map h).2 with ⟨a, hok, hr⟩ | ⟨-, e, rfl⟩
    · obtain ⟨-, rfl, -⟩ := World.createRun_ok hok
      rcases r with e | stored
      · trivial
      · exact hr stored rfl
    · trivial
  | saveRun s =>
    rcases Choice.attempt_cases (attempt_map h).2 with ⟨a, hok, hr⟩ | ⟨-, e, rfl⟩
    · obtain ⟨-, -, -, -, rfl, -⟩ := World.saveRun_ok hok
      rcases r with e | stored
      · trivial
      · exact hr stored rfl
    · trivial
  | loadRun id =>
    rcases Choice.attempt_cases (attempt_map h).2 with ⟨a, hok, hr⟩ | ⟨-, e, rfl⟩
    · obtain ⟨rfl, -⟩ := World.whileLive_ok hok
      rcases r with e | _ | s
      · trivial
      · trivial
      · exact hchain.id s (List.mem_of_mem_head? (hr (some s) rfl).symm)
    · trivial
  | select armed =>
    obtain ⟨source, -, htake, -⟩ := answer_select h
    rcases take_cases htake with ⟨_, _, rfl, -⟩ | ⟨_, _, rfl, -⟩ | ⟨_, _, _, rfl, -⟩ |
      ⟨_, _, _, _, rfl, -⟩ | ⟨result, rest, rfl, hevents, -⟩ | ⟨rfl | ⟨_, rfl, -⟩, -⟩
    · trivial
    · trivial
    · trivial
    · trivial
    · exact hresults result (by rw [hevents]; exact List.mem_cons_self)
    · trivial
    · trivial
  | _ => trivial

/-- The calls that tell a scheduler what is stored. -/
def EngineCall.storing : EngineCall → Bool
  | .createRun _ | .saveRun _ | .loadRun _ => true
  | _ => false

theorem note_kept (config : EngineConfig) (runID : RunID) (g : Ledger) (hc : c.storing = false) :
    (g.note config runID c r).stored = g.stored ∧
      (g.note config runID c r).previous = g.previous ∧
      ((g.note config runID c r).fresh → g.fresh) := by
  cases c with
  | createRun s => cases hc
  | saveRun s => cases hc
  | loadRun id => cases hc
  | loadWorkflow _ => rcases r with _ | _ | _ <;> exact ⟨rfl, rfl, id⟩
  | saveWorkflow d => rcases r with _ | _ <;> exact ⟨rfl, rfl, id⟩
  | publish m => rcases r with _ | _ <;> exact ⟨rfl, rfl, id⟩
  | ack d => rcases r with _ | _ <;> exact ⟨rfl, rfl, id⟩
  | nack d => rcases r with (_ | _) | _ <;> exact ⟨rfl, rfl, id⟩
  | progress d => rcases r with _ | _ <;> exact ⟨rfl, rfl, id⟩
  | respond claim job =>
    cases job with
    | none => exact ⟨rfl, rfl, id⟩
    | some job => exact ⟨rfl, rfl, False.elim⟩
  | select armed => cases r <;> exact ⟨rfl, rfl, id⟩
  | _ => exact ⟨rfl, rfl, id⟩

/-- A call stores nothing, creates the run, or replaces the last snapshot. -/
theorem answer_stores (h : answer choice pid p w c = some (r, p', w')) :
    w'.history = w.history ∨ (∃ s, c = .createRun s ∧ w.history = [] ∧ w'.history = [s.next]) ∨
      ∃ s current rest, c = .saveRun s ∧ w.history = current :: rest ∧
        s.version = current.version ∧ w'.history = s.next :: w.history := by
  rcases answer_cases h with ⟨-, hw, -⟩ | ⟨s, rfl, -, hnil, rfl⟩ |
    ⟨s, current, rest, rfl, -, hhistory, hv, rfl⟩ | ⟨m, -, -, hw⟩ | ⟨claim, job, -, -, hw⟩ |
    ⟨-, -, -, rfl, -⟩ | ⟨-, -, rfl, -⟩ | ⟨-, rfl, -⟩ | ⟨-, -, -, -, rfl, -⟩
  · rw [hw]
    exact .inl rfl
  · exact .inr (.inl ⟨s, rfl, hnil, rfl⟩)
  · exact .inr (.inr ⟨s, current, rest, rfl, hhistory, hv, rfl⟩)
  · rw [hw]
    exact .inl rfl
  · cases job <;> rw [hw] <;> exact .inl rfl
  all_goals exact .inl rfl

theorem answer_history (hc : c.storing = false) (h : answer choice pid p w c = some (r, p', w')) :
    w'.history = w.history := by
  rcases answer_stores h with hsame | ⟨_, rfl, -⟩ | ⟨_, _, _, rfl, -⟩
  · exact hsame
  · cases hc
  · cases hc

/-- A snapshot is saved under the version of the one it was made from. -/
theorem needs_version {runID : RunID}
    {s x : WorkflowRunSnapshot} (h : g.needs config runID (.saveRun x))
    (hs : g.stored = some s) : x.version = s.version := by
  obtain ⟨s₀, base, run, hs₀, hst, ⟨-, -, hversion⟩, rfl, -⟩ := h
  rw [hs] at hs₀
  cases hs₀
  exact hversion.trans hst.version.symm

/-- A save by a scheduler that knows what is stored continues the chain. -/
theorem Chain.saved {s current : WorkflowRunSnapshot}
    {rest : List WorkflowRunSnapshot} (hchain : Chain w.runID (current :: rest))
    (hinf : Informed (current :: rest) g) (hneeds : g.needs config w.runID (.saveRun s))
    (hv : s.version = current.version) :
    g.stored = some current ∧ Later current s.next ∧
      Chain w.runID (s.next :: current :: rest) := by
  have hversion : ∀ s₀, g.stored = some s₀ → s.version = s₀.version := fun _ => needs_version hneeds
  obtain ⟨s₀, base, run, hs₀, hst, hadv, rfl, -⟩ := hneeds
  have hcurrent : s₀ = current := hchain.eq_of_version (hinf.stored s₀ hs₀) List.mem_cons_self
    ((hversion s₀ hs₀).symm.trans hv)
  subst hcurrent
  have hid : run.snapshot.next.id = w.runID := by
    show run.id = w.runID
    rw [hadv.id hst.coherent, ← hst.id]
    exact hchain.id s₀ List.mem_cons_self
  exact ⟨hs₀, hst.later hadv, hchain.cons (hst.later hadv) hid⟩

theorem Grown.cons {runID : RunID} {s last : WorkflowRunSnapshot} {rest : List WorkflowRunSnapshot}
    (h : Chain runID (last :: rest)) (hl : Later last s) :
    Grown (last :: rest) (s :: last :: rest) where
  mem _ hs := List.mem_cons_of_mem _ hs
  new s' hs' := by
    rcases List.mem_cons.mp hs' with rfl | hs'
    · refine .inr fun s'' hs'' => ?_
      rcases h.head hs'' with rfl | hl'
      · exact hl.version
      · exact hl'.version.trans hl.version
    · exact .inl hs'

/-- What a call does to the chain and to the knowledge of the scheduler that makes it. -/
structure Learned (history history' : List WorkflowRunSnapshot) (runID : RunID) (g g' : Ledger) :
    Prop where
  chain : Chain runID history'
  grown : Grown history history'
  informed : Informed history' g'
  /-- A fresh ledger was fresh with the same snapshot, or has just saved a new one. -/
  fresh : g'.fresh → g.fresh ∧ g'.stored = g.stored ∨ ∃ s, g'.stored = some s ∧ s ∉ history

/-- A call that failed taught the scheduler nothing. -/
theorem Learned.failed {history : List WorkflowRunSnapshot} {runID : RunID}
    (hchain : Chain runID history') (hgrown : Grown history history')
    (hinf : Informed history g) : Learned history history' runID g g.failed :=
  ⟨hchain, hgrown, ⟨(hinf.grown hgrown).stored, (hinf.grown hgrown).previous⟩,
    fun hf => .inl ⟨hf, rfl⟩⟩

theorem answer_learned (hchain : Chain w.runID w.history)
    (hinf : Informed w.history g) (hneeds : g.needs config w.runID c)
    (h : answer choice pid p w c = some (r, p', w')) :
    Learned w.history w'.history w.runID g (g.note config w.runID c r) := by
  by_cases hc : c.storing = false
  · obtain ⟨hstored, hprevious, hfresh⟩ := note_kept (r := r) config w.runID g hc
    rw [answer_history hc h]
    refine ⟨hchain, .refl _, ⟨?_, fun hf => ?_⟩, fun hf => .inl ⟨hfresh hf, hstored⟩⟩
    · rw [hstored]
      exact hinf.stored
    · rw [hstored, hprevious]
      exact hinf.previous (hfresh hf)
  · cases c with
    | createRun s =>
      rcases Choice.attempt_cases (attempt_map h).2 with ⟨a, hok, hr⟩ | ⟨rfl, e, rfl⟩
      · obtain ⟨hnil, rfl, rfl⟩ := World.createRun_ok hok
        have hid : s.next.id = w.runID := by
          obtain ⟨run, rfl, -, hid, -⟩ := hneeds
          exact hid
        rw [hnil] at hchain hinf ⊢
        have hgrown : Grown [] [s.next] := ⟨nofun, fun _ _ => .inr nofun⟩
        rcases r with e | stored
        · exact .failed (.singleton hid) hgrown hinf
        · cases hr stored rfl
          exact ⟨.singleton hid, hgrown, ⟨fun s' hs' => by cases hs'; exact List.mem_cons_self,
            False.elim⟩, False.elim⟩
      · exact .failed hchain (.refl _) hinf
    | saveRun s =>
      rcases Choice.attempt_cases (attempt_map h).2 with ⟨a, hok, hr⟩ | ⟨rfl, e, rfl⟩
      · obtain ⟨current, rest, hhistory, hv, rfl, rfl⟩ := World.saveRun_ok hok
        rw [hhistory] at hchain hinf ⊢
        obtain ⟨hcurrent, hlater, hchain'⟩ := hchain.saved hinf hneeds hv
        have hgrown := Grown.cons hchain hlater
        rcases r with e | stored
        · exact .failed hchain' hgrown hinf
        · cases hr stored rfl
          refine ⟨hchain', hgrown, ⟨fun s' hs' => by cases hs'; exact List.mem_cons_self,
            fun _ s' before hs' hb => ?_⟩, fun _ => .inr ⟨_, rfl, fun hmem => ?_⟩⟩
          · cases hs'
            have hb : g.stored = some before := hb
            rw [hcurrent] at hb
            cases hb
            refine ⟨List.mem_cons_of_mem _ List.mem_cons_self, fun s' hs' hlt => ?_⟩
            rcases List.mem_cons.mp hs' with rfl | hs'
            · exact absurd hlt (lt_irrefl _)
            · rcases hchain.head hs' with rfl | hl
              · exact le_refl _
              · exact hl.version.le
          · rcases hchain.head hmem with heq | hl
            · exact absurd (congrArg WorkflowRunSnapshot.version heq) hlater.version.ne'
            · exact absurd hlater.version (Nat.lt_asymm hl.version)
      · exact .failed hchain (.refl _) hinf
    | loadRun id =>
      rcases Choice.attempt_cases (attempt_map h).2 with ⟨a, hok, hr⟩ | ⟨rfl, e, rfl⟩
      · obtain ⟨rfl, rfl⟩ := World.whileLive_ok hok
        rcases r with e | _ | s
        · exact .failed hchain (.refl _) hinf
        · exact .failed hchain (.refl _) hinf
        · have hs := List.mem_of_mem_head? (hr (some s) rfl).symm
          exact ⟨hchain, .refl _, ⟨fun s' hs' => by cases hs'; exact hs, False.elim⟩, False.elim⟩
      · exact .failed hchain (.refl _) hinf
    | _ => exact absurd rfl hc

end

end ForgeFlow.Execution
