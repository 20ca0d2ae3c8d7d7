import ForgeFlow.Execution.Interleaving

/-!
# The workers of a scheduler

Where the claims, jobs and results of the workers are while they pass between the
workers and their scheduler. A worker has at most one claim under way, and a job
it was given is in its hands until its result is in the channel.
-/

namespace ForgeFlow.Execution

open ForgeFlow.Base ForgeFlow.Workflow

/-- The claim a worker has sent and not done with. -/
def WorkerPhase.claim? : WorkerPhase → Option WorkerClaim
  | .waiting claim | .answered claim _ | .executing claim _ => some claim
  | _ => none

def WorkerPhase.job? : WorkerPhase → Option (WorkerClaim × TaskJob)
  | .answered claim (some job) | .executing claim job => some (claim, job)
  | _ => none

/-- The job of the attempt is in the hands of the worker, or lost with it. -/
def WorkerPhase.Holds (attemptID : AttemptID) : WorkerPhase → Prop
  | .answered _ (some job) | .executing _ job => job.request.attemptID = attemptID
  | .reporting result => result.attemptID = attemptID
  | .disappeared | .exited => True
  | _ => False

/-- The worker waits for the answer to the claim, or left. -/
def WorkerPhase.Awaits (claim : WorkerClaim) (phase : WorkerPhase) : Prop :=
  phase = .waiting claim ∨ phase = .exited

/-- The result is of a job that was given out. -/
def Ledger.Reported (g : Ledger) (r : BrokerTaskResult) : Prop :=
  ∃ q ∈ g.jobs, r = taskResult q.1 q.2 r.output r.err

structure WorkerSound (g : Ledger) (id : WorkerID) (phase : WorkerPhase) : Prop where
  named : ∀ c, phase.claim? = some c → c.workerID = id
  jobs : ∀ q, phase.job? = some q → q ∈ g.jobs
  reports : ∀ r, phase = .reporting r → r.workerID = id ∧ g.Reported r

/-- Workers with the claims and results that wait in the channels. -/
structure Staffed (g : Ledger) (workers : KeyMap WorkerID Worker) (claims : List WorkerClaim)
    (results : List BrokerTaskResult) : Prop where
  spawned : ∀ id worker, workers.get? id = some worker → id ∈ g.spawned
  sound : ∀ id worker, workers.get? id = some worker → WorkerSound g id worker.phase
  reported : ∀ r ∈ results, g.Reported r
  awaited : ∀ c ∈ claims, ∃ worker, workers.get? c.workerID = some worker ∧ worker.phase.Awaits c
  distinct : (claims.map WorkerClaim.workerID).Nodup
  asked : ∀ c, g.claim = some c → (∃ worker, workers.get? c.workerID = some worker ∧
    worker.phase.Awaits c) ∧ ∀ c' ∈ claims, c'.workerID ≠ c.workerID
  untaken : ∀ c ∈ claims, c ∉ g.taken
  numbered : ∀ c, c ∈ g.taken ∨ c ∈ claims → ∃ worker, workers.get? c.workerID = some worker ∧
    c.response < worker.claims
  accounted : ∀ id a, (id, a) ∈ g.outstanding →
    (∃ r ∈ results, r.workerID = id ∧ r.attemptID = a) ∨
      (∃ worker, workers.get? id = some worker ∧ worker.phase.Holds a) ∧
        ∀ c ∈ claims, c.workerID ≠ id

section

variable {g g' : Ledger} {workers : KeyMap WorkerID Worker} {claims : List WorkerClaim}
  {results : List BrokerTaskResult} {id : WorkerID} {worker worker' : Worker}

theorem WorkerSound.mono {phase : WorkerPhase} (h : WorkerSound g id phase)
    (hjobs : g.jobs ⊆ g'.jobs) : WorkerSound g' id phase where
  named := h.named
  jobs q hq := hjobs (h.jobs q hq)
  reports r hr := by
    obtain ⟨hid, q, hq, heq⟩ := h.reports r hr
    exact ⟨hid, q, hjobs hq, heq⟩

/-- The same workers and channels under a ledger that knows more of the past and
asks less of the present. -/
theorem Staffed.ledger (h : Staffed g workers claims results) (hspawned : g.spawned ⊆ g'.spawned)
    (hjobs : g.jobs ⊆ g'.jobs) (hclaim : ∀ c, g'.claim = some c → g.claim = some c)
    (htaken : g'.taken ⊆ g.taken) (hout : g'.outstanding ⊆ g.outstanding) :
    Staffed g' workers claims results where
  spawned id worker hw := hspawned (h.spawned id worker hw)
  sound id worker hw := (h.sound id worker hw).mono hjobs
  reported r hr := by
    obtain ⟨q, hq, heq⟩ := h.reported r hr
    exact ⟨q, hjobs hq, heq⟩
  awaited := h.awaited
  distinct := h.distinct
  asked c hc := h.asked c (hclaim c hc)
  untaken c hc hmem := h.untaken c hc (htaken hmem)
  numbered c hc := h.numbered c (hc.imp (fun hm => htaken hm) id)
  accounted id a ha := h.accounted id a (hout ha)

/-- What a lookup finds after one worker was replaced by a later state of it. -/
theorem get?_later {P : Worker → Prop} (hw : workers.get? id = some worker) {k : WorkerID}
    (hlater : k = id → P worker → P worker') (h : ∃ u, workers.get? k = some u ∧ P u) :
    ∃ u, (workers.insert id worker').get? k = some u ∧ P u := by
  obtain ⟨u, hu, hP⟩ := h
  by_cases hk : k = id
  · subst hk
    rw [hw] at hu
    cases hu
    exact ⟨worker', KeyMap.get?_insert_self _ _ _, hlater rfl hP⟩
  · exact ⟨u, by rw [KeyMap.get?_insert_ne _ _ hk]; exact hu, hP⟩

/-- A worker went on without touching the channels. -/
theorem Staffed.rephase (h : Staffed g workers claims results) (worker' : Worker)
    (hw : workers.get? id = some worker) (hsound : WorkerSound g id worker'.phase)
    (hclaims : worker.claims ≤ worker'.claims)
    (hawaits : ∀ c, c ∈ claims ∨ g.claim = some c → c.workerID = id → worker.phase.Awaits c →
      worker'.phase.Awaits c)
    (hholds : ∀ a, worker.phase.Holds a → worker'.phase.Holds a) :
    Staffed g (workers.insert id worker') claims results where
  spawned k u hu := by
    rcases KeyMap.get?_insert_cases hu with ⟨rfl, -⟩ | ⟨-, hu⟩
    · exact h.spawned _ worker hw
    · exact h.spawned k u hu
  sound k u hu := by
    rcases KeyMap.get?_insert_cases hu with ⟨rfl, rfl⟩ | ⟨-, hu⟩
    · exact hsound
    · exact h.sound k u hu
  reported := h.reported
  awaited c hc := get?_later hw (hawaits c (.inl hc)) (h.awaited c hc)
  distinct := h.distinct
  asked c hc := ⟨get?_later hw (hawaits c (.inr hc)) (h.asked c hc).1, (h.asked c hc).2⟩
  untaken := h.untaken
  numbered c hc := get?_later hw (fun _ hlt => hlt.trans_le hclaims) (h.numbered c hc)
  accounted k a ha := by
    rcases h.accounted k a ha with hr | ⟨hh, hc⟩
    · exact .inl hr
    · exact .inr ⟨get?_later hw (fun _ => hholds a) hh, hc⟩

/-- A worker sends a claim. -/
theorem Staffed.sendClaim (h : Staffed g workers claims results)
    (hw : workers.get? id = some worker) {d : Delivery} (hphase : worker.phase = .claiming d)
    (slot : Nat) :
    Staffed g (workers.insert id { worker with
        phase := .waiting ⟨id, slot, d, worker.claims⟩
        claims := worker.claims + 1 })
      (claims ++ [⟨id, slot, d, worker.claims⟩]) results := by
  -- the worker has no claim under way: it would wait for its answer
  have hnot : ∀ c, worker.phase.Awaits c → False := by
    intro c hc
    rw [hphase] at hc
    rcases hc with hc | hc <;> cases hc
  have hidle : ∀ c, (∃ u, workers.get? c.workerID = some u ∧ u.phase.Awaits c) →
      c.workerID ≠ id := by
    rintro c ⟨u, hu, ha⟩ heq
    rw [heq, hw] at hu
    cases hu
    exact hnot c ha
  have hnone : ∀ c ∈ claims, c.workerID ≠ id := fun c hc => hidle c (h.awaited c hc)
  have hempty : ∀ a, worker.phase.Holds a → False := by
    intro a ha
    rw [hphase] at ha
    exact ha
  have hbase := h.rephase { worker with
      phase := .waiting ⟨id, slot, d, worker.claims⟩
      claims := worker.claims + 1 } hw
    ⟨fun c hc => by cases hc; rfl, nofun, nofun⟩ (Nat.le_succ _) (fun c _ _ hc => (hnot c hc).elim)
    (fun a ha => (hempty a ha).elim)
  refine ⟨hbase.spawned, hbase.sound, hbase.reported, fun c hc => ?_, ?_, fun c hc => ?_,
    fun c hc hmem => ?_, fun c hc => ?_, fun k a ha => ?_⟩
  · rcases List.mem_append.mp hc with hc | hc
    · exact hbase.awaited c hc
    · rw [List.mem_singleton.mp hc]
      exact ⟨_, KeyMap.get?_insert_self _ _ _, .inl rfl⟩
  · rw [List.map_append, List.nodup_append]
    refine ⟨hbase.distinct, List.nodup_singleton _, fun x hx y hy => ?_⟩
    obtain ⟨c, hc, rfl⟩ := List.mem_map.mp hx
    rw [List.mem_singleton.mp hy]
    exact hnone c hc
  · refine ⟨(hbase.asked c hc).1, fun c' hc' => ?_⟩
    rcases List.mem_append.mp hc' with hc' | hc'
    · exact (hbase.asked c hc).2 c' hc'
    · rw [List.mem_singleton.mp hc']
      exact (hidle c (h.asked c hc).1).symm
  · rcases List.mem_append.mp hc with hc | hc
    · exact hbase.untaken c hc hmem
    · obtain ⟨u, hu, hlt⟩ := h.numbered c (.inl hmem)
      rw [List.mem_singleton.mp hc] at hu hlt
      rw [hw] at hu
      cases hu
      exact lt_irrefl _ hlt
  · rw [List.mem_append, ← or_assoc] at hc
    rcases hc with hc | hc
    · exact hbase.numbered c hc
    · rw [List.mem_singleton.mp hc]
      exact ⟨_, KeyMap.get?_insert_self _ _ _, Nat.lt_succ_self _⟩
  · rcases h.accounted k a ha with hr | ⟨⟨u, hu, hh⟩, hc⟩
    · exact .inl hr
    · have hk : k ≠ id := by
        rintro rfl
        rw [hw] at hu
        cases hu
        exact hempty a hh
      refine .inr ⟨⟨u, by rw [KeyMap.get?_insert_ne _ _ hk]; exact hu, hh⟩, fun c hc' => ?_⟩
      rcases List.mem_append.mp hc' with hc' | hc'
      · exact hc c hc'
      · rw [List.mem_singleton.mp hc']
        exact hk.symm

/-- A worker puts its result into the channel. -/
theorem Staffed.sendResult (h : Staffed g workers claims results)
    (hw : workers.get? id = some worker) {r : BrokerTaskResult}
    (hphase : worker.phase = .reporting r) :
    Staffed g (workers.insert id { worker with phase := .receiving }) claims (results ++ [r]) := by
  obtain ⟨hid, hreported⟩ := (h.sound id worker hw).reports r hphase
  have hnot : ∀ c, worker.phase.Awaits c → False := by
    intro c hc
    rw [hphase] at hc
    rcases hc with hc | hc <;> cases hc
  refine ⟨fun k u hu => ?_, fun k u hu => ?_, fun r' hr' => ?_,
    fun c hc => get?_later hw (fun _ ha => (hnot c ha).elim) (h.awaited c hc), h.distinct,
    fun c hc => ⟨get?_later hw (fun _ ha => (hnot c ha).elim) (h.asked c hc).1, (h.asked c hc).2⟩,
    h.untaken, fun c hc => get?_later hw (fun _ hlt => hlt) (h.numbered c hc), fun k a ha => ?_⟩
  · rcases KeyMap.get?_insert_cases hu with ⟨rfl, -⟩ | ⟨-, hu⟩
    · exact h.spawned _ worker hw
    · exact h.spawned k u hu
  · rcases KeyMap.get?_insert_cases hu with ⟨rfl, rfl⟩ | ⟨-, hu⟩
    · exact ⟨nofun, nofun, nofun⟩
    · exact h.sound k u hu
  · rcases List.mem_append.mp hr' with hr' | hr'
    · exact h.reported r' hr'
    · rw [List.mem_singleton.mp hr']
      exact hreported
  · rcases h.accounted k a ha with ⟨r', hr', heq⟩ | ⟨⟨u, hu, hh⟩, hc⟩
    · exact .inl ⟨r', List.mem_append_left _ hr', heq⟩
    · by_cases hk : k = id
      · subst hk
        rw [hw] at hu
        cases hu
        rw [hphase] at hh
        exact .inl ⟨r, List.mem_append_right _ List.mem_cons_self, hid, hh⟩
      · exact .inr ⟨⟨u, by rw [KeyMap.get?_insert_ne _ _ hk]; exact hu, hh⟩, hc⟩

/-! ## The scheduler's side -/

theorem Staffed.takeClaim {claim : WorkerClaim}
    (h : Staffed g workers (claim :: claims) results) (hspawned : g'.spawned = g.spawned)
    (hjobs : g'.jobs = g.jobs) (hclaim : g'.claim = some claim)
    (htaken : g'.taken = claim :: g.taken) (hout : g'.outstanding = g.outstanding) :
    Staffed g' workers claims results := by
  obtain ⟨hfree, hdistinct⟩ := List.nodup_cons.mp h.distinct
  have hother : ∀ c ∈ claims, c.workerID ≠ claim.workerID := by
    intro c hc heq
    exact hfree (List.mem_map.mpr ⟨c, hc, heq⟩)
  refine ⟨?_, fun id worker hw => (h.sound id worker hw).mono (by rw [hjobs]; exact fun _ h => h),
    fun r hr => ?_, fun c hc => h.awaited c (List.mem_cons_of_mem _ hc), hdistinct,
    fun c hc => ?_, fun c hc hmem => ?_, fun c hc => ?_, fun k a ha => ?_⟩
  · rw [hspawned]
    exact h.spawned
  · rw [Ledger.Reported, hjobs]
    exact h.reported r hr
  · rw [hclaim] at hc
    cases hc
    exact ⟨h.awaited claim List.mem_cons_self, hother⟩
  · rw [htaken] at hmem
    rcases List.mem_cons.mp hmem with rfl | hmem
    · exact hother _ hc rfl
    · exact h.untaken c (List.mem_cons_of_mem _ hc) hmem
  · rw [htaken] at hc
    refine h.numbered c ?_
    rcases hc with hc | hc
    · rcases List.mem_cons.mp hc with rfl | hc
      · exact .inr List.mem_cons_self
      · exact .inl hc
    · exact .inr (List.mem_cons_of_mem _ hc)
  · rw [hout] at ha
    rcases h.accounted k a ha with hr | ⟨hh, hc⟩
    · exact .inl hr
    · exact .inr ⟨hh, fun c hc' => hc c (List.mem_cons_of_mem _ hc')⟩

theorem Staffed.takeResult {r : BrokerTaskResult}
    (h : Staffed g workers claims (r :: results)) : Staffed (g.took r) workers claims results where
  spawned := h.spawned
  sound id worker hw := (h.sound id worker hw).mono fun _ hq => hq
  reported r' hr' := h.reported r' (List.mem_cons_of_mem _ hr')
  awaited := h.awaited
  distinct := h.distinct
  asked := h.asked
  untaken := h.untaken
  numbered := h.numbered
  accounted k a ha := by
    obtain ⟨hmem, hne⟩ := List.mem_filter.mp ha
    rcases h.accounted k a hmem with ⟨r', hr', hk, ha'⟩ | hrest
    · rcases List.mem_cons.mp hr' with rfl | hr'
      · rw [hk, ha'] at hne
        simp at hne
      · exact .inl ⟨r', hr', hk, ha'⟩
    · exact .inr hrest

/-- A claim is sent away. -/
theorem Staffed.sendAway {claim : WorkerClaim} (h : Staffed g workers claims results)
    (htaken : claim ∈ g.taken) (hw : workers.get? claim.workerID = some worker)
    (hphase : worker.phase = .waiting claim) :
    Staffed { g with claim := none }
      (workers.insert claim.workerID { worker with phase := .answered claim none }) claims
      results := by
  have hbase : Staffed { g with claim := none } workers claims results :=
    h.ledger (fun _ hm => hm) (fun _ hm => hm) nofun (fun _ hm => hm) fun _ hm => hm
  have hclaim : ∀ c ∈ claims, c.workerID ≠ claim.workerID := by
    intro c hc heq
    obtain ⟨u, hu, ha⟩ := h.awaited c hc
    rw [heq, hw] at hu
    cases hu
    rw [hphase] at ha
    rcases ha with ha | ha
    · cases ha
      exact h.untaken _ hc htaken
    · cases ha
  refine hbase.rephase _ hw ⟨fun c hc => by cases hc; rfl, nofun, nofun⟩ (le_refl _)
    (fun c hc heq _ => ?_) fun a ha => ?_
  · rcases hc with hc | hc
    · exact absurd heq (hclaim c hc)
    · cases hc
  · rw [hphase] at ha
    exact ha.elim

/-- A claim is answered with a job; a worker that left does not take it. -/
theorem Staffed.hand {claim : WorkerClaim} (h : Staffed g workers claims results) (job : TaskJob)
    (hasked : g.claim = some claim) (hw : workers.get? claim.workerID = some worker) :
    Staffed { g with
        claim := none
        jobs := (claim, job) :: g.jobs
        outstanding := (claim.workerID, job.request.attemptID) :: g.outstanding }
      (workers.insert claim.workerID (worker.answer claim (some job))) claims results := by
  obtain ⟨⟨u, hu, hawaits⟩, hfree⟩ := h.asked claim hasked
  rw [hw] at hu
  cases hu
  have hbase : Staffed { g with claim := none, jobs := (claim, job) :: g.jobs } workers claims results :=
    h.ledger (fun _ hm => hm) (fun _ hm => List.mem_cons_of_mem _ hm) nofun (fun _ hm => hm)
      fun _ hm => hm
  have hsound : WorkerSound { g with claim := none, jobs := (claim, job) :: g.jobs } claim.workerID
      (worker.answer claim (some job)).phase := by
    unfold Worker.answer
    split
    · exact ⟨fun c hc => by cases hc; rfl, fun q hq => by cases hq; exact List.mem_cons_self, nofun⟩
    · exact (hbase.sound _ worker hw)
  have hclaims : (worker.answer claim (some job)).claims = worker.claims := by
    unfold Worker.answer
    split <;> rfl
  have hholds : (worker.answer claim (some job)).phase.Holds job.request.attemptID ∧
      ∀ a, worker.phase.Holds a → (worker.answer claim (some job)).phase.Holds a := by
    unfold Worker.answer
    rcases hawaits with hp | hp
    · rw [if_pos hp]
      refine ⟨rfl, fun a ha => ?_⟩
      rw [hp] at ha
      exact ha.elim
    · rw [if_neg (by rw [hp]; nofun), hp]
      exact ⟨trivial, fun _ _ => trivial⟩
  have hnext := hbase.rephase _ hw hsound (le_of_eq hclaims.symm)
    (fun c hc heq _ => (hc.elim (fun hm => absurd heq (hfree c hm)) nofun)) hholds.2
  refine ⟨hnext.spawned, fun k u hu => (hnext.sound k u hu).mono fun _ hq => hq, hnext.reported,
    hnext.awaited, hnext.distinct, nofun,
    hnext.untaken, hnext.numbered, fun k a ha => ?_⟩
  rcases List.mem_cons.mp ha with heq | ha
  · cases heq
    exact .inr ⟨⟨_, KeyMap.get?_insert_self _ _ _, hholds.1⟩, hfree⟩
  · exact hnext.accounted k a ha

theorem Staffed.spawn (h : Staffed g workers claims results) (hnew : id ∉ g.spawned) (slot : Nat) :
    Staffed { g with
        spawned := id :: g.spawned
        roster := Function.update g.roster slot (some id)
        staff := .hired }
      (workers.insert id { slot := slot }) claims results := by
  have hnone : workers.get? id = none := by
    cases hw : workers.get? id with
    | none => rfl
    | some worker => exact absurd (h.spawned id worker hw) hnew
  have hkept : ∀ {P : Worker → Prop} {k : WorkerID}, (∃ u, workers.get? k = some u ∧ P u) →
      ∃ u, (workers.insert id { slot := slot }).get? k = some u ∧ P u := by
    rintro P k ⟨u, hu, hP⟩
    have hk : k ≠ id := by
      rintro rfl
      rw [hnone] at hu
      cases hu
    exact ⟨u, by rw [KeyMap.get?_insert_ne _ _ hk]; exact hu, hP⟩
  refine ⟨fun k u hu => ?_, fun k u hu => ?_, h.reported, fun c hc => hkept (h.awaited c hc),
    h.distinct, fun c hc => ⟨hkept (h.asked c hc).1, (h.asked c hc).2⟩, h.untaken,
    fun c hc => hkept (h.numbered c hc), fun k a ha => ?_⟩
  · rcases KeyMap.get?_insert_cases hu with ⟨rfl, -⟩ | ⟨-, hu⟩
    · exact List.mem_cons_self
    · exact List.mem_cons_of_mem _ (h.spawned k u hu)
  · rcases KeyMap.get?_insert_cases hu with ⟨rfl, rfl⟩ | ⟨-, hu⟩
    · exact ⟨nofun, nofun, nofun⟩
    · exact (h.sound k u hu).mono fun _ hq => hq
  · rcases h.accounted k a ha with hr | ⟨hh, hc⟩
    · exact .inl hr
    · exact .inr ⟨hkept hh, hc⟩

/-! ## Moves and calls -/

/-- The phases a worker cannot leave with a claim or a job. -/
theorem WorkerSound.idle {phase : WorkerPhase} (hc : phase.claim? = none) (hj : phase.job? = none)
    (hr : ∀ r, phase ≠ .reporting r) : WorkerSound g id phase :=
  ⟨fun _ h => absurd (hc.symm.trans h) nofun, fun _ h => absurd (hj.symm.trans h) nofun,
    fun r h => absurd h (hr r)⟩

/-- The moves of a worker, one constructor for each kind. -/
inductive WorkerStep (p : Process) (broker : MemoryBroker) (id : WorkerID) (worker : Worker) :
    WorkerMove → Process → MemoryBroker → Prop
  | start (h : worker.phase = .starting) (hroom : p.room p.heartbeatEvents = true) :
    WorkerStep p broker id worker .start
      { p.setPhase id worker .receiving with heartbeatEvents := p.heartbeatEvents ++ [id] } broker
  | beat (h : worker.phase ≠ .disappeared ∧ worker.phase ≠ .exited)
    (hroom : p.room p.heartbeatEvents = true) :
    WorkerStep p broker id worker .beat
      { p with heartbeatEvents := p.heartbeatEvents ++ [id] } broker
  | receive {d : Delivery} {broker' : MemoryBroker} (h : worker.phase = .receiving)
    (hreceive : broker.receive = some (d, broker')) :
    WorkerStep p broker id worker .receive (p.setPhase id worker (.claiming d)) broker'
  | receiveFails (err : GoString) (h : worker.phase = .receiving) :
    WorkerStep p broker id worker (.receiveFails err) (p.setPhase id worker (.failing err)) broker
  | sendClaim {d : Delivery} (h : worker.phase = .claiming d)
    (hroom : p.room p.claimEvents = true) :
    WorkerStep p broker id worker .sendClaim
      { p.setPhase id { worker with claims := worker.claims + 1 }
          (.waiting ⟨id, worker.slot, d, worker.claims⟩) with
        claimEvents := p.claimEvents ++ [⟨id, worker.slot, d, worker.claims⟩] } broker
  | sentAway {claim : WorkerClaim} (h : worker.phase = .answered claim none) :
    WorkerStep p broker id worker .takeAnswer (p.setPhase id worker .receiving) broker
  | accept {claim : WorkerClaim} {job : TaskJob} (h : worker.phase = .answered claim (some job)) :
    WorkerStep p broker id worker .takeAnswer (p.setPhase id worker (.executing claim job)) broker
  | finish {claim : WorkerClaim} {job : TaskJob} (output : GoString) (err : Option TaskError)
    (h : worker.phase = .executing claim job) :
    WorkerStep p broker id worker (.finish output err)
      (p.setPhase id worker (.reporting (taskResult claim job output err))) broker
  | disappear {claim : WorkerClaim} {job : TaskJob} (h : worker.phase = .executing claim job) :
    WorkerStep p broker id worker .disappear (p.setPhase id worker .disappeared)
      (broker.handBack claim.delivery)
  | sendResult {r : BrokerTaskResult} (h : worker.phase = .reporting r)
    (hroom : p.room p.resultEvents = true) :
    WorkerStep p broker id worker .sendResult
      { p.setPhase id worker .receiving with resultEvents := p.resultEvents ++ [r] } broker
  | sendLost (h : worker.phase = .disappeared) (hroom : p.room p.lostEvents = true) :
    WorkerStep p broker id worker .sendLost
      { p.setPhase id worker .exited with lostEvents := p.lostEvents ++ [(id, worker.slot)] } broker
  | sendError {err : GoString} (h : worker.phase = .failing err)
    (hroom : p.room p.brokerErrors = true) :
    WorkerStep p broker id worker .sendError
      { p.setPhase id worker .exited with
        brokerErrors := p.brokerErrors ++ [(id, worker.slot, err)] } broker
  | leave (hdone : (p.canceled || p.workersCanceled || worker.canceled) = true)
    (h : worker.phase.leaving = some none) :
    WorkerStep p broker id worker .leave (p.setPhase id worker .exited) broker
  | handBack {d : Delivery} (hdone : (p.canceled || p.workersCanceled || worker.canceled) = true)
    (h : worker.phase.leaving = some (some d)) :
    WorkerStep p broker id worker .leave (p.setPhase id worker .exited) (broker.handBack d)

variable {p p' : Process} {broker broker' : MemoryBroker}

theorem moveWorker_steps {move : WorkerMove}
    (hm : p.moveWorker broker id worker move = some (p', broker')) :
    WorkerStep p broker id worker move p' broker' := by
  cases move with
  | start =>
    simp only [Process.moveWorker] at hm
    split at hm
    · rename_i hphase
      split at hm
      · rename_i hroom
        cases hm
        exact .start hphase hroom
      · cases hm
    · cases hm
  | beat =>
    simp only [Process.moveWorker] at hm
    split at hm
    · cases hm
    · cases hm
    · rename_i hdisappeared hexited
      split at hm
      · rename_i hroom
        cases hm
        exact .beat ⟨hdisappeared, hexited⟩ hroom
      · cases hm
  | receive =>
    simp only [Process.moveWorker] at hm
    split at hm
    · rename_i hphase
      obtain ⟨⟨d, b⟩, hreceive, heq⟩ := Option.map_eq_some_iff.mp hm
      cases heq
      exact .receive hphase hreceive
    · cases hm
  | receiveFails err =>
    simp only [Process.moveWorker] at hm
    split at hm
    · rename_i hphase
      cases hm
      exact .receiveFails err hphase
    · cases hm
  | sendClaim =>
    simp only [Process.moveWorker] at hm
    split at hm
    · rename_i d hphase
      split at hm
      · rename_i hroom
        cases hm
        exact .sendClaim hphase hroom
      · cases hm
    · cases hm
  | takeAnswer =>
    simp only [Process.moveWorker] at hm
    split at hm
    · rename_i hphase
      cases hm
      exact .sentAway hphase
    · rename_i hphase
      cases hm
      exact .accept hphase
    · cases hm
  | finish output err =>
    simp only [Process.moveWorker] at hm
    split at hm
    · rename_i hphase
      cases hm
      exact .finish output err hphase
    · cases hm
  | disappear =>
    simp only [Process.moveWorker] at hm
    split at hm
    · rename_i hphase
      cases hm
      exact .disappear hphase
    · cases hm
  | sendResult =>
    simp only [Process.moveWorker] at hm
    split at hm
    · rename_i hphase
      split at hm
      · rename_i hroom
        cases hm
        exact .sendResult hphase hroom
      · cases hm
    · cases hm
  | sendLost =>
    simp only [Process.moveWorker] at hm
    split at hm
    · rename_i hphase
      split at hm
      · rename_i hroom
        cases hm
        exact .sendLost hphase hroom
      · cases hm
    · cases hm
  | sendError =>
    simp only [Process.moveWorker] at hm
    split at hm
    · rename_i hphase
      split at hm
      · rename_i hroom
        cases hm
        exact .sendError hphase hroom
      · cases hm
    · cases hm
  | leave =>
    simp only [Process.moveWorker] at hm
    split at hm
    · rename_i hdone
      obtain ⟨d, hleaving, heq⟩ := Option.map_eq_some_iff.mp hm
      cases heq
      cases d with
      | none => exact .leave hdone hleaving
      | some d => exact .handBack hdone hleaving
    · cases hm

theorem Staffed.move {move : WorkerMove} (h : Staffed g p.workers p.claimEvents p.resultEvents)
    (hw : p.workers.get? id = some worker)
    (hm : p.moveWorker broker id worker move = some (p', broker')) :
    Staffed g p'.workers p'.claimEvents p'.resultEvents := by
  have hsound := h.sound id worker hw
  -- a worker that neither awaits an answer nor holds a job may do anything
  have hfree : ∀ {phase}, WorkerSound g id phase → (∀ c, ¬worker.phase.Awaits c) →
      (∀ a, ¬worker.phase.Holds a) → Staffed g (p.workers.insert id { worker with phase := phase })
        p.claimEvents p.resultEvents := fun hs ha hh =>
    h.rephase _ hw hs (le_refl _) (fun c _ _ hc => absurd hc (ha c)) fun a hc => absurd hc (hh a)
  have hexit : Staffed g (p.workers.insert id { worker with phase := .exited }) p.claimEvents
      p.resultEvents :=
    h.rephase _ hw (.idle rfl rfl nofun) (le_refl _) (fun _ _ _ _ => .inr rfl) fun _ _ => trivial
  cases moveWorker_steps hm with
  | start hphase | receiveFails err hphase | receive hphase | sentAway hphase =>
    exact hfree (.idle rfl rfl nofun) (by rw [hphase]; rintro c (hc | hc) <;> cases hc)
      (by rw [hphase]; exact fun _ ha => ha)
  | beat => exact h
  | sendClaim hphase => exact h.sendClaim hw hphase worker.slot
  | accept hphase =>
    refine h.rephase _ hw ⟨fun c hc => ?_, fun q hq => ?_, nofun⟩ (le_refl _)
      (fun c _ _ hc => ?_) fun a ha => ?_
    · cases hc
      exact hsound.named _ (by rw [hphase]; rfl)
    · cases hq
      exact hsound.jobs _ (by rw [hphase]; rfl)
    · rw [hphase] at hc
      rcases hc with hc | hc <;> cases hc
    · rw [hphase] at ha
      exact ha
  | @finish claim job output err hphase =>
    refine h.rephase _ hw ⟨nofun, nofun, fun r hr => ?_⟩ (le_refl _) (fun c _ _ hc => ?_)
      fun a ha => ?_
    · cases hr
      exact ⟨hsound.named _ (by rw [hphase]; rfl), (claim, job),
        hsound.jobs _ (by rw [hphase]; rfl), rfl⟩
    · rw [hphase] at hc
      rcases hc with hc | hc <;> cases hc
    · rw [hphase] at ha
      exact ha
  | disappear hphase =>
    refine h.rephase _ hw (.idle rfl rfl nofun) (le_refl _) (fun c _ _ hc => ?_) fun _ _ => trivial
    rw [hphase] at hc
    rcases hc with hc | hc <;> cases hc
  | sendResult hphase => exact h.sendResult hw hphase
  | sendLost | sendError | leave | handBack => exact hexit

/-- The calls that concern the workers. -/
def EngineCall.staffing : EngineCall → Bool
  | .spawnWorker .. | .respond .. | .select _ => true
  | _ => false

theorem note_staff {c : EngineCall} {r : EngineResult c} (config : EngineConfig) (runID : RunID)
    (g : Ledger) (hc : c.staffing = false) :
    (g.note config runID c r).spawned = g.spawned ∧ (g.note config runID c r).jobs = g.jobs ∧
      (g.note config runID c r).claim = g.claim ∧ (g.note config runID c r).taken = g.taken ∧
      (g.note config runID c r).outstanding = g.outstanding ∧
      (g.note config runID c r).roster = g.roster := by
  cases c with
  | spawnWorker _ _ => cases hc
  | respond _ _ => cases hc
  | select _ => cases hc
  | createRun _ => rcases r with _ | _ <;> exact ⟨rfl, rfl, rfl, rfl, rfl, rfl⟩
  | saveRun _ => rcases r with _ | _ <;> exact ⟨rfl, rfl, rfl, rfl, rfl, rfl⟩
  | loadRun _ => rcases r with _ | _ | _ <;> exact ⟨rfl, rfl, rfl, rfl, rfl, rfl⟩
  | loadWorkflow _ => rcases r with _ | _ | _ <;> exact ⟨rfl, rfl, rfl, rfl, rfl, rfl⟩
  | saveWorkflow _ => rcases r with _ | _ <;> exact ⟨rfl, rfl, rfl, rfl, rfl, rfl⟩
  | publish _ => rcases r with _ | _ <;> exact ⟨rfl, rfl, rfl, rfl, rfl, rfl⟩
  | ack _ => rcases r with _ | _ <;> exact ⟨rfl, rfl, rfl, rfl, rfl, rfl⟩
  | nack _ => rcases r with (_ | _) | _ <;> exact ⟨rfl, rfl, rfl, rfl, rfl, rfl⟩
  | progress _ => rcases r with _ | _ <;> exact ⟨rfl, rfl, rfl, rfl, rfl, rfl⟩
  | _ => exact ⟨rfl, rfl, rfl, rfl, rfl, rfl⟩

/-- A job that is noted was noted before or is given out by the call. -/
theorem note_jobs (config : EngineConfig) (runID : RunID) (g : Ledger) (c : EngineCall)
    (r : EngineResult c) : ∀ q ∈ (g.note config runID c r).jobs,
      q ∈ g.jobs ∨ c = .respond q.1 (some q.2) := by
  intro q hq
  cases c with
  | respond claim job =>
    cases job with
    | none => exact .inl hq
    | some job =>
      rcases List.mem_cons.mp hq with rfl | hq
      · exact .inr rfl
      · exact .inl hq
  | spawnWorker _ _ => exact .inl hq
  | select _ => cases r <;> exact .inl hq
  | _ =>
    rw [(note_staff config runID g rfl).2.1] at hq
    exact .inl hq

theorem mapWorker_workers (p : Process) (id : WorkerID) (f : Worker → Worker) :
    (p.mapWorker id f).claimEvents = p.claimEvents ∧
      (p.mapWorker id f).resultEvents = p.resultEvents ∧
      ((p.workers.get? id = none ∧ (p.mapWorker id f).workers = p.workers) ∨
        ∃ worker, p.workers.get? id = some worker ∧
          (p.mapWorker id f).workers = p.workers.insert id (f worker)) := by
  unfold Process.mapWorker
  split
  · rename_i hnone
    exact ⟨rfl, rfl, .inl ⟨hnone, rfl⟩⟩
  · rename_i worker hsome
    exact ⟨rfl, rfl, .inr ⟨worker, hsome, rfl⟩⟩

theorem mapWorker_get? (p : Process) (id k : WorkerID) (f : Worker → Worker) :
    (p.mapWorker id f).workers.get? k =
      (p.workers.get? k).map fun worker => if k = id then f worker else worker := by
  obtain ⟨-, -, ⟨hnone, hw⟩ | ⟨worker, hget, hw⟩⟩ := mapWorker_workers p id f
  · rw [hw]
    by_cases hk : k = id
    · rw [hk, hnone]
      rfl
    · simp [hk]
  · rw [hw, KeyMap.get?_insert]
    by_cases hk : k = id
    · simp [hk, hget]
    · simp [hk]

theorem Staffed.answer {choice : Choice} {pid : Nat} {w w' : World} {c : EngineCall}
    {r : EngineResult c} {config : EngineConfig} {runID : RunID}
    (h : Staffed g p.workers p.claimEvents p.resultEvents) (hneeds : g.needs config runID c)
    (ha : answer choice pid p w c = some (r, p', w')) :
    Staffed (g.note config runID c r) p'.workers p'.claimEvents p'.resultEvents := by
  -- most calls leave workers and channels alone
  have hsame : c.staffing = false → Staffed (g.note config runID c r) p.workers p.claimEvents
      p.resultEvents := by
    intro hc
    obtain ⟨h1, h2, h3, h4, h5, -⟩ := note_staff (r := r) config runID g hc
    refine h.ledger ?_ ?_ ?_ ?_ ?_
    · rw [h1]
      exact fun _ hm => hm
    · rw [h2]
      exact fun _ hm => hm
    · rw [h3]
      exact fun _ hm => hm
    · rw [h4]
      exact fun _ hm => hm
    · rw [h5]
      exact fun _ hm => hm
  cases c with
  | spawnWorker id slot =>
    cases ha
    exact h.spawn hneeds.2.2 slot
  | cancelWorker id =>
    cases ha
    obtain ⟨hc, hr, ⟨-, hw⟩ | ⟨worker, hget, hw⟩⟩ :=
      mapWorker_workers p id fun worker => { worker with canceled := true }
    · rw [hc, hr, hw]
      exact hsame rfl
    · rw [hc, hr, hw]
      exact (hsame rfl).rephase _ hget (h.sound id worker hget |>.mono fun _ hq => hq) (le_refl _)
        (fun _ _ _ hc => hc) fun _ ha => ha
  | cancelWorkers =>
    cases ha
    exact hsame rfl
  | respond claim job =>
    cases ha
    obtain ⟨hc, hr, ⟨hnone, hw⟩ | ⟨worker, hget, hw⟩⟩ :=
      mapWorker_workers p claim.workerID fun worker => worker.answer claim job
    · cases job with
      | none =>
        rw [hc, hr, hw]
        exact h.ledger (fun _ hm => hm) (fun _ hm => hm) nofun (fun _ hm => hm) fun _ hm => hm
      | some job =>
        obtain ⟨⟨worker, hget, -⟩, -⟩ := h.asked claim hneeds.2.1
        rw [hnone] at hget
        cases hget
    · cases job with
      | none =>
        rw [hc, hr, hw]
        by_cases hphase : worker.phase = .waiting claim
        · have hanswer : worker.answer claim none = { worker with phase := .answered claim none } :=
            if_pos hphase
          rw [hanswer]
          exact h.sendAway hneeds hget hphase
        · have hanswer : worker.answer claim none = worker := if_neg hphase
          have hbase : Staffed { g with claim := none } p.workers p.claimEvents p.resultEvents :=
            h.ledger (fun _ hm => hm) (fun _ hm => hm) nofun (fun _ hm => hm) fun _ hm => hm
          rw [hanswer]
          exact hbase.rephase _ hget (hbase.sound _ worker hget) (le_refl _) (fun _ _ _ hc => hc)
            fun _ ha => ha
      | some job =>
        rw [hc, hr, hw]
        exact (h.hand job hneeds.2.1 hget).ledger (fun _ hm => hm) (fun _ hm => hm)
          (fun _ hc => hc) (fun _ hm => hm) fun _ hm => hm
  | select armed =>
    obtain ⟨source, -, htake, -⟩ := answer_select ha
    have hother : ∀ event, r = event → (∀ c, event ≠ .claim c) → (∀ q, event ≠ .result q) →
        Staffed (g.note config runID (.select armed) r) p.workers p.claimEvents p.resultEvents := by
      rintro event rfl hc hq
      refine h.ledger ?_ ?_ ?_ ?_ ?_ <;> cases r <;>
        first | exact fun _ hm => hm | exact absurd rfl (hc _) | exact absurd rfl (hq _)
    rcases take_cases htake with ⟨claim, rest, rfl, hevents, rfl⟩ | ⟨_, _, hr, -, rfl⟩ |
      ⟨_, _, _, hr, -, rfl⟩ | ⟨_, _, _, _, hr, -, rfl⟩ | ⟨result, rest, rfl, hevents, rfl⟩ |
      ⟨hr | ⟨_, hr, -⟩, rfl⟩
    · rw [hevents] at h
      exact h.takeClaim rfl rfl rfl rfl rfl
    · exact hother _ hr nofun nofun
    · exact hother _ hr nofun nofun
    · exact hother _ hr nofun nofun
    · rw [hevents] at h
      exact h.takeResult
    · exact hother _ hr nofun nofun
    · exact hother _ hr nofun nofun
  | _ =>
    rcases answer_cases ha with ⟨rfl, -⟩ | ⟨_, _, rfl, -⟩ | ⟨_, _, _, _, rfl, -⟩ | ⟨_, _, rfl, -⟩ |
      ⟨_, _, hc, -⟩ | ⟨_, _, hc, -⟩ | ⟨_, hc, -⟩ | ⟨hc, -⟩ | ⟨_, _, _, hc, -⟩
    all_goals first | exact hsame rfl | cases hc

end

end ForgeFlow.Execution
