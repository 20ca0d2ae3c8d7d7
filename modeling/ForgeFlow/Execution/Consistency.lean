import ForgeFlow.Execution.Staff

/-!
# Every reachable world

A run of the world is any interleaving of any number of schedulers and their
workers, with crashes, cancellations and a transport that does as it pleases. Each
scheduler has a ledger, and all ledgers agree with the store and with each other.
-/

namespace ForgeFlow.Execution

open ForgeFlow.Base ForgeFlow.Workflow

variable {c : EngineCall} {q : Process} {g : Ledger}

/-! ## Steps -/

namespace World

def Live (w : World) (pid : Nat) (p : Process) : Prop :=
  w.processes.get? pid = some p ∧ p.crashed = false

/-- The steps of a world, one constructor for each kind. -/
inductive Moves (w : World) : Label → World → Prop
  | launch {pid : Nat} (config : EngineConfig) (start : Start) (h : w.processes.get? pid = none) :
    Moves w (.launch pid config start)
      (w.put pid { config := config, thread := start.thread config w.runID })
  | crash {pid : Nat} {p : Process} (h : w.Live pid p) :
    Moves w (.crash pid) (w.put pid { p with crashed := true })
  | cancel {pid : Nat} {p : Process} (h : w.Live pid p) :
    Moves w (.cancel pid) (w.put pid { p with canceled := true })
  | again {pid : Nat} {p : Process} {st : Scheduler} (choice : Choice) (h : w.Live pid p)
    (ht : p.thread = .running (.ret (.again st))) :
    Moves w (.scheduler pid choice)
      (w.put pid { p with thread := .running (schedulerRound p.config st) })
  | finish {pid : Nat} {p : Process} {o : RunOutcome} (choice : Choice) (h : w.Live pid p)
    (ht : p.thread = .running (.ret (.done o))) :
    Moves w (.scheduler pid choice) (w.put pid { p with thread := .finished o })
  | call {pid : Nat} {p p' : Process} {w' : World} {c : EngineCall}
    {next : EngineResult c → Round} {r : EngineResult c} {choice : Choice} (h : w.Live pid p)
    (ht : p.thread = .running (.call c next)) (ha : answer choice pid p w c = some (r, p', w')) :
    Moves w (.scheduler pid choice) (w'.put pid { p' with thread := .running (next r) })
  | worker {pid : Nat} {p p' : Process} {id : WorkerID} {worker : Worker} {move : WorkerMove}
    {broker : MemoryBroker} (h : w.Live pid p) (hw : p.workers.get? id = some worker)
    (hm : p.moveWorker w.broker id worker move = some (p', broker)) :
    Moves w (.worker pid id move) ({ w with broker := broker }.put pid p')
  | transport (broker : MemoryBroker) : Moves w (.transport broker) { w with broker := broker }

variable {w w' : World} {label : Label} {pid : Nat}

theorem stepProcess_some {f : Process → Option World} (h : w.stepProcess pid f = some w') :
    ∃ p, w.Live pid p ∧ f p = some w' := by
  unfold stepProcess at h
  split at h
  · cases h
  · rename_i p hp
    split at h
    · cases h
    · rename_i hcrashed
      exact ⟨p, ⟨hp, by simpa using hcrashed⟩, h⟩

theorem step_moves (h : w.step label = some w') : w.Moves label w' := by
  cases label with
  | launch pid config start =>
    simp only [step] at h
    split at h
    · cases h
    · rename_i hnone
      cases h
      exact .launch config start (Option.not_isSome_iff_eq_none.mp hnone)
  | crash pid =>
    obtain ⟨p, hlive, heq⟩ := stepProcess_some h
    cases heq
    exact .crash hlive
  | cancel pid =>
    obtain ⟨p, hlive, heq⟩ := stepProcess_some h
    cases heq
    exact .cancel hlive
  | scheduler pid choice =>
    obtain ⟨p, hlive, heq⟩ := stepProcess_some h
    obtain ⟨⟨t, p', w''⟩, hadvance, heq⟩ := Option.map_eq_some_iff.mp heq
    cases heq
    cases ht : p.thread with
    | finished o =>
      rw [ht] at hadvance
      cases hadvance
    | running rest =>
      rw [ht] at hadvance
      cases rest with
      | call c next =>
        obtain ⟨⟨r, p'', w'''⟩, ha, heq⟩ := Option.map_eq_some_iff.mp hadvance
        cases heq
        exact .call hlive ht ha
      | ret result =>
        cases result with
        | again st =>
          cases hadvance
          exact .again choice hlive ht
        | done o =>
          cases hadvance
          exact .finish choice hlive ht
  | worker pid id move =>
    obtain ⟨p, hlive, heq⟩ := stepProcess_some h
    split at heq
    · cases heq
    · rename_i worker hw
      obtain ⟨⟨p', broker⟩, hm, heq⟩ := Option.map_eq_some_iff.mp heq
      cases heq
      exact .worker hlive hw hm
  | transport broker =>
    cases h
    exact .transport broker

/-- Every step of the run meets the condition, which speaks of the world before it. -/
def Meets (C : World → Label → Prop) (w : World) : List Label → Prop
  | [] => True
  | label :: rest => C w label ∧
    match w.step label with
    | none => True
    | some w' => w'.Meets C rest

instance decidableMeets (C : World → Label → Prop) [∀ w label, Decidable (C w label)] :
    ∀ (w : World) (labels : List Label), Decidable (w.Meets C labels)
  | _, [] => .isTrue trivial
  | w, label :: rest =>
    have : Decidable (match w.step label with
        | none => True
        | some w' => w'.Meets C rest) :=
      match w.step label with
      | none => .isTrue trivial
      | some w' => decidableMeets C w' rest
    inferInstanceAs (Decidable (_ ∧ _))

theorem Meets.mono {C D : World → Label → Prop} (h : ∀ w label, C w label → D w label) :
    ∀ {labels : List Label} {w : World}, w.Meets C labels → w.Meets D labels
  | [], _, _ => trivial
  | label :: rest, w, ⟨hc, hrest⟩ => by
    refine ⟨h w label hc, ?_⟩
    split <;> rename_i hstep <;> rw [hstep] at hrest
    · trivial
    · exact hrest.mono h

/-- What holds at first and is kept by every step that meets the condition holds in
every world reached. -/
theorem Meets.induction {C : World → Label → Prop} {P : World → Prop}
    (hstep : ∀ w label w', C w label → P w → w.Moves label w' → P w') :
    ∀ {labels : List Label} {w w' : World}, w.Meets C labels → P w → w.run labels = some w' → P w'
  | [], _, _, _, hw, h => by
    cases h
    exact hw
  | label :: _, w, _, ⟨hc, hrest⟩, hw, h => by
    obtain ⟨w₁, hw₁, h⟩ := Option.bind_eq_some_iff.mp h
    rw [hw₁] at hrest
    exact hrest.induction hstep (hstep w label w₁ hc hw (step_moves hw₁)) h

theorem meets_of_labels {P : Label → Prop} :
    ∀ {labels : List Label} (w : World), (∀ label ∈ labels, P label) →
      w.Meets (fun _ label => P label) labels
  | [], _, _ => trivial
  | label :: _, w, h => by
    obtain ⟨hlabel, hrest⟩ := List.forall_mem_cons.mp h
    refine ⟨hlabel, ?_⟩
    split
    · trivial
    · exact meets_of_labels _ hrest

theorem run_induction {P : World → Prop} (hstep : ∀ w label w', P w → w.Moves label w' → P w')
    {labels : List Label} (hw : P w) (h : w.run labels = some w') : P w' :=
  (meets_of_labels w fun _ _ => trivial).induction (fun w label w' _ => hstep w label w') hw h

theorem pending_some (h : w.pending pid = some c) :
    ∃ p next, w.Live pid p ∧ p.thread = .running (.call c next) := by
  unfold World.pending at h
  split at h
  · cases h
  · rename_i p hget
    split at h
    · cases h
    · rename_i hcrashed
      unfold Thread.pending at h
      split at h
      · rename_i c' next hthread
        cases h
        exact ⟨p, next, ⟨hget, by simpa using hcrashed⟩, hthread⟩
      · cases h

theorem Live.pending {p : Process} {next : EngineResult c → Round}
    (h : w.Live pid p) (ht : p.thread = .running (.call c next)) : w.pending pid = some c := by
  rw [World.pending, h.1]
  simp [h.2, ht, Thread.pending]

theorem put_cases {pid' : Nat} {p : Process} (h : (w.put pid p).processes.get? pid' = some q) :
    pid' = pid ∧ q = p ∨ pid' ≠ pid ∧ w.processes.get? pid' = some q :=
  KeyMap.get?_insert_cases h

theorem live_put {pid' : Nat} {p : Process} (h : (w.put pid p).Live pid' q) :
    pid' = pid ∧ q = p ∨ pid' ≠ pid ∧ w.Live pid' q :=
  (put_cases h.1).imp_right fun hq => ⟨hq.1, hq.2, h.2⟩

/-- A store without a run or with one snapshot of it, and no process yet. -/
structure Initial (w : World) : Prop where
  processes : w.processes = ∅
  log : w.log = []
  history : w.history = [] ∨ ∃ s, w.history = [s] ∧ s.id = w.runID

theorem Initial.chain (h : w.Initial) : Chain w.runID w.history := by
  rcases h.history with hnil | ⟨s, hs, hid⟩
  · rw [hnil]
    exact ⟨nofun, .nil⟩
  · rw [hs]
    exact .singleton hid

theorem Initial.not_live (h : w.Initial) {p : Process} : ¬w.Live pid p := by
  rintro ⟨hget, -⟩
  rw [h.processes] at hget
  cases hget

end World

/-! ## Ledgers -/

def Observation.attempt? : Observation → Option AttemptID
  | .handed _ _ job => some job.request.attemptID
  | .published .. => none

/-- The attempts handed out so far. -/
def World.handedAttempts (w : World) : List AttemptID := w.log.filterMap Observation.attempt?

/-- The ledger a call begins with. -/
def Start.ledger (runID : RunID) : Start → Ledger
  | .execute _ => .ofExecute
  | .recover => .ofRecover runID

/-- The save that brought the attempt was made by a scheduler that has handed out
its job, so nobody else can hand it out. -/
def Spent (w : World) (ledgers : Nat → Ledger) (a : AttemptID) : Prop :=
  ∃ s k n, a = attemptIDFor (taskRunIDFor w.runID k) n ∧ First w.history s k n ∧
    ∀ pid, (ledgers pid).fresh → (ledgers pid).stored ≠ some s

structure Consistent (w : World) (ledgers : Nat → Ledger) : Prop where
  chain : Chain w.runID w.history
  informed : ∀ pid, Informed w.history (ledgers pid)
  safe : ∀ pid p, w.Live pid p → p.thread.Safe (schedulerContract p.config w.runID)
    (Scheduling p.config w.runID) Ending (ledgers pid)
  staffed : ∀ pid p, w.Live pid p →
    Staffed (ledgers pid) p.workers p.claimEvents p.resultEvents
  absent : ∀ pid, w.processes.get? pid = none →
    ¬(ledgers pid).fresh ∧ ∀ m, .published pid m ∉ w.log
  published : ∀ pid m, .published pid m ∈ w.log → m ∈ (ledgers pid).published
  /-- A save is fresh for one scheduler only. -/
  owners : ∀ pid pid', (ledgers pid).fresh → (ledgers pid').fresh →
    (ledgers pid).stored = (ledgers pid').stored → pid = pid'
  spent : ∀ a ∈ w.handedAttempts, Spent w ledgers a
  once : w.handedAttempts.Nodup

section

variable {w w' : World} {ledgers : Nat → Ledger} {pid : Nat} {p p' : Process}

theorem World.Initial.consistent (h : w.Initial) : Consistent w fun _ => {} where
  chain := h.chain
  informed _ := ⟨nofun, False.elim⟩
  safe _ _ hl := absurd hl h.not_live
  staffed _ _ hl := absurd hl h.not_live
  absent _ _ := ⟨id, by rw [h.log]; nofun⟩
  published _ _ hm := by
    rw [h.log] at hm
    cases hm
  owners _ _ hf := hf.elim
  spent a ha := by
    rw [World.handedAttempts, h.log] at ha
    cases ha
  once := by
    rw [World.handedAttempts, h.log]
    exact .nil

/-- A process changed and nothing else that the ledgers speak of. -/
theorem Consistent.put (h : Consistent w ledgers) (p' : Process) (broker : MemoryBroker)
    (hlive : w.Live pid p) (hconfig : p'.config = p.config)
    (hsafe : p'.crashed = false → p'.thread.Safe (schedulerContract p.config w.runID)
      (Scheduling p.config w.runID) Ending (ledgers pid))
    (hstaffed : Staffed (ledgers pid) p'.workers p'.claimEvents p'.resultEvents) :
    Consistent ({ w with broker := broker }.put pid p') ledgers where
  chain := h.chain
  informed := h.informed
  safe pid' q hq := by
    rcases World.live_put hq with ⟨rfl, rfl⟩ | ⟨-, hq'⟩
    · rw [hconfig]
      exact hsafe hq.2
    · exact h.safe pid' q hq'
  staffed pid' q hq := by
    rcases World.live_put hq with ⟨rfl, rfl⟩ | ⟨-, hq'⟩
    · exact hstaffed
    · exact h.staffed pid' q hq'
  absent pid' hnone := by
    have hne : pid' ≠ pid := by
      rintro rfl
      rw [World.put, KeyMap.get?_insert_self] at hnone
      cases hnone
    refine h.absent pid' ?_
    rw [World.put, KeyMap.get?_insert_ne _ _ hne] at hnone
    exact hnone
  published := h.published
  owners := h.owners
  spent := h.spent
  once := h.once

/-- A process starts with a ledger of its own. -/
theorem Consistent.launch (h : Consistent w ledgers) (hnone : w.processes.get? pid = none)
    (config : EngineConfig) (start : Start) :
    Consistent (w.put pid { config := config, thread := start.thread config w.runID })
      (Function.update ledgers pid (start.ledger w.runID)) := by
  have hempty : ¬(start.ledger w.runID).fresh ∧ (start.ledger w.runID).stored = none ∧
      (start.ledger w.runID).published = [] := by
    cases start <;> exact ⟨id, rfl, rfl⟩
  have hfresh : ∀ pid', (Function.update ledgers pid (start.ledger w.runID) pid').fresh →
      pid' ≠ pid ∧ (ledgers pid').fresh := by
    intro pid' hf
    by_cases heq : pid' = pid
    · subst heq
      rw [Function.update_self] at hf
      exact absurd hf hempty.1
    · rw [Function.update_of_ne heq] at hf
      exact ⟨heq, hf⟩
  refine ⟨h.chain, fun pid' => ?_, fun pid' q hq => ?_, fun pid' q hq => ?_, fun pid' hnone' => ?_,
    fun pid' m hm => ?_, fun pid₁ pid₂ h₁ h₂ hst => ?_, fun a ha => ?_, h.once⟩
  · by_cases heq : pid' = pid
    · subst heq
      rw [Function.update_self]
      refine ⟨fun s hs => ?_, fun hf => absurd hf hempty.1⟩
      rw [hempty.2.1] at hs
      cases hs
    · rw [Function.update_of_ne heq]
      exact h.informed pid'
  · rcases World.live_put hq with ⟨rfl, rfl⟩ | ⟨hne, hq'⟩
    · rw [Function.update_self]
      cases start with
      | execute d => exact wp_execute config w.runID d
      | recover => exact wp_recoverEngine config w.runID
    · rw [Function.update_of_ne hne]
      exact h.safe pid' q hq'
  · rcases World.live_put hq with ⟨rfl, rfl⟩ | ⟨hne, hq'⟩
    · rw [Function.update_self]
      cases start <;> exact ⟨nofun, nofun, nofun, nofun, .nil, nofun, nofun,
        fun _ hc => hc.elim nofun nofun, nofun⟩
    · rw [Function.update_of_ne hne]
      exact h.staffed pid' q hq'
  · have hne : pid' ≠ pid := by
      rintro rfl
      rw [World.put, KeyMap.get?_insert_self] at hnone'
      cases hnone'
    rw [World.put, KeyMap.get?_insert_ne _ _ hne] at hnone'
    rw [Function.update_of_ne hne]
    exact h.absent pid' hnone'
  · by_cases heq : pid' = pid
    · subst heq
      exact absurd hm ((h.absent pid' hnone).2 m)
    · rw [Function.update_of_ne heq]
      exact h.published pid' m hm
  · obtain ⟨hne₁, hf₁⟩ := hfresh pid₁ h₁
    obtain ⟨hne₂, hf₂⟩ := hfresh pid₂ h₂
    rw [Function.update_of_ne hne₁, Function.update_of_ne hne₂] at hst
    exact h.owners pid₁ pid₂ hf₁ hf₂ hst
  · obtain ⟨s, k, n, hattempt, hfirst, hspent⟩ := h.spent a ha
    refine ⟨s, k, n, hattempt, hfirst, fun pid' hf => ?_⟩
    obtain ⟨hne, hf⟩ := hfresh pid' hf
    rw [Function.update_of_ne hne]
    exact hspent pid' hf

/-- A spent attempt stays spent when a scheduler learns something. -/
theorem Spent.learned {a : AttemptID} (h : Spent w ledgers a)
    (hl : Learned w.history w'.history w.runID (ledgers pid) g) (hid : w'.runID = w.runID) :
    Spent w' (Function.update ledgers pid g) a := by
  obtain ⟨s, k, n, rfl, hfirst, hspent⟩ := h
  refine ⟨s, k, n, by rw [hid], hfirst.grown hl.grown, fun pid' hf => ?_⟩
  by_cases heq : pid' = pid
  · subst heq
    rw [Function.update_self] at hf ⊢
    rcases hl.fresh hf with ⟨hf, hst⟩ | ⟨s', hs', hnew⟩
    · rw [hst]
      exact hspent pid' hf
    · rw [hs']
      rintro ⟨⟩
      exact hnew hfirst.mem
  · rw [Function.update_of_ne heq] at hf ⊢
    exact hspent pid' hf

theorem owners_learned (h : Consistent w ledgers)
    (hl : Learned w.history w'.history w.runID (ledgers pid) g) (pid₁ pid₂ : Nat)
    (h₁ : (Function.update ledgers pid g pid₁).fresh)
    (h₂ : (Function.update ledgers pid g pid₂).fresh)
    (hst : (Function.update ledgers pid g pid₁).stored =
      (Function.update ledgers pid g pid₂).stored) : pid₁ = pid₂ := by
  -- whoever is fresh with a snapshot that has just been stored is the one that stored it
  have hother : ∀ pid', pid' ≠ pid → g.fresh → (ledgers pid').fresh →
      g.stored = (ledgers pid').stored → False := by
    intro pid' hne hf hf' heq
    rcases hl.fresh hf with ⟨hf, hsame⟩ | ⟨s, hs, hnew⟩
    · exact hne (h.owners pid' pid hf' hf (heq.symm.trans hsame))
    · exact hnew ((h.informed pid').stored s (heq.symm.trans hs))
  by_cases e₁ : pid₁ = pid <;> by_cases e₂ : pid₂ = pid
  · rw [e₁, e₂]
  · subst e₁
    rw [Function.update_self] at h₁ hst
    rw [Function.update_of_ne e₂] at h₂ hst
    exact (hother pid₂ e₂ h₁ h₂ hst).elim
  · subst e₂
    rw [Function.update_self] at h₂ hst
    rw [Function.update_of_ne e₁] at h₁ hst
    exact (hother pid₁ e₁ h₂ h₁ hst.symm).elim
  · rw [Function.update_of_ne e₁] at h₁ hst
    rw [Function.update_of_ne e₂] at h₂ hst
    exact h.owners pid₁ pid₂ h₁ h₂ hst

/-- What a call adds to the log, if it meets its contract. -/
theorem answer_log {choice : Choice} {r : EngineResult c}
    (h : answer choice pid p w c = some (r, p', w')) :
    w'.runID = w.runID ∧ w'.processes = w.processes ∧ p'.config = p.config ∧
      p'.crashed = p.crashed ∧ (w'.log = w.log ∨
        (∃ m, c = .publish m ∧ w'.log = .published pid m :: w.log) ∨
        ∃ claim job, c = .respond claim (some job) ∧ w'.log = .handed pid claim job :: w.log) := by
  have hmap : ∀ id f, (p.mapWorker id f).config = p.config ∧
      (p.mapWorker id f).crashed = p.crashed := by
    intro id f
    unfold Process.mapWorker
    split <;> exact ⟨rfl, rfl⟩
  rcases answer_cases h with ⟨rfl, hw, -⟩ | ⟨s, rfl, rfl, -, rfl⟩ | ⟨s, _, _, rfl, rfl, -, -, rfl⟩ |
    ⟨m, hc, rfl, hw⟩ | ⟨claim, job, hc, rfl, hw⟩ | ⟨_, _, rfl, rfl, rfl⟩ | ⟨id, rfl, rfl, rfl⟩ |
    ⟨rfl, rfl, rfl⟩ | ⟨_, _, _, rfl, rfl, htake⟩
  · rw [hw]
    exact ⟨rfl, rfl, rfl, rfl, .inl rfl⟩
  · exact ⟨rfl, rfl, rfl, rfl, .inl rfl⟩
  · exact ⟨rfl, rfl, rfl, rfl, .inl rfl⟩
  · rw [hw]
    exact ⟨rfl, rfl, rfl, rfl, .inr (.inl ⟨m, hc, rfl⟩)⟩
  · cases job with
    | none =>
      rw [hw]
      exact ⟨rfl, rfl, (hmap _ _).1, (hmap _ _).2, .inl rfl⟩
    | some job =>
      rw [hw]
      exact ⟨rfl, rfl, (hmap _ _).1, (hmap _ _).2, .inr (.inr ⟨claim, job, hc, rfl⟩)⟩
  · exact ⟨rfl, rfl, rfl, rfl, .inl rfl⟩
  · exact ⟨rfl, rfl, (hmap _ _).1, (hmap _ _).2, .inl rfl⟩
  · exact ⟨rfl, rfl, rfl, rfl, .inl rfl⟩
  · rcases take_cases htake with ⟨_, _, -, -, rfl⟩ | ⟨_, _, -, -, rfl⟩ | ⟨_, _, _, -, -, rfl⟩ |
      ⟨_, _, _, _, -, -, rfl⟩ | ⟨_, _, -, -, rfl⟩ | ⟨-, rfl⟩ <;>
      exact ⟨rfl, rfl, rfl, rfl, .inl rfl⟩

theorem note_published (config : EngineConfig) (runID : RunID) (g : Ledger) (c : EngineCall)
    (r : EngineResult c) : g.published ⊆ (g.note config runID c r).published ∧
      ∀ m, c = .publish m → m ∈ (g.note config runID c r).published := by
  have hcons : ∀ m : TaskMessage, g.published ⊆ m :: g.published :=
    fun m _ hm => List.mem_cons_of_mem _ hm
  cases c with
  | publish m =>
    rcases r with _ | _ <;>
      exact ⟨hcons m, fun m' hm => by cases hm; exact List.mem_cons_self⟩
  | createRun _ => rcases r with _ | _ <;> exact ⟨fun _ hm => hm, nofun⟩
  | saveRun _ => rcases r with _ | _ <;> exact ⟨fun _ hm => hm, nofun⟩
  | loadRun _ => rcases r with _ | _ | _ <;> exact ⟨fun _ hm => hm, nofun⟩
  | loadWorkflow _ => rcases r with _ | _ | _ <;> exact ⟨fun _ hm => hm, nofun⟩
  | saveWorkflow _ => rcases r with _ | _ <;> exact ⟨fun _ hm => hm, nofun⟩
  | ack _ => rcases r with _ | _ <;> exact ⟨fun _ hm => hm, nofun⟩
  | nack _ => rcases r with (_ | _) | _ <;> exact ⟨fun _ hm => hm, nofun⟩
  | progress _ => rcases r with _ | _ <;> exact ⟨fun _ hm => hm, nofun⟩
  | respond _ job => cases job <;> exact ⟨fun _ hm => hm, nofun⟩
  | select _ => cases r <;> exact ⟨fun _ hm => hm, nofun⟩
  | _ => exact ⟨fun _ hm => hm, nofun⟩

/-- The attempt a scheduler is about to hand out was handed out by nobody, and is
spent once it has been. -/
theorem Consistent.handing (h : Consistent w ledgers) {config : EngineConfig} {claim : WorkerClaim}
    {job : TaskJob} (hneeds : (ledgers pid).needs config w.runID (.respond claim (some job))) :
    job.request.attemptID ∉ w.handedAttempts ∧
      Spent w (Function.update ledgers pid
        ((ledgers pid).note config w.runID (.respond claim (some job)) ())) job.request.attemptID := by
  obtain ⟨-, -, hfresh, s, before, k, t, u, l, hs, hb, -, ht, hu, hlt, -, -, -, -, -, -, -, ha, -⟩ :=
    hneeds
  have hfirst := (h.informed pid).first h.chain hfresh hs hb ht hu hlt
  constructor
  · intro hmem
    obtain ⟨s', k', n', ha', hfirst', hspent⟩ := h.spent _ hmem
    rw [ha] at ha'
    obtain ⟨-, rfl, rfl⟩ := attemptID_injective ha'
    rw [hfirst.unique h.chain hfirst'] at hs
    exact hspent pid hfresh hs
  · refine ⟨s, k, t.attemptCount, ha, hfirst, fun pid' hf hs' => ?_⟩
    by_cases heq : pid' = pid
    · subst heq
      rw [Function.update_self] at hf
      exact hf
    · rw [Function.update_of_ne heq] at hf hs'
      exact heq (h.owners pid' pid hf hfresh (hs'.trans hs.symm))

theorem Consistent.call (h : Consistent w ledgers) {choice : Choice}
    {next : EngineResult c → Round} {r : EngineResult c} (hlive : w.Live pid p)
    (ht : p.thread = .running (.call c next)) (ha : answer choice pid p w c = some (r, p', w')) :
    Consistent (w'.put pid { p' with thread := .running (next r) })
      (Function.update ledgers pid ((ledgers pid).note p.config w.runID c r)) := by
  obtain ⟨hid, hprocesses, hconfig, hcrashed, hlog⟩ := answer_log ha
  have hsafe := h.safe pid p hlive
  rw [ht] at hsafe
  obtain ⟨hneeds, hnext⟩ := hsafe
  have hstaffed := h.staffed pid p hlive
  have hanswered := hstaffed.answer hneeds ha
  have hlearned := answer_learned h.chain (h.informed pid) hneeds ha
  have hlive' : ∀ pid' q, (w'.put pid { p' with thread := .running (next r) }).Live pid' q →
      pid' = pid ∧ q = { p' with thread := .running (next r) } ∨ pid' ≠ pid ∧ w.Live pid' q := by
    intro pid' q hq
    rcases World.live_put hq with heq | ⟨hne, hq'⟩
    · exact .inl heq
    · rw [World.Live, hprocesses] at hq'
      exact .inr ⟨hne, hq'⟩
  have hspent : ∀ a, Spent w ledgers a → Spent (w'.put pid { p' with thread := .running (next r) })
      (Function.update ledgers pid ((ledgers pid).note p.config w.runID c r)) a :=
    fun a hs => Spent.learned hs hlearned hid
  obtain ⟨hkept, hnew⟩ := note_published p.config w.runID (ledgers pid) c r
  have hpublished : ∀ pid' m, .published pid' m ∈ w.log → m ∈
      (Function.update ledgers pid ((ledgers pid).note p.config w.runID c r) pid').published := by
    intro pid' m hm
    by_cases heq : pid' = pid
    · subst heq
      rw [Function.update_self]
      exact hkept (h.published pid' m hm)
    · rw [Function.update_of_ne heq]
      exact h.published pid' m hm
  refine ⟨hid ▸ hlearned.chain, fun pid' => ?_, fun pid' q hq => ?_, fun pid' q hq => ?_,
    fun pid' hnone => ?_, fun pid' m hm => ?_, owners_learned h hlearned, fun a hmem => ?_, ?_⟩
  · by_cases heq : pid' = pid
    · subst heq
      rw [Function.update_self]
      exact hlearned.informed
    · rw [Function.update_of_ne heq]
      exact (h.informed pid').grown hlearned.grown
  · rcases hlive' pid' q hq with ⟨rfl, rfl⟩ | ⟨hne, hq'⟩
    · rw [Function.update_self]
      show Thread.Safe (schedulerContract p'.config w'.runID) (Scheduling p'.config w'.runID) Ending
        (.running (next r)) _
      rw [hid, hconfig]
      exact hnext r (answer_expects h.chain hstaffed.reported ha)
    · rw [Function.update_of_ne hne]
      show Thread.Safe (schedulerContract q.config w'.runID) (Scheduling q.config w'.runID) _ _ _
      rw [hid]
      exact h.safe pid' q hq'
  · rcases hlive' pid' q hq with ⟨rfl, rfl⟩ | ⟨hne, hq'⟩
    · rw [Function.update_self]
      exact hanswered
    · rw [Function.update_of_ne hne]
      exact h.staffed pid' q hq'
  · have hne : pid' ≠ pid := by
      rintro rfl
      rw [World.put, KeyMap.get?_insert_self] at hnone
      cases hnone
    rw [World.put, KeyMap.get?_insert_ne _ _ hne, hprocesses] at hnone
    obtain ⟨hfresh, hnolog⟩ := h.absent pid' hnone
    rw [Function.update_of_ne hne]
    refine ⟨hfresh, fun m hm => ?_⟩
    rcases hlog with hlog | ⟨m', -, hlog⟩ | ⟨_, _, -, hlog⟩ <;> rw [World.put, hlog] at hm
    · exact hnolog m hm
    · rcases List.mem_cons.mp hm with heq | hm
      · cases heq
        exact hne rfl
      · exact hnolog m hm
    · rcases List.mem_cons.mp hm with heq | hm
      · cases heq
      · exact hnolog m hm
  · rcases hlog with hlog | ⟨m', hc, hlog⟩ | ⟨_, _, -, hlog⟩ <;> rw [World.put, hlog] at hm
    · exact hpublished pid' m hm
    · rcases List.mem_cons.mp hm with heq | hm
      · cases heq
        rw [Function.update_self]
        exact hnew m hc
      · exact hpublished pid' m hm
    · rcases List.mem_cons.mp hm with heq | hm
      · cases heq
      · exact hpublished pid' m hm
  · rcases hlog with hlog | ⟨m', -, hlog⟩ | ⟨claim, job, rfl, hlog⟩ <;>
      rw [World.handedAttempts, World.put, hlog] at hmem
    · exact hspent a (h.spent a hmem)
    · exact hspent a (h.spent a hmem)
    · rcases List.mem_cons.mp hmem with rfl | hmem
      · obtain ⟨s, k, n, heq, hfirst, hs⟩ := (h.handing hneeds).2
        exact ⟨s, k, n, by rw [heq]; exact congrArg (fun x => attemptIDFor (taskRunIDFor x k) n) hid.symm,
          hfirst.grown hlearned.grown, hs⟩
      · exact hspent a (h.spent a hmem)
  · rw [World.handedAttempts]
    rcases hlog with hlog | ⟨m', -, hlog⟩ | ⟨claim, job, rfl, hlog⟩ <;> rw [World.put, hlog]
    · exact h.once
    · exact h.once
    · exact List.nodup_cons.mpr ⟨(h.handing hneeds).1, h.once⟩

theorem moveWorker_frame {id : WorkerID} {worker : Worker} {move : WorkerMove}
    {broker broker' : MemoryBroker} (h : p.moveWorker broker id worker move = some (p', broker')) :
    p'.config = p.config ∧ p'.crashed = p.crashed ∧ p'.thread = p.thread := by
  cases moveWorker_steps h <;> exact ⟨rfl, rfl, rfl⟩

/-- A live process has just been started, or its thread stands where it stood or has gone
one step on. -/
theorem World.Moves.thread_cases {label : Label} (hm : w.Moves label w')
    (hq : w'.Live pid q) :
    (∃ config start, label = .launch pid config start ∧ q.config = config ∧
      q.thread = start.thread config w.runID) ∨
    ∃ p, w.Live pid p ∧ q.config = p.config ∧ (q.thread = p.thread ∨
      (∃ st, p.thread = .running (.ret (.again st)) ∧
        q.thread = .running (schedulerRound p.config st)) ∨
      (∃ o, p.thread = .running (.ret (.done o)) ∧ q.thread = .finished o) ∨
      ∃ choice c next r, label = .scheduler pid choice ∧ p.thread = .running (.call c next) ∧
        q.thread = .running (next r)) := by
  cases hm with
  | transport broker => exact .inr ⟨q, hq, rfl, .inl rfl⟩
  | launch config start hnone =>
    rcases World.live_put hq with ⟨rfl, rfl⟩ | ⟨-, hq'⟩
    · exact .inl ⟨config, start, rfl, rfl, rfl⟩
    · exact .inr ⟨q, hq', rfl, .inl rfl⟩
  | @crash _ p hlive =>
    rcases World.live_put hq with ⟨rfl, rfl⟩ | ⟨-, hq'⟩
    · exact .inr ⟨p, hlive, rfl, .inl rfl⟩
    · exact .inr ⟨q, hq', rfl, .inl rfl⟩
  | @cancel _ p hlive =>
    rcases World.live_put hq with ⟨rfl, rfl⟩ | ⟨-, hq'⟩
    · exact .inr ⟨p, hlive, rfl, .inl rfl⟩
    · exact .inr ⟨q, hq', rfl, .inl rfl⟩
  | @again _ p st choice hlive ht =>
    rcases World.live_put hq with ⟨rfl, rfl⟩ | ⟨-, hq'⟩
    · exact .inr ⟨p, hlive, rfl, .inr (.inl ⟨st, ht, rfl⟩)⟩
    · exact .inr ⟨q, hq', rfl, .inl rfl⟩
  | @finish _ p o choice hlive ht =>
    rcases World.live_put hq with ⟨rfl, rfl⟩ | ⟨-, hq'⟩
    · exact .inr ⟨p, hlive, rfl, .inr (.inr (.inl ⟨o, ht, rfl⟩))⟩
    · exact .inr ⟨q, hq', rfl, .inl rfl⟩
  | @call _ p p' w'' c next r choice hlive ht ha =>
    obtain ⟨-, hprocesses, hconfig, -⟩ := answer_log ha
    rcases World.live_put hq with ⟨rfl, rfl⟩ | ⟨-, hq'⟩
    · exact .inr ⟨p, hlive, hconfig, .inr (.inr (.inr ⟨choice, c, next, r, rfl, ht, rfl⟩))⟩
    · rw [World.Live, hprocesses] at hq'
      exact .inr ⟨q, hq', rfl, .inl rfl⟩
  | @worker _ p p' id worker move broker hlive hw hm =>
    rcases World.live_put hq with ⟨rfl, rfl⟩ | ⟨-, hq'⟩
    · obtain ⟨hconfig, -, hthread⟩ := moveWorker_frame hm
      exact .inr ⟨p, hlive, hconfig, .inl hthread⟩
    · exact .inr ⟨q, hq', rfl, .inl rfl⟩

/-- The ledger of a process after a step. -/
inductive Follows (w : World) (label : Label) (ledgers : Nat → Ledger) (pid : Nat) : Ledger → Prop
  | same : Follows w label ledgers pid (ledgers pid)
  | start {config : EngineConfig} {start : Start} (hl : label = .launch pid config start) :
    Follows w label ledgers pid (start.ledger w.runID)
  | call {choice : Choice} {p p' : Process} {w' : World} {c : EngineCall}
    {next : EngineResult c → Round} {r : EngineResult c} (hl : label = .scheduler pid choice)
    (hlive : w.Live pid p) (ht : p.thread = .running (.call c next))
    (ha : answer choice pid p w c = some (r, p', w')) :
    Follows w label ledgers pid ((ledgers pid).note p.config w.runID c r)

theorem Follows.update {label : Label} (h : Follows w label ledgers pid g)
    (pid' : Nat) :
    Follows w label ledgers pid' (Function.update ledgers pid g pid') := by
  by_cases heq : pid' = pid
  · subst heq
    rw [Function.update_self]
    exact h
  · rw [Function.update_of_ne heq]
    exact .same

/-- Steps that neither start a process nor answer a call leave the ledgers as they are. -/
theorem Consistent.quiet {label : Label} (h : Consistent w ledgers) (hm : w.Moves label w')
    (hlaunch : ∀ pid config start, label ≠ .launch pid config start)
    (hcall : ∀ pid choice, label = .scheduler pid choice → w.pending pid = none) :
    Consistent w' ledgers := by
  cases hm with
  | launch config start hnone => exact absurd rfl (hlaunch _ config start)
  | @crash pid p hlive =>
    exact h.put { p with crashed := true } w.broker hlive rfl nofun (h.staffed pid p hlive)
  | @cancel pid p hlive =>
    exact h.put { p with canceled := true } w.broker hlive rfl (fun _ => h.safe pid p hlive)
      (h.staffed pid p hlive)
  | @again pid p st choice hlive ht =>
    have hsafe := h.safe pid p hlive
    rw [ht] at hsafe
    exact h.put { p with thread := .running (schedulerRound p.config st) } w.broker hlive
      rfl (fun _ => wp_schedulerRound hsafe) (h.staffed pid p hlive)
  | @finish pid p o choice hlive ht =>
    have hsafe := h.safe pid p hlive
    rw [ht] at hsafe
    exact h.put { p with thread := .finished o } w.broker hlive rfl (fun _ => hsafe)
      (h.staffed pid p hlive)
  | call hlive ht ha =>
    have hpending := hcall _ _ rfl
    rw [hlive.pending ht] at hpending
    cases hpending
  | worker hlive hw hm =>
    obtain ⟨hconfig, hcrashed, hthread⟩ := moveWorker_frame hm
    exact h.put _ _ hlive hconfig (fun _ => by rw [hthread]; exact h.safe _ _ hlive)
      ((h.staffed _ _ hlive).move hw hm)
  | transport broker =>
    exact ⟨h.chain, h.informed, h.safe, h.staffed, h.absent, h.published, h.owners, h.spent, h.once⟩

theorem pending_none (choice : Choice) (hlive : w.Live pid p) (ht : p.thread.pending = none) :
    ∀ pid' choice', Label.scheduler pid choice = .scheduler pid' choice' → w.pending pid' = none := by
  rintro pid' choice' ⟨⟩
  rw [World.pending, hlive.1]
  simp [hlive.2, ht]

theorem Consistent.step {label : Label} (h : Consistent w ledgers) (hm : w.Moves label w') :
    ∃ ledgers', Consistent w' ledgers' ∧ ∀ pid, Follows w label ledgers pid (ledgers' pid) := by
  cases hm with
  | launch config start hnone =>
    exact ⟨_, h.launch hnone config start, (Follows.start rfl).update⟩
  | call hlive ht ha => exact ⟨_, h.call hlive ht ha, (Follows.call rfl hlive ht ha).update⟩
  | again choice hlive ht =>
    exact ⟨ledgers, h.quiet (.again choice hlive ht) nofun
      (pending_none choice hlive (by rw [ht]; rfl)), fun _ => .same⟩
  | finish choice hlive ht =>
    exact ⟨ledgers, h.quiet (.finish choice hlive ht) nofun
      (pending_none choice hlive (by rw [ht]; rfl)), fun _ => .same⟩
  | crash hlive => exact ⟨ledgers, h.quiet (.crash hlive) nofun nofun, fun _ => .same⟩
  | cancel hlive => exact ⟨ledgers, h.quiet (.cancel hlive) nofun nofun, fun _ => .same⟩
  | worker hlive hw hm => exact ⟨ledgers, h.quiet (.worker hlive hw hm) nofun nofun, fun _ => .same⟩
  | transport broker => exact ⟨ledgers, h.quiet (.transport broker) nofun nofun, fun _ => .same⟩

/-- In every world reached from a store with or without the run, the schedulers
have ledgers that agree. -/
theorem World.Initial.reached {labels : List Label} (h : w.Initial)
    (hrun : w.run labels = some w') : ∃ ledgers, Consistent w' ledgers := by
  refine World.run_induction (P := fun w => ∃ ledgers, Consistent w ledgers) ?_
    ⟨_, h.consistent⟩ hrun
  rintro w label w' ⟨ledgers, hc⟩ hm
  obtain ⟨ledgers', hc', -⟩ := hc.step hm
  exact ⟨ledgers', hc'⟩

/-- A call about to be made meets its contract. -/
theorem Consistent.pending (h : Consistent w ledgers)
    (hp : w.pending pid = some c) : ∃ config, (ledgers pid).needs config w.runID c := by
  obtain ⟨p, next, hlive, hthread⟩ := World.pending_some hp
  have hsafe := h.safe pid p hlive
  rw [hthread] at hsafe
  exact ⟨p.config, hsafe.1⟩

end

end ForgeFlow.Execution
