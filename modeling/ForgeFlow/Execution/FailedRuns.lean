import ForgeFlow.Execution.Conducted

/-!
# Runs that are stored as failed

A run is stored as failed for a task that failed, unless a save did not take effect
that only put tasks up for another attempt. The scheduler then takes the run for
failed, and nothing has been stored that would keep it from saying so.
-/

namespace ForgeFlow.Execution

open ForgeFlow.Base ForgeFlow.Workflow

variable {choice : Choice} {c : EngineCall}

/-! ## Saves that do not take effect -/

/-- A save that only puts tasks of the stored run up for another attempt takes effect. -/
def ReleasesTake (w : World) (label : Label) : Prop :=
  ∀ pid choice x head, label = .scheduler pid choice → w.pending pid = some (.saveRun x) →
    w.history.head? = some head → x.version = head.version → Releases head x →
    (w.saveRun x).isOk = true ∧ (choice = .go ∨ ∃ text, choice = .fail text true)

/-- A snapshot was stored after the one the scheduler knows. -/
def Outdated (history : List WorkflowRunSnapshot) (g : Ledger) : Prop :=
  ∃ s, g.stored = some s ∧ ∃ s' ∈ history, s.version < s'.version

/-- A failed run has a failed task. -/
def WorkflowRunSnapshot.Answers (s : WorkflowRunSnapshot) : Prop :=
  s.status = .failed → ∃ t ∈ s.tasks, t.status = .failed

structure Answerable (w : World) (conducts : Nat → Conduct) : Prop where
  answers : ∀ s ∈ w.history, s.Answers
  outdated : ∀ pid, (conducts pid).spoiled → Outdated w.history (conducts pid).books

section

variable {w w' : World} {conducts : Nat → Conduct} {label : Label} {pid : Nat} {p p' : Process}
  {config : EngineConfig} {g : Conduct} {x s : WorkflowRunSnapshot}

theorem Outdated.mono {history history' : List WorkflowRunSnapshot} {g : Ledger}
    (h : Outdated history g) (hmem : ∀ s ∈ history, s ∈ history') : Outdated history' g := by
  obtain ⟨s, hs, s', hs', hlt⟩ := h
  exact ⟨s, hs, s', hmem s' hs', hlt⟩

/-- A scheduler whose knowledge is outdated stores nothing. -/
theorem Conducted.not_outdated (hc : Conducted w conducts) (hlive : w.Live pid p)
    {next : EngineResult (.saveRun x) → Round} (ht : p.thread = .running (.call (.saveRun x) next))
    {current : WorkflowRunSnapshot} {rest : List WorkflowRunSnapshot}
    (hhistory : w.history = current :: rest) (hv : x.version = current.version) :
    ¬Outdated w.history (conducts pid).books := by
  rintro ⟨s, hs, s', hs', hlt⟩
  have hchain := hc.consistent.chain
  cases (hc.saving hlive ht hhistory hv).1.symm.trans hs
  rw [hhistory] at hchain hs'
  rcases hchain.head hs' with rfl | hl
  · exact lt_irrefl _ hlt
  · exact lt_asymm hlt hl.version

/-- What is stored answers for a failed run. -/
theorem Answerable.stored (h : Answerable w conducts) (hc : Conducted w conducts)
    {next : EngineResult c → Round} {r : EngineResult c} (hlive : w.Live pid p)
    (ht : p.thread = .running (.call c next)) (ha : answer choice pid p w c = some (r, p', w')) :
    ∀ s ∈ w'.history, s.Answers := by
  have hsafe := hc.safe pid p hlive
  rw [ht] at hsafe
  have howes := hsafe.1
  intro s hs
  -- only the creation and a save add to the history
  rcases answer_stores ha with hsame | ⟨x, rfl, -, hnew⟩ |
    ⟨x, current, rest, rfl, hhistory, hv, hnew⟩
  · rw [hsame] at hs
    exact h.answers s hs
  · rw [hnew] at hs
    cases List.mem_singleton.mp hs
    exact fun hfailed => absurd hfailed howes
  · rw [hnew] at hs
    rcases List.mem_cons.mp hs with rfl | hs
    · exact fun hfailed => (howes.1 hfailed).resolve_right fun hspoiled =>
        hc.not_outdated hlive ht hhistory hv (h.outdated pid hspoiled)
    · exact h.answers s hs

/-- A save that only put tasks up for another attempt failed: something else has been stored. -/
theorem Conducted.spoiled (h : Conducted w conducts) {e : GoString}
    {next : EngineResult (.saveRun x) → Round}
    (htake : ReleasesTake w (.scheduler pid choice)) (hlive : w.Live pid p)
    (ht : p.thread = .running (.call (.saveRun x) next))
    (ha : answer choice pid p w (.saveRun x) = some (.error e, p', w'))
    (hs : (conducts pid).books.stored = some s) (hreleases : Releases s x) :
    ∃ s' ∈ w'.history, s.version < s'.version := by
  have hledger := h.consistent.safe pid p hlive
  rw [ht] at hledger
  have hversion := needs_version hledger.1 hs
  have hmem := (h.consistent.informed pid).stored s hs
  have hchain := h.consistent.chain
  cases hhistory : w.history with
  | nil =>
    rw [hhistory] at hmem
    cases hmem
  | cons head rest =>
    have hkept := (World.Moves.call hlive ht ha).history.2 head
      (by rw [hhistory]; exact List.mem_cons_self)
    rw [hhistory] at hmem hchain
    rcases hchain.head hmem with rfl | hlater
    · obtain ⟨hok, hchoice⟩ := htake pid choice x s rfl (hlive.pending ht) (by rw [hhistory]; rfl)
        hversion hreleases
      obtain ⟨-, hattempt⟩ := attempt_map ha
      cases hsave : w.saveRun x with
      | error e =>
        rw [hsave] at hok
        cases hok
      | ok q =>
        rw [hsave] at hattempt
        rcases hchoice with rfl | ⟨text, rfl⟩ <;> cases hattempt
        obtain ⟨-, -, -, -, hstored, hw⟩ := World.saveRun_ok hsave
        refine ⟨q.1, by rw [hw]; exact List.mem_cons_self, ?_⟩
        rw [hstored, ← hversion]
        exact Nat.lt_succ_self _
    · exact ⟨head, hkept, hlater.version⟩

/-- A scheduler that was spoiled learns nothing more. -/
theorem Answerable.outdated_call (h : Answerable w conducts) (hc : Conducted w conducts)
    {next : EngineResult c → Round} {r : EngineResult c}
    (htake : ReleasesTake w (.scheduler pid choice)) (hlive : w.Live pid p)
    (ht : p.thread = .running (.call c next)) (ha : answer choice pid p w c = some (r, p', w'))
    (hspoiled : ((conducts pid).note p.config w.runID c r).spoiled) :
    Outdated w'.history ((conducts pid).note p.config w.runID c r).books := by
  have hgrown := (World.Moves.call hlive ht ha).history.2
  rcases hspoiled with hold | hnew
  · have houtdated := h.outdated pid hold
    by_cases hstoring : c.storing = false
    · obtain ⟨s, hs, hlater⟩ := houtdated.mono hgrown
      exact ⟨s, (note_kept p.config w.runID (conducts pid).books hstoring).1.trans hs, hlater⟩
    · cases c with
      | createRun x =>
        rcases Choice.attempt_cases (attempt_map ha).2 with ⟨a, hok, -⟩ | ⟨-, e, rfl⟩
        · obtain ⟨s, -, s', hs', -⟩ := houtdated
          rw [(World.createRun_ok hok).1] at hs'
          cases hs'
        · exact houtdated.mono hgrown
      | saveRun x =>
        rcases Choice.attempt_cases (attempt_map ha).2 with ⟨a, hok, -⟩ | ⟨-, e, rfl⟩
        · obtain ⟨current, rest, hhistory, hv, -⟩ := World.saveRun_ok hok
          exact absurd houtdated (hc.not_outdated hlive ht hhistory hv)
        · exact houtdated.mono hgrown
      | loadRun id =>
        have hsafe := hc.safe pid p hlive
        rw [ht] at hsafe
        exact absurd hold hsafe.1
      | _ => exact absurd rfl hstoring
  · cases c with
    | saveRun x =>
      cases r with
      | ok _ => cases hnew
      | error e =>
        obtain ⟨s, hs, hreleases⟩ := hnew
        exact ⟨s, hs, hc.spoiled htake hlive ht ha hs hreleases⟩
    | _ => cases hnew

theorem Answerable.call (h : Answerable w conducts) (hc : Conducted w conducts)
    {next : EngineResult c → Round} {r : EngineResult c}
    (htake : ReleasesTake w (.scheduler pid choice)) (hlive : w.Live pid p)
    (ht : p.thread = .running (.call c next)) (ha : answer choice pid p w c = some (r, p', w')) :
    Answerable (w'.put pid { p' with thread := .running (next r) })
      (Function.update conducts pid ((conducts pid).note p.config w.runID c r)) := by
  have hm := World.Moves.call hlive ht ha
  refine ⟨fun s hs => h.stored hc hlive ht ha s hs, fun pid' hspoiled => ?_⟩
  by_cases heq : pid' = pid
  · subst heq
    rw [Function.update_self] at hspoiled ⊢
    show Outdated w'.history _
    exact h.outdated_call hc htake hlive ht ha hspoiled
  · rw [Function.update_of_ne heq] at hspoiled ⊢
    exact (h.outdated pid' hspoiled).mono hm.history.2

theorem Answerable.launch (h : Answerable w conducts) (config : EngineConfig) (start : Start) :
    Answerable (w.put pid { config := config, thread := start.thread config w.runID })
      (Function.update conducts pid { books := start.ledger w.runID }) := by
  refine ⟨h.answers, fun pid' hspoiled => ?_⟩
  by_cases heq : pid' = pid
  · subst heq
    rw [Function.update_self] at hspoiled
    exact hspoiled.elim
  · rw [Function.update_of_ne heq] at hspoiled ⊢
    exact h.outdated pid' hspoiled

theorem Answerable.step {conducts' : Nat → Conduct} (h : Answerable w conducts)
    (hc : Conducted w conducts) (htake : ReleasesTake w label)
    (hm : ConductMoves w conducts label w' conducts') : Answerable w' conducts' := by
  cases hm with
  | launch config start _ => exact h.launch config start
  | call hlive ht ha => exact h.call hc htake hlive ht ha
  | quiet hm _ hcall =>
    have hhistory := hm.stores_nothing hcall
    exact ⟨hhistory ▸ h.answers, hhistory ▸ h.outdated⟩

/-- In every run in which the saves take effect that only put tasks up for another
attempt, every run stored as failed has a failed task. -/
theorem failed_runs_have_failed_tasks {labels : List Label} (h : w.Initial)
    (hv : w.validating = true) (hfirst : ∀ s ∈ w.history, s.Answers)
    (htake : w.Meets ReleasesTake labels) (hrun : w.run labels = some w') :
    ∀ s ∈ w'.history, s.status = .failed → ∃ t ∈ s.tasks, t.status = .failed := by
  have hinitial : Answerable w fun _ => { books := {} } :=
    ⟨hfirst, fun _ => False.elim⟩
  obtain ⟨-, conducts, -, hanswerable⟩ := h.conducted.reached hv hinitial
    (fun _ _ _ _ _ htake hc _ hm h => Answerable.step h hc htake hm) htake hrun
  exact hanswerable.answers

end

/-- The save a process is about to make takes effect, if it makes one. -/
def World.savesTake (w : World) : Label → Bool
  | .scheduler pid choice =>
    match w.saving pid with
    | none => true
    | some x =>
      (w.saveRun x).isOk &&
        match choice with
        | .go => true
        | _ => false
  | _ => true

theorem World.savesTake_sound {w : World} {label : Label} (h : w.savesTake label = true) :
    ReleasesTake w label := by
  rintro pid choice x head rfl hpending - - -
  have hsaving : w.saving pid = some x := by
    rw [World.saving, hpending]
  simp only [World.savesTake, hsaving, Bool.and_eq_true] at h
  refine ⟨h.1, ?_⟩
  cases choice with
  | go => exact .inl rfl
  | _ => cases h.2

/-- The only task of a run fails for good, and the run with it. -/
def taskFails : List Label :=
  firstClaim (ascii "r") [ascii "a"] ++ schedulerSteps 0 [.clock 5, .go, .go] ++
    workerSteps 0 (workerIDFor sampleConfig (ascii "r") 1 1)
      [.takeAnswer, .finish [] (some { text := ascii "e" }), .sendResult] ++
    schedulerSteps 0 [.go, .go, .clock 5, .clock 5, .take .result, .go, .clock 5, .go, .go, .go] ++
    workerSteps 0 (workerIDFor sampleConfig (ascii "r") 1 1) [.leave] ++
    schedulerSteps 0 [.go, .clock 5, .clock 5, .go]

theorem taskFails_stored : ∃ w' s, (sampleWorld (ascii "r")).run taskFails = some w' ∧
    w'.history.head? = some s ∧ s.status = .failed ∧ ∃ t ∈ s.tasks, t.status = .failed := by
  obtain ⟨w', hrun, hstatus⟩ := run_reaches (sampleWorld (ascii "r")) taskFails
    (fun w' => w'.history.head?.map WorkflowRunSnapshot.status = some .failed) (by decide +kernel)
  obtain ⟨s, hs, hfailed⟩ := Option.map_eq_some_iff.mp hstatus
  have hmeets : (sampleWorld (ascii "r")).Meets (fun w label => w.savesTake label = true)
      taskFails := by decide +kernel
  exact ⟨w', s, hrun, hs, hfailed, failed_runs_have_failed_tasks (sampleWorld_initial _) rfl nofun
    (hmeets.mono fun _ _ => World.savesTake_sound) hrun s (List.mem_of_mem_head? hs) hfailed⟩

/-- The save that makes the first task ready fails without effect; the save that marks
the run as failed for it succeeds. -/
def entrySaveFails : List Label :=
  .launch 0 sampleConfig (.execute ⟨ascii "w", [sampleTask (ascii "a")]⟩) ::
    schedulerSteps 0 [.clock 5, .go, .go, .go, .clock 5, .go, .clocks fun _ => 5,
      .fail (ascii "disk full") false, .clock 5, .clock 5, .go]

theorem entrySaveFails_stored : ∃ w', (sampleWorld (ascii "r")).run entrySaveFails = some w' ∧
    w'.history.head?.map (fun s => (s.status, s.tasks.map TaskRun.status)) =
      some (.failed, [.canceled]) :=
  run_reaches _ _ _ (by decide +kernel)

end ForgeFlow.Execution
