import ForgeFlow.Execution.Guarantees

/-!
# No update is lost

However many schedulers save snapshots of a run, each stored snapshot was made from the
one stored just before it. A run that is over therefore stays over.
-/

namespace ForgeFlow.Execution

open ForgeFlow.Base ForgeFlow.Workflow

/-- The snapshot was made from the run the other one holds, by operations of the engine,
and has the next version. -/
def Succeeds (old new : WorkflowRunSnapshot) : Prop :=
  ∃ base ops, Stored old base ∧
    new = { (base.applyAll ops).snapshot with version := old.version + 1 }

/-! ## A run that is over -/

/-- No operation changes the status of a run that is over. -/
theorem apply_terminal {run : WorkflowRun} (h : run.status.terminal = true) (op : Operation) :
    (run.apply op).status = run.status := by
  -- a transition of the run would have to be legal
  have hrefused : ∀ (before : WorkflowRun) {target now r}, before.status = run.status →
      before.transitionWorkflow target now = .ok r → r.status = run.status := by
    intro before target now r hsame hr
    obtain ⟨hlegal, -⟩ := transitionWorkflow_ok hr
    rw [hsame] at hlegal
    revert hlegal h
    cases run.status <;> cases target <;> simp [legalWorkflowTransition, WorkflowRunStatus.terminal]
  cases op with
  | startWorkflow now =>
    exact orElse_induction (P := fun r => r.status = run.status) rfl fun _ hr => hrefused run rfl hr
  | succeed now =>
    exact orElse_induction (P := fun r => r.status = run.status) rfl fun _ hr => hrefused run rfl hr
  | stop target cause now now' =>
    rw [WorkflowRun.apply, stopRun]
    split
    · rfl
    · rename_i r hr
      exact hrefused (run.cancelUnfinished cause now) rfl hr
  | startTaskAttempt k w d now =>
    refine orElse_induction (P := fun r => r.status = run.status) rfl fun r hr => ?_
    obtain ⟨a, ha⟩ := map_fst_ok hr
    obtain ⟨-, -, t, -, -, -, rfl⟩ := startTaskAttempt_ok ha
    rfl
  | restore =>
    refine orElse_induction (P := fun r => r.status = run.status) rfl fun r hr => ?_
    obtain ⟨-, -, -, -, -, rfl⟩ := restoreWorkflowRun_ok hr
    rfl
  | persisted version => rfl
  | _ => exact (Operation.quiet_frame rfl run).1

theorem applyAll_terminal {run : WorkflowRun} (h : run.status.terminal = true)
    (ops : List Operation) : (run.applyAll ops).status = run.status := by
  induction ops generalizing run with
  | nil => rfl
  | cons op ops ih =>
    have hop := apply_terminal h op
    exact (ih (hop ▸ h)).trans hop

theorem Succeeds.terminal {old new : WorkflowRunSnapshot} (h : Succeeds old new)
    (hold : old.status.terminal = true) : new.status = old.status := by
  obtain ⟨base, ops, hstored, rfl⟩ := h
  rw [hstored.status] at hold ⊢
  exact applyAll_terminal hold ops

/-! ## What a step stores -/

variable {w w' : World} {labels : List Label}

/-- What a scheduler saves was made from the snapshot the store holds then. -/
theorem Consistent.succeeds {ledgers : Nat → Ledger} {pid : Nat} {config : EngineConfig}
    {s current : WorkflowRunSnapshot} {rest : List WorkflowRunSnapshot}
    (hc : Consistent w ledgers) (hneeds : (ledgers pid).needs config w.runID (.saveRun s))
    (hhistory : w.history = current :: rest) (hversion : s.version = current.version) :
    Succeeds current s.next := by
  obtain ⟨s₀, base, run, hstored, hs₀, ⟨ops, rfl, hv⟩, rfl, -⟩ := hneeds
  have hmem := (hc.informed pid).stored s₀ hstored
  have hcurrent : current ∈ w.history := hhistory ▸ List.mem_cons_self
  have heq : s₀.version = current.version := hs₀.version.trans (hv.symm.trans hversion)
  cases hc.chain.eq_of_version hmem hcurrent heq
  refine ⟨base, ops, hs₀, ?_⟩
  rw [← hversion]
  rfl

/-- A step stores nothing, creates the run, or stores a successor of the last snapshot. -/
theorem Consistent.stores {ledgers : Nat → Ledger} {label : Label} (hc : Consistent w ledgers)
    (hm : w.Moves label w') :
    w'.history = w.history ∨ (w.history = [] ∧ ∃ s, w'.history = [s]) ∨
      ∃ current new rest, w.history = current :: rest ∧ w'.history = new :: current :: rest ∧
        Succeeds current new := by
  cases hm with
  | @call pid p p' v'' c next r choice hlive ht ha =>
    rcases answer_stores ha with hsame | ⟨s, -, hnil, hnew⟩ |
      ⟨s, current, rest, rfl, hhistory, hversion, hnew⟩
    · exact .inl hsame
    · exact .inr (.inl ⟨hnil, s.next, hnew⟩)
    · -- the save that was accepted
      have hsafe := hc.safe pid p hlive
      rw [ht] at hsafe
      exact .inr (.inr ⟨current, s.next, rest, hhistory, hhistory ▸ hnew,
        hc.succeeds hsafe.1 hhistory hversion⟩)
  | _ => exact .inl rfl

/-- Every snapshot but the first was made from the one before it. -/
structure Serial (w : World) : Prop where
  consistent : ∃ ledgers, Consistent w ledgers
  chain : w.history.IsChain fun new old => Succeeds old new

theorem World.Initial.serial (h : w.Initial) : Serial w := by
  refine ⟨⟨_, h.consistent⟩, ?_⟩
  rcases h.history with hnil | ⟨s, hs, -⟩
  · rw [hnil]
    exact .nil
  · rw [hs]
    exact .singleton s

theorem Serial.run (h : Serial w) (hrun : w.run labels = some w') : Serial w' := by
  refine World.run_induction (P := Serial) ?_ h hrun
  rintro v label v' ⟨⟨ledgers, hc⟩, hchain⟩ hm
  refine ⟨(hc.step hm).imp fun _ hc' => hc'.1, ?_⟩
  rcases hc.stores hm with hsame | ⟨-, s, hs⟩ | ⟨current, new, rest, hold, hnew, hsucceeds⟩
  · rw [hsame]
    exact hchain
  · rw [hs]
    exact .singleton s
  · rw [hold] at hchain
    rw [hnew]
    exact List.isChain_cons_cons.mpr ⟨hsucceeds, hchain⟩

/-- However the schedulers of a run are interleaved, with crashes and with writes that
report an error although they took effect, each snapshot stored after another was made
from exactly that one. So attempts only grow in what is stored, and stay over. -/
theorem no_update_lost (h : w.Initial) (hrun : w.run labels = some w') :
    (w'.history.IsChain fun new old => Succeeds old new) ∧
      w'.history.Pairwise fun new old => Later old new := by
  obtain ⟨⟨ledgers, hc⟩, hchain⟩ := h.serial.run hrun
  exact ⟨hchain, hc.chain.later⟩

theorem sample_updates_kept : ∃ w',
    (sampleWorld (ascii "r")).run (firstResult (ascii "r") [ascii "a"]) = some w' ∧
    w'.history.length = 5 ∧ w'.history.IsChain fun new old => Succeeds old new := by
  obtain ⟨w', hrun, hlength⟩ := run_reaches (sampleWorld (ascii "r"))
    (firstResult (ascii "r") [ascii "a"]) (fun w' => w'.history.length = 5) (by decide +kernel)
  exact ⟨w', hrun, hlength, (no_update_lost (sampleWorld_initial _) hrun).1⟩

/-- A run stored as over has that status in the last snapshot. -/
theorem ended_to_last {history : List WorkflowRunSnapshot} {s : WorkflowRunSnapshot}
    (hchain : history.IsChain fun new old => Succeeds old new) (hs : s ∈ history)
    (hended : s.status.terminal = true) :
    ∃ last, history.head? = some last ∧ last.status = s.status := by
  induction hchain with
  | nil => cases hs
  | singleton last =>
    rw [List.mem_singleton.mp hs]
    exact ⟨last, rfl, rfl⟩
  | @cons_cons new old rest hsucceeds _ ih =>
    rcases List.mem_cons.mp hs with rfl | hs
    · exact ⟨s, rfl, rfl⟩
    · obtain ⟨last, hlast, hstatus⟩ := ih hs
      cases hlast
      exact ⟨new, rfl, (hsucceeds.terminal (hstatus ▸ hended)).trans hstatus⟩

end ForgeFlow.Execution
