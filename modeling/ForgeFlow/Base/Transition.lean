import Mathlib.Tactic.Common

/-!
# Runs of labelled transition functions

A step function takes a state and a label to the next state, if the label can be
taken there. A run takes a list of labels one after the other.
-/

namespace ForgeFlow.Base

variable {S L : Type} {step : S → L → Option S}

/-- The state after a list of labels. -/
def runLabels (step : S → L → Option S) (s : S) : List L → Option S
  | [] => some s
  | l :: rest => (step s l).bind fun s' => runLabels step s' rest

/-- Every step of the run meets the condition, in the state it is taken in. -/
def Meets (step : S → L → Option S) (condition : S → L → Prop) (s : S) : List L → Prop
  | [] => True
  | l :: rest => condition s l ∧ ∀ s', step s l = some s' → Meets step condition s' rest

instance decidableMeets {condition : S → L → Prop} [∀ s l, Decidable (condition s l)] :
    ∀ (s : S) (labels : List L), Decidable (Meets step condition s labels)
  | _, [] => isTrue trivial
  | s, l :: rest =>
    match hs : step s l with
    | none => decidable_of_iff (condition s l)
        ⟨fun hc => ⟨hc, fun _ h => by simp [hs] at h⟩, fun h => h.1⟩
    | some s' =>
      have : Decidable (Meets step condition s' rest) := decidableMeets s' rest
      decidable_of_iff (condition s l ∧ Meets step condition s' rest)
        ⟨fun h => ⟨h.1, fun s'' h' => by
          rw [hs] at h'
          cases h'
          exact h.2⟩, fun h => ⟨h.1, h.2 s' hs⟩⟩

theorem runLabels_cons {s s' : S} {l : L} {rest : List L} :
    runLabels step s (l :: rest) = some s' ↔
      ∃ t, step s l = some t ∧ runLabels step t rest = some s' := Option.bind_eq_some_iff

/-- A run that can be computed ends in a state that can be looked at. -/
theorem exists_of_runLabels (step : S → L → Option S) (s : S) (labels : List L) (p : S → Prop)
    [DecidablePred p]
    (h : (runLabels step s labels).any (fun t => p t) = true) :
    ∃ t, runLabels step s labels = some t ∧ p t := by
  obtain ⟨t, ht, hp⟩ := (Option.any_eq_true _ _).mp h
  exact ⟨t, ht, of_decide_eq_true hp⟩

/-- What every step that meets the condition keeps, the whole run keeps. -/
theorem Meets.invariant {condition : S → L → Prop} {I : S → Prop}
    (hstep : ∀ s l s', condition s l → step s l = some s' → I s → I s') {labels : List L} {s s' : S}
    (hc : Meets step condition s labels) (hs : I s) (hrun : runLabels step s labels = some s') :
    I s' := by
  induction labels generalizing s with
  | nil =>
    cases hrun
    exact hs
  | cons l rest ih =>
    obtain ⟨t, ht, hrest⟩ := runLabels_cons.mp hrun
    exact ih (hc.2 t ht) (hstep s l t hc.1 ht hs) hrest

/-- What a run has in the end and had not in the beginning, one of its steps brought. -/
theorem Meets.brought {condition : S → L → Prop} {I : S → Prop}
    (hstep : ∀ s l s', condition s l → step s l = some s' → I s → I s') {P : S → Prop}
    {labels : List L} {s s' : S} (hc : Meets step condition s labels) (hs : I s)
    (hrun : runLabels step s labels = some s') (hP : P s') :
    P s ∨ ∃ before l after t t', labels = before ++ l :: after ∧
      runLabels step s before = some t ∧ step t l = some t' ∧ I t ∧ condition t l ∧
        ¬ P t ∧ P t' := by
  induction labels generalizing s with
  | nil =>
    cases hrun
    exact .inl hP
  | cons l rest ih =>
    obtain ⟨t, ht, hrest⟩ := runLabels_cons.mp hrun
    rcases ih (hc.2 t ht) (hstep s l t hc.1 ht hs) hrest with
      hPt | ⟨before, l', after, u, u', rfl, hu, hlast⟩
    · by_cases hPs : P s
      · exact .inl hPs
      · exact .inr ⟨[], l, rest, s, t, rfl, rfl, ht, hs, hc.1, hPs, hPt⟩
    · exact .inr ⟨l :: before, l', after, u, u', rfl, runLabels_cons.mpr ⟨t, ht, hu⟩, hlast⟩

theorem meets_of_forall {condition : S → L → Prop} {labels : List L}
    (h : ∀ l ∈ labels, ∀ s, condition s l) (s : S) : Meets step condition s labels := by
  induction labels generalizing s with
  | nil => trivial
  | cons l rest ih =>
    refine ⟨h l List.mem_cons_self s, fun s' _ => ih (fun l' hl' => h l' ?_) s'⟩
    exact List.mem_cons_of_mem _ hl'

/-- What every step keeps, a run keeps. -/
theorem run_invariant {I : S → Prop} (hstep : ∀ s l s', step s l = some s' → I s → I s')
    {labels : List L} {s s' : S} (hs : I s) (hrun : runLabels step s labels = some s') : I s' :=
  Meets.invariant (fun s l s' _ => hstep s l s') (meets_of_forall (fun _ _ _ => trivial) s) hs hrun

end ForgeFlow.Base
