import Mathlib.Logic.Function.Basic
import Mathlib.Data.List.Basic

/-!
# Machines with outputs

A machine takes a state and an input to the next state and an output. Its trace is the
list of its inputs with their outputs. A machine that keeps one state for each key gives
each key the trace the single machine has on the key's own inputs.
-/

namespace ForgeFlow.Base

variable {K S T I O : Type}

/-- The inputs with the outputs the machine gives them. -/
def trace (step : S → I → S × O) : S → List I → List (I × O)
  | _, [] => []
  | s, i :: rest => (i, (step s i).2) :: trace step (step s i).1 rest

/-- The state after a list of inputs. -/
def stateAfter (step : S → I → S × O) (s : S) (inputs : List I) : S :=
  inputs.foldl (fun s i => (step s i).1) s

theorem stateAfter_snoc (step : S → I → S × O) (s : S) (inputs : List I) (i : I) :
    stateAfter step s (inputs ++ [i]) = (step (stateAfter step s inputs) i).1 := by
  simp [stateAfter]

theorem trace_snoc (step : S → I → S × O) (s : S) (inputs : List I) (i : I) :
    trace step s (inputs ++ [i]) =
      trace step s inputs ++ [(i, (step (stateAfter step s inputs) i).2)] := by
  induction inputs generalizing s with
  | nil => rfl
  | cons j rest ih => simp [trace, ih, stateAfter]

theorem trace_map_fst (step : S → I → S × O) (s : S) (inputs : List I) :
    (trace step s inputs).map Prod.fst = inputs := by
  induction inputs generalizing s with
  | nil => rfl
  | cons i rest ih => simp [trace, ih]

/-- Two machines give the same trace when their steps agree on related states. The relation
may speak of the inputs still to come. -/
theorem trace_eq_of_related {step : S → I → S × O} {step' : T → I → T × O}
    {R : S → T → List I → Prop}
    (hstep : ∀ s t i rest, R s t (i :: rest) →
      (step s i).2 = (step' t i).2 ∧ R (step s i).1 (step' t i).1 rest)
    {s : S} {t : T} {inputs : List I} (h : R s t inputs) :
    trace step s inputs = trace step' t inputs := by
  induction inputs generalizing s t with
  | nil => rfl
  | cons i rest ih =>
    obtain ⟨houtput, hrest⟩ := hstep s t i rest h
    rw [trace, trace, houtput, ih hrest]

variable [DecidableEq K]

/-- The machine that keeps one state for each key. -/
def stepAt (step : S → I → S × O) (states : K → S) (input : K × I) : (K → S) × O :=
  let (next, output) := step (states input.1) input.2
  (Function.update states input.1 next, output)

/-- The inputs of one key. -/
def inputsOf (key : K) (inputs : List (K × I)) : List I :=
  inputs.filterMap fun input => if input.1 = key then some input.2 else none

/-- The part of a trace that one key sees. -/
def traceOf (key : K) (entries : List ((K × I) × O)) : List (I × O) :=
  entries.filterMap fun entry => if entry.1.1 = key then some (entry.1.2, entry.2) else none

theorem traceOf_stepAt (step : S → I → S × O) (key : K) (states : K → S)
    (inputs : List (K × I)) :
    traceOf key (trace (stepAt step) states inputs) =
      trace step (states key) (inputsOf key inputs) := by
  induction inputs generalizing states with
  | nil => rfl
  | cons input rest ih =>
    have hrest := ih (stepAt step states input).1
    by_cases hkey : input.1 = key
    · simp only [traceOf, inputsOf, trace, stepAt, hkey, List.filterMap_cons, if_true] at hrest ⊢
      rw [hrest, Function.update_self]
    · simp only [traceOf, inputsOf, trace, stepAt, hkey, List.filterMap_cons, if_false] at hrest ⊢
      rw [hrest, Function.update_of_ne (Ne.symm hkey)]

end ForgeFlow.Base
