import Mathlib.Tactic.NormNum
import ForgeFlow.Base.GoString

/-!
# Workflow definitions and retry policies

Durations are signed 64-bit nanosecond counts, held as integers; the one product
the program forms is reduced to 64 bits explicitly. A slice remembers whether it
is nil, because structural comparison of definitions can tell.
-/

namespace ForgeFlow.Workflow

open ForgeFlow.Base

variable {delay : Int} {policy : RetryPolicy}

abbrev WorkflowID := GoString
abbrev TaskID := GoString
abbrev HandlerName := GoString

inductive Slice (α : Type) where
  | nil
  | of (elems : List α)
  deriving DecidableEq

/-- The elements, none for the nil slice. -/
def Slice.elems {α : Type} : Slice α → List α
  | .nil => []
  | .of l => l

/-- `append([]T(nil), s...)`: an empty slice comes out nil. -/
def Slice.clone {α : Type} (s : Slice α) : Slice α :=
  match s.elems with
  | [] => .nil
  | x :: l => .of (x :: l)

structure RetryPolicy where
  maxAttempts : Int
  initialBackoff : Int
  maxBackoff : Int
  deriving DecidableEq

namespace RetryPolicy

def effectiveMaxAttempts (policy : RetryPolicy) : Int :=
  if policy.maxAttempts = 0 then 1 else policy.maxAttempts

/-- The largest duration. -/
def maxDuration : Int := 2 ^ 63 - 1

/-- Two's complement reduction to 64 bits. -/
def wrapInt64 (x : Int) : Int := Int.bmod x (2 ^ 64)

/-- The doubling loop of `RetryDelay` with the given number of rounds left,
and the clamp behind it. -/
def retryDelayLoop (policy : RetryPolicy) : Nat → Int → Int
  | 0, delay =>
    if 0 < policy.maxBackoff ∧ policy.maxBackoff < delay then policy.maxBackoff else delay
  | rounds + 1, delay =>
    if 0 < policy.maxBackoff ∧ policy.maxBackoff ≤ delay then policy.maxBackoff
    else retryDelayLoop policy rounds
      (if maxDuration / 2 < delay then maxDuration else wrapInt64 (delay * 2))

def retryDelay (policy : RetryPolicy) (completedAttempt : Int) : Int :=
  if completedAttempt < 1 ∨ policy.initialBackoff ≤ 0 then 0
  else retryDelayLoop policy (completedAttempt - 1).toNat policy.initialBackoff

theorem half_maxDuration : maxDuration / 2 = 4611686018427387903 := by decide

/-- The test at half the maximum keeps the product inside 64 bits. -/
theorem double_exact (hpos : 0 < delay) (hle : delay ≤ maxDuration / 2) :
    wrapInt64 (delay * 2) = delay * 2 := by
  rw [half_maxDuration] at hle
  unfold wrapInt64
  rw [Int.bmod_eq_of_le] <;> norm_num <;> omega

theorem double_pos (hpos : 0 < delay) (hle : delay ≤ maxDuration / 2) :
    0 < wrapInt64 (delay * 2) := by
  rw [double_exact hpos hle]
  omega

theorem retryDelayLoop_pos (policy : RetryPolicy) :
    ∀ (rounds : Nat) (delay : Int), 0 < delay → 0 < retryDelayLoop policy rounds delay
  | 0, delay, h => by
    unfold retryDelayLoop
    split
    · rename_i hc
      exact hc.1
    · exact h
  | rounds + 1, delay, h => by
    unfold retryDelayLoop
    split
    · rename_i hc
      exact hc.1
    · apply retryDelayLoop_pos policy rounds
      split
      · decide
      · rename_i hle
        exact double_pos h (not_lt.mp hle)

/-- A delay is zero or positive, whatever the policy. -/
theorem retryDelay_nonneg (policy : RetryPolicy) (n : Int) : 0 ≤ policy.retryDelay n := by
  unfold retryDelay
  split
  · exact le_refl 0
  · rename_i h
    exact (retryDelayLoop_pos policy _ _ (by omega)).le

/-! ## The closed form -/

/-- The durations of the policy are values of the signed 64-bit type. -/
structure Durations64 (policy : RetryPolicy) : Prop where
  initialBackoff_ge : -2 ^ 63 ≤ policy.initialBackoff
  initialBackoff_le : policy.initialBackoff ≤ maxDuration
  maxBackoff_ge : -2 ^ 63 ≤ policy.maxBackoff
  maxBackoff_le : policy.maxBackoff ≤ maxDuration

/-- What no delay exceeds: the configured maximum, or else the largest duration. -/
def cap (policy : RetryPolicy) : Int :=
  if 0 < policy.maxBackoff then policy.maxBackoff else maxDuration

/-- Every product formed in the given number of rounds is a 64-bit value before
it is reduced. A round that returns, or that saturates, forms none. -/
def ProductsFit (policy : RetryPolicy) : Nat → Int → Prop
  | 0, _ => True
  | rounds + 1, delay =>
    (0 < policy.maxBackoff ∧ policy.maxBackoff ≤ delay) ∨
      if maxDuration / 2 < delay then ProductsFit policy rounds maxDuration
      else -2 ^ 63 ≤ delay * 2 ∧ delay * 2 ≤ maxDuration ∧ ProductsFit policy rounds (delay * 2)

theorem maxDuration_pos : 0 < maxDuration := by decide

theorem Durations64.cap_le (h : policy.Durations64) :
    policy.cap ≤ maxDuration := by
  unfold cap
  split
  · exact h.maxBackoff_le
  · exact le_refl _

theorem double_le (hle : delay ≤ maxDuration / 2) : delay * 2 ≤ maxDuration := by
  rw [half_maxDuration] at hle
  have hmax : maxDuration = 9223372036854775807 := by decide
  omega

theorem lt_double (hlt : maxDuration / 2 < delay) : maxDuration < delay * 2 := by
  rw [half_maxDuration] at hlt
  have hmax : maxDuration = 9223372036854775807 := by decide
  omega

theorem productsFit (policy : RetryPolicy) (rounds : Nat) :
    ∀ delay : Int, 0 < delay → policy.ProductsFit rounds delay := by
  induction rounds with
  | zero =>
    intro delay _
    trivial
  | succ rounds ih =>
    intro delay hpos
    refine Or.inr ?_
    split
    · exact ih maxDuration maxDuration_pos
    · rename_i hle
      exact ⟨by omega, double_le (not_lt.mp hle), ih (delay * 2) (by omega)⟩

theorem le_mul_two_pow (hpos : 0 < delay) (rounds : Nat) :
    delay ≤ delay * 2 ^ rounds :=
  le_mul_of_one_le_right hpos.le (one_le_pow₀ (by decide))

/-- The loop doubles without bound and then applies the cap: saturating early
cannot be told apart, because the cap is never above the saturated value. -/
theorem retryDelayLoop_eq (h : policy.Durations64) (rounds : Nat) :
    ∀ delay : Int, 0 < delay → delay ≤ maxDuration →
      policy.retryDelayLoop rounds delay = min policy.cap (delay * 2 ^ rounds) := by
  induction rounds with
  | zero =>
    intro delay _ hle
    unfold retryDelayLoop cap
    split <;> split <;> omega
  | succ rounds ih =>
    intro delay hpos hle
    have hgrows := le_mul_two_pow hpos (rounds + 1)
    unfold retryDelayLoop
    split
    · -- The early return: the cap was reached in an earlier round.
      rename_i hreached
      have hcap : policy.cap = policy.maxBackoff := if_pos hreached.1
      rw [hcap, min_eq_left (hreached.2.trans hgrows)]
    · have hcap := h.cap_le
      split
      · rename_i hlarge
        have hsat := le_mul_two_pow maxDuration_pos rounds
        have hdouble := lt_double hlarge
        have htwice : delay * 2 ≤ delay * 2 * 2 ^ rounds := le_mul_two_pow (by omega) rounds
        rw [ih maxDuration maxDuration_pos (le_refl _), min_eq_left (hcap.trans hsat), pow_succ',
          ← mul_assoc, min_eq_left (by omega)]
      · rename_i hsmall
        have hhalf := not_lt.mp hsmall
        rw [double_exact hpos hhalf, ih (delay * 2) (by omega) (double_le hhalf), pow_succ',
          ← mul_assoc]

/-- The delay after attempt `n`, over unbounded integers. -/
def cappedDoubling (policy : RetryPolicy) (n : Int) : Int :=
  if n < 1 ∨ policy.initialBackoff ≤ 0 then 0
  else min policy.cap (policy.initialBackoff * 2 ^ (n - 1).toNat)

theorem retryDelay_eq (h : policy.Durations64) (n : Int) :
    policy.retryDelay n = policy.cappedDoubling n := by
  unfold retryDelay cappedDoubling
  split
  · rfl
  · exact retryDelayLoop_eq h _ _ (by omega) h.initialBackoff_le

theorem cap_pos (policy : RetryPolicy) : 0 < policy.cap := by
  unfold cap
  split
  · assumption
  · exact maxDuration_pos

theorem cappedDoubling_nonneg (policy : RetryPolicy) (n : Int) : 0 ≤ policy.cappedDoubling n := by
  unfold cappedDoubling
  split
  · exact le_refl 0
  · rename_i hn
    have hgrows := le_mul_two_pow (not_le.mp (not_or.mp hn).2) (n - 1).toNat
    exact le_min policy.cap_pos.le (by omega)

theorem cappedDoubling_le_cap (policy : RetryPolicy) (n : Int) :
    policy.cappedDoubling n ≤ policy.cap := by
  unfold cappedDoubling
  split
  · exact policy.cap_pos.le
  · exact min_le_left _ _

theorem cappedDoubling_mono (policy : RetryPolicy) {n m : Int} (hnm : n ≤ m) :
    policy.cappedDoubling n ≤ policy.cappedDoubling m := by
  by_cases hn : n < 1 ∨ policy.initialBackoff ≤ 0
  · have hzero : policy.cappedDoubling n = 0 := if_pos hn
    rw [hzero]
    exact policy.cappedDoubling_nonneg m
  · have hm : ¬(m < 1 ∨ policy.initialBackoff ≤ 0) := by omega
    have hpow : (2 : Int) ^ (n - 1).toNat ≤ 2 ^ (m - 1).toNat :=
      pow_le_pow_right₀ (by decide) (by omega)
    unfold cappedDoubling
    rw [if_neg hn, if_neg hm]
    exact min_le_min_left _ (mul_le_mul_of_nonneg_left hpow (by omega))

/-- A delay is the initial backoff doubled once for each earlier retry, up to the
cap, exactly as over unbounded integers: no product leaves the 64-bit range, and
a later attempt never waits for less. -/
theorem retryDelay_capped_doubling (policy : RetryPolicy) (h : policy.Durations64) (n : Int) :
    policy.retryDelay n = policy.cappedDoubling n ∧
      0 ≤ policy.retryDelay n ∧ policy.retryDelay n ≤ maxDuration ∧
      (0 < policy.initialBackoff → policy.ProductsFit (n - 1).toNat policy.initialBackoff) ∧
      ∀ m, n ≤ m → policy.retryDelay n ≤ policy.retryDelay m := by
  refine ⟨retryDelay_eq h n, policy.retryDelay_nonneg n, ?_, productsFit policy _ _, ?_⟩
  · rw [retryDelay_eq h]
    exact (policy.cappedDoubling_le_cap n).trans h.cap_le
  · intro m hnm
    rw [retryDelay_eq h, retryDelay_eq h]
    exact policy.cappedDoubling_mono hnm

/-- Without a maximum the third delay of this policy saturates. -/
def unboundedPolicy : RetryPolicy := ⟨5, 2 ^ 61, 0⟩

theorem unboundedPolicy_saturates :
    unboundedPolicy.Durations64 ∧ unboundedPolicy.retryDelay 3 = maxDuration ∧
      unboundedPolicy.cappedDoubling 3 = maxDuration ∧
      unboundedPolicy.ProductsFit 2 (2 ^ 61) ∧
      unboundedPolicy.retryDelay 2 ≤ unboundedPolicy.retryDelay 3 := by
  have hdurations : unboundedPolicy.Durations64 := ⟨by decide, by decide, by decide, by decide⟩
  have hthird : unboundedPolicy.retryDelay 3 = maxDuration := by decide
  obtain ⟨heq, -, -, hfit, -⟩ := retryDelay_capped_doubling unboundedPolicy hdurations 3
  obtain ⟨-, -, -, -, hmono⟩ := retryDelay_capped_doubling unboundedPolicy hdurations 2
  exact ⟨hdurations, hthird, heq.symm.trans hthird, hfit (by decide), hmono 3 (by decide)⟩

end RetryPolicy

structure TaskDefinition where
  id : TaskID
  name : GoString
  dependencies : Slice TaskID
  handler : HandlerName
  input : GoString
  retry : RetryPolicy
  deriving DecidableEq

structure WorkflowDefinition where
  id : WorkflowID
  tasks : List TaskDefinition
  deriving DecidableEq

def cloneTaskDefinition (task : TaskDefinition) : TaskDefinition :=
  { task with dependencies := task.dependencies.clone }

/-- The copy both the engine and the stores keep: only the dependency slices
are built afresh. -/
def cloneDefinition (definition : WorkflowDefinition) : WorkflowDefinition :=
  { definition with tasks := definition.tasks.map cloneTaskDefinition }

@[simp] theorem Slice.elems_clone {α : Type} (s : Slice α) : s.clone.elems = s.elems := by
  unfold Slice.clone
  cases h : s.elems with
  | nil => rfl
  | cons x l => rfl

@[simp] theorem Slice.clone_clone {α : Type} (s : Slice α) : s.clone.clone = s.clone := by
  conv_lhs => rw [Slice.clone]
  rw [Slice.elems_clone]
  rfl

@[simp] theorem cloneDefinition_id (d : WorkflowDefinition) : (cloneDefinition d).id = d.id := rfl

@[simp] theorem cloneDefinition_clone (d : WorkflowDefinition) :
    cloneDefinition (cloneDefinition d) = cloneDefinition d := by
  simp [cloneDefinition, cloneTaskDefinition, Function.comp_def]

@[simp] theorem cloneDefinition_ids (d : WorkflowDefinition) :
    (cloneDefinition d).tasks.map TaskDefinition.id = d.tasks.map TaskDefinition.id := by
  simp [cloneDefinition, cloneTaskDefinition, Function.comp_def]

end ForgeFlow.Workflow
