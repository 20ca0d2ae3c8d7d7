import Mathlib.Tactic.Common

/-!
# Chains of checks that stop at the first error

Validation code is a list of conditions, each with the error it returns. The
chain accepts exactly when no condition holds; sequencing and iteration follow.
-/

namespace ForgeFlow.Base

variable {ε α β : Type}

/-- Return the error of the first condition that holds. -/
def firstError : List (Bool × ε) → Except ε Unit
  | [] => .ok ()
  | (bad, e) :: rest => if bad then .error e else firstError rest

@[simp] theorem firstError_nil : firstError ([] : List (Bool × ε)) = .ok () := rfl

@[simp] theorem firstError_cons (bad : Bool) (e : ε) (rest : List (Bool × ε)) :
    firstError ((bad, e) :: rest) = .ok () ↔ bad = false ∧ firstError rest = .ok () := by
  cases bad <;> simp [firstError]

/-- The error of a chain is one of its errors. -/
theorem mem_of_firstError {e : ε} : ∀ {checks : List (Bool × ε)},
    firstError checks = .error e → e ∈ checks.map Prod.snd
  | (bad, e') :: rest, h => by
    cases bad with
    | true =>
      cases h
      exact List.mem_cons_self
    | false => exact List.mem_cons_of_mem _ (mem_of_firstError h)

/-- Run a check on every element in order. -/
def checkAll (check : α → Except ε Unit) : List α → Except ε Unit
  | [] => .ok ()
  | x :: rest => (check x).bind fun _ => checkAll check rest

/-- A value that has to be there. -/
def required (value : Option α) (e : ε) : Except ε α :=
  match value with
  | some a => .ok a
  | none => .error e

@[simp] theorem required_ok_iff {value : Option α} {e : ε} {a : α} :
    required value e = .ok a ↔ value = some a := by
  cases value <;> simp [required]

theorem map_eq_ok {x : Except ε α} {f : α → β} {b : β} :
    x.map f = .ok b ↔ ∃ a, x = .ok a ∧ f a = b := by
  cases x with
  | error e => simp [Except.map]
  | ok a => simp [Except.map]

theorem bind_eq_ok {x : Except ε α} {f : α → Except ε β} {b : β} :
    x.bind f = .ok b ↔ ∃ a, x = .ok a ∧ f a = .ok b := by
  cases x with
  | error e => simp [Except.bind]
  | ok a => simp [Except.bind]

theorem bind_eq_error {x : Except ε α} {f : α → Except ε β} {e : ε} :
    x.bind f = .error e ↔ x = .error e ∨ ∃ a, x = .ok a ∧ f a = .error e := by
  cases x with
  | error e' => simp [Except.bind]
  | ok a => simp [Except.bind]

/-- The same for a block. -/
theorem do_eq_ok {x : Except ε α} {f : α → Except ε β} {b : β} :
    (x >>= f) = .ok b ↔ ∃ a, x = .ok a ∧ f a = .ok b := bind_eq_ok

@[simp] theorem ok_do (a : α) (f : α → Except ε β) : (Except.ok a >>= f) = f a := rfl

@[simp] theorem error_do (e : ε) (f : α → Except ε β) :
    ((Except.error e : Except ε α) >>= f) = .error e := rfl

theorem do_unit_eq_ok {x : Except ε Unit} {f : Unit → Except ε β} {b : β} :
    (x >>= f) = .ok b ↔ x = .ok () ∧ f () = .ok b := by
  rw [do_eq_ok]
  exact ⟨fun ⟨_, hx, hf⟩ => ⟨hx, hf⟩, fun ⟨hx, hf⟩ => ⟨(), hx, hf⟩⟩

@[simp] theorem bind_unit_ok_iff {x : Except ε Unit} {f : Unit → Except ε β} {b : β} :
    x.bind f = .ok b ↔ x = .ok () ∧ f () = .ok b := by
  rw [bind_eq_ok]
  constructor
  · rintro ⟨_, hx, hf⟩
    exact ⟨hx, hf⟩
  · rintro ⟨hx, hf⟩
    exact ⟨(), hx, hf⟩

/-- A check that passes can be dropped from the chain. -/
theorem bind_of_ok {x : Except ε Unit} (h : x = .ok ()) (f : Unit → Except ε β) :
    x.bind f = f () := by
  rw [h]
  rfl

@[simp] theorem mapError_ok_iff {ε' : Type} {x : Except ε α} {f : ε → ε'} {a : α} :
    x.mapError f = .ok a ↔ x = .ok a := by
  cases x <;> simp [Except.mapError]

@[simp] theorem checkAll_ok_iff (check : α → Except ε Unit) :
    ∀ l : List α, checkAll check l = .ok () ↔ ∀ x ∈ l, check x = .ok ()
  | [] => by simp [checkAll]
  | x :: rest => by
    rw [checkAll, bind_unit_ok_iff, checkAll_ok_iff check rest]
    simp

/-- A loop none of whose passes fails, each under what the passes before it keep for the
rest of the list. -/
theorem foldlM_ok {f : β → α → Except ε β} {g : β → α → β} {I : β → List α → Prop}
    (hstep : ∀ b a rest, I b (a :: rest) → f b a = .ok (g b a) ∧ I (g b a) rest) :
    ∀ (l : List α) (b : β), I b l → l.foldlM f b = .ok (l.foldl g b)
  | [], _, _ => rfl
  | a :: rest, b, h => by
    obtain ⟨hf, hrest⟩ := hstep b a rest h
    rw [List.foldlM_cons, hf, List.foldl_cons]
    exact foldlM_ok hstep rest (g b a) hrest

/-- A loop that comes to its end has passed every element. -/
theorem foldlM_passed {f : β → α → Except ε β} : ∀ {l : List α} {b b' : β},
    l.foldlM f b = .ok b' → ∀ a ∈ l, ∃ b₁ b₂, f b₁ a = .ok b₂
  | [], _, _, _ => by simp
  | a :: rest, b, b', h => by
    rw [List.foldlM_cons] at h
    obtain ⟨b₁, hstep, hrest⟩ := do_eq_ok.mp h
    exact List.forall_mem_cons.mpr ⟨⟨b, b₁, hstep⟩, foldlM_passed hrest⟩

end ForgeFlow.Base
