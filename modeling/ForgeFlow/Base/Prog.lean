import Mathlib.Tactic.Common

/-!
# Programs that make calls

A program is a value or a call together with what to do for each result. A
contract gives a meaning to the calls: with some ghost state it says what a call
needs and what may be assumed of its result. A thread runs a loop body over and
over, one call at a time, until the body says it is done.
-/

namespace ForgeFlow.Base

inductive Prog (Call : Type) (Result : Call → Type) (α : Type) : Type where
  | ret (value : α)
  | call (c : Call) (next : Result c → Prog Call Result α)

namespace Prog

variable {Call : Type} {Result : Call → Type} {α β G : Type}

def bind : Prog Call Result α → (α → Prog Call Result β) → Prog Call Result β
  | ret a, f => f a
  | call c next, f => call c fun r => (next r).bind f

instance : Monad (Prog Call Result) where
  pure := ret
  bind := bind

/-- Make one call and return its result. -/
def perform (c : Call) : Prog Call Result (Result c) := call c ret

end Prog

/-- What calls need and what is known of their results. -/
structure Contract (Call : Type) (Result : Call → Type) (G : Type) where
  spec : G → (c : Call) → (Result c → G → Prop) → Prop
  mono : ∀ {g c} {P Q : Result c → G → Prop}, (∀ r g', P r g' → Q r g') → spec g c P → spec g c Q

/-- The contract of calls that need something, return something expected, and are
noted in the ghost state. -/
def Contract.of {Call : Type} {Result : Call → Type} {G : Type} (needs : G → Call → Prop)
    (expects : G → (c : Call) → Result c → Prop) (note : G → (c : Call) → Result c → G) :
    Contract Call Result G where
  spec g c Q := needs g c ∧ ∀ r, expects g c r → Q r (note g c r)
  mono h hspec := ⟨hspec.1, fun r hr => h r _ (hspec.2 r hr)⟩

namespace Prog

variable {Call : Type} {Result : Call → Type} {α β G : Type}
  {C : Contract Call Result G} {P Q : α → G → Prop} {g : G}

/-- Every run of the program from the ghost state keeps to the contract and, if it
ends, ends in the postcondition. -/
def wp (C : Contract Call Result G) : Prog Call Result α → (α → G → Prop) → G → Prop
  | ret a, Q, g => Q a g
  | call c next, Q, g => C.spec g c fun r g' => (next r).wp C Q g'

@[simp] theorem wp_ret (a : α) : (ret a : Prog Call Result α).wp C Q g ↔ Q a g := Iff.rfl

@[simp] theorem wp_pure (a : α) : (pure a : Prog Call Result α).wp C Q g ↔ Q a g := Iff.rfl

@[simp] theorem wp_perform (c : Call) {Q : Result c → G → Prop} :
    (perform c : Prog Call Result (Result c)).wp C Q g ↔ C.spec g c Q := Iff.rfl

theorem wp_mono (h : ∀ a g, P a g → Q a g) :
    ∀ {p : Prog Call Result α} {g : G}, p.wp C P g → p.wp C Q g
  | ret a, g, hp => h a g hp
  | call _ _, _, hp => C.mono (fun _ _ hr => wp_mono h hr) hp

theorem wp_bind {f : α → Prog Call Result β} {Q : β → G → Prop} :
    ∀ {p : Prog Call Result α} {g : G}, (p >>= f).wp C Q g ↔ p.wp C (fun a g => (f a).wp C Q g) g
  | ret _, _ => Iff.rfl
  | call _ _, _ =>
    ⟨C.mono fun _ _ h => wp_bind.mp h, C.mono fun _ _ h => wp_bind.mpr h⟩

theorem wp_perform_bind {c : Call} {f : Result c → Prog Call Result β} {Q : β → G → Prop} :
    (perform c >>= f).wp C Q g ↔ C.spec g c fun r g' => (f r).wp C Q g' := Iff.rfl

/-- Prove the first part up to an intermediate fact and go on from there. -/
theorem wp_seq {f : α → Prog Call Result β} {Q : β → G → Prop} {p : Prog Call Result α}
    (hp : p.wp C P g) (hf : ∀ a g, P a g → (f a).wp C Q g) : (p >>= f).wp C Q g :=
  wp_bind.mpr (wp_mono hf hp)

section

variable {G' : Type} {needs : G → Call → Prop} {expects : G → (c : Call) → Result c → Prop}
  {note : G → (c : Call) → Result c → G}

/-- What a program ends with under one contract it also ends with under another that
expects no less of the results and notes the same. -/
theorem wp_with {needs' : G' → Call → Prop} {expects' : G' → (c : Call) → Result c → Prop}
    {note' : G' → (c : Call) → Result c → G'} (view : G' → G)
    (hexpects : ∀ g c r, expects' g c r → expects (view g) c r)
    (hnote : ∀ g c r, view (note' g c r) = note (view g) c r) {Q : α → G' → Prop} :
    ∀ {p : Prog Call Result α} {g : G'}, p.wp (Contract.of needs expects note) P (view g) →
      p.wp (Contract.of needs' expects' note') Q g →
      p.wp (Contract.of needs' expects' note') (fun a g => P a (view g) ∧ Q a g) g
  | ret _, _, hP, hQ => ⟨hP, hQ⟩
  | call c _, g, hP, hQ => by
    refine ⟨hQ.1, fun r hr => wp_with view hexpects hnote ?_ (hQ.2 r hr)⟩
    rw [hnote]
    exact hP.2 r (hexpects g c r hr)

/-- Whatever the results are, the calls and the value of the program are as stated. -/
def Makes (P : Call → Prop) (Q : α → Prop) : Prog Call Result α → Prop
  | ret a => Q a
  | call c next => P c ∧ ∀ r, (next r).Makes P Q

variable {P : Call → Prop} {Q : α → Prop}

theorem Makes.bind {f : α → Prog Call Result β} {R : β → Prop}
    (hf : ∀ a, Q a → (f a).Makes P R) :
    ∀ {p : Prog Call Result α}, p.Makes P Q → (p >>= f).Makes P R
  | ret a, hp => hf a hp
  | call _ _, hp => ⟨hp.1, fun r => (hp.2 r).bind hf⟩

theorem Makes.mono {P' : Call → Prop} {Q' : α → Prop} (hP : ∀ c, P c → P' c)
    (hQ : ∀ a, Q a → Q' a) : ∀ {p : Prog Call Result α}, p.Makes P Q → p.Makes P' Q'
  | ret a, hp => hQ a hp
  | call c _, hp => ⟨hP c hp.1, fun r => (hp.2 r).mono hP hQ⟩

/-- Calls that need nothing and keep an invariant of the ghost state. -/
theorem Makes.wp {I : G → Prop} (hstep : ∀ g c, P c → I g →
      needs g c ∧ ∀ r, expects g c r → I (note g c r)) :
    ∀ {p : Prog Call Result α} {g : G}, p.Makes P Q → I g →
      p.wp (Contract.of needs expects note) (fun a g => Q a ∧ I g) g
  | ret _, _, hp, hI => ⟨hp, hI⟩
  | call c _, g, hp, hI => by
    obtain ⟨hneeds, hnote⟩ := hstep g c hp.1 hI
    exact ⟨hneeds, fun r hr => (hp.2 r).wp hstep (hnote r hr)⟩

/-- The program can return the value when its calls are answered as allowed. -/
inductive Returns (allowed : (c : Call) → Result c → Prop) : Prog Call Result α → α → Prop
  | ret (a : α) : Returns allowed (.ret a) a
  | call {c : Call} {next : Result c → Prog Call Result α} {r : Result c} {a : α}
    (hr : allowed c r) (h : Returns allowed (next r) a) : Returns allowed (.call c next) a

theorem Returns.post {allowed : (c : Call) → Result c → Prop} {p : Prog Call Result α} {a : α}
    {Q : α → G → Prop} (h : p.Returns allowed a) {g : G}
    (hallowed : ∀ g c r, allowed c r → expects g c r)
    (hp : p.wp (Contract.of needs expects note) Q g) : ∃ g', Q a g' := by
  induction h generalizing g with
  | ret a => exact ⟨g, hp⟩
  | call hr _ ih => exact ih (hp.2 _ (hallowed g _ _ hr))

/-- Run the program with one answer for each call. -/
def runWith (answers : (c : Call) → Result c) : Prog Call Result α → α
  | ret a => a
  | call c next => (next (answers c)).runWith answers

theorem returns_runWith {allowed : (c : Call) → Result c → Prop} {answers : (c : Call) → Result c}
    (h : ∀ c, allowed c (answers c)) :
    ∀ p : Prog Call Result α, p.Returns allowed (p.runWith answers)
  | ret a => .ret a
  | call c next => .call (h c) (returns_runWith h (next (answers c)))

end

end Prog

/-- How one round of a loop ends. -/
inductive Step (σ ω : Type) where
  | again (state : σ)
  | done (outcome : ω)

namespace Step

variable {Call : Type} {Result : Call → Type} {σ ω G : Type}

/-- Go on with the next part of a round unless the loop is done. -/
def andThen (p : Prog Call Result (Step σ ω)) (f : σ → Prog Call Result (Step σ ω)) :
    Prog Call Result (Step σ ω) :=
  p >>= fun
    | again s => f s
    | done o => pure (done o)

/-- The invariant of a loop as the postcondition of a round. -/
def Holds (I : σ → G → Prop) (E : ω → G → Prop) : Step σ ω → G → Prop
  | again s, g => I s g
  | done o, g => E o g

variable {C : Contract Call Result G} {I J : σ → G → Prop} {E : ω → G → Prop} {g : G}

theorem andThen_assoc (p : Prog Call Result (Step σ ω)) (f f' : σ → Prog Call Result (Step σ ω)) :
    andThen (andThen p f) f' = andThen p fun s => andThen (f s) f' := by
  induction p with
  | ret step => cases step <;> rfl
  | call c next ih => exact congrArg (Prog.call c) (funext ih)

theorem wp_andThen {p : Prog Call Result (Step σ ω)} {f : σ → Prog Call Result (Step σ ω)}
    (hp : p.wp C (Holds I E) g) (hf : ∀ s g, I s g → (f s).wp C (Holds J E) g) :
    (andThen p f).wp C (Holds J E) g := by
  refine Prog.wp_seq hp ?_
  rintro (s | o) g h
  · exact hf s g h
  · exact h

end Step

/-- A thread in the middle of a round of its loop, or at its end. -/
inductive Thread (Call : Type) (Result : Call → Type) (σ ω : Type) where
  | running (rest : Prog Call Result (Step σ ω))
  | finished (outcome : ω)

namespace Thread

variable {Call : Type} {Result : Call → Type} {σ ω G W : Type}

/-- The call the thread is about to make. -/
def pending : Thread Call Result σ ω → Option Call
  | running (.call c _) => some c
  | _ => none

/-- One step: make the pending call, or take the next round, or end. -/
def advance (body : σ → Prog Call Result (Step σ ω)) (world : W)
    (answer : (c : Call) → Option (Result c × W)) :
    Thread Call Result σ ω → Option (Thread Call Result σ ω × W)
  | running (.call c next) => (answer c).map fun rw => (running (next rw.1), rw.2)
  | running (.ret (.again s)) => some (running (body s), world)
  | running (.ret (.done o)) => some (finished o, world)
  | finished _ => none

/-- What is left of the thread keeps to the contract. -/
def Safe (C : Contract Call Result G) (I : σ → G → Prop) (E : ω → G → Prop) :
    Thread Call Result σ ω → G → Prop
  | running rest, g => rest.wp C (Step.Holds I E) g
  | finished o, g => E o g

end Thread

end ForgeFlow.Base
