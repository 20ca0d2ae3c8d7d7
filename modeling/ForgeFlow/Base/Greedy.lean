import Mathlib.Data.List.Lex
import Mathlib.Order.Lattice

/-!
# Lists built one element at a time

What may be taken next depends on what was taken before. The list that always takes
the least of what is available is the first, in lexicographic order, of the lists
that take only what is available.
-/

namespace ForgeFlow.Base

variable {α : Type} {P : List α → α → Prop} {l : List α}

/-- `P` holds of each element and the elements before it. -/
def EachSplit (P : List α → α → Prop) (l : List α) : Prop :=
  ∀ before x after, l = before ++ x :: after → P before x

theorem EachSplit.nil : EachSplit P [] := fun before x after heq => by simp at heq

theorem EachSplit.snoc (h : EachSplit P l) {x : α} (hx : P l x) : EachSplit P (l ++ [x]) := by
  intro before y after heq
  rcases List.eq_nil_or_concat after with rfl | ⟨after', last, rfl⟩
  · obtain ⟨rfl, hlast⟩ := List.append_inj' heq rfl
    cases hlast
    exact hx
  · rw [List.concat_eq_append, ← List.cons_append, ← List.append_assoc] at heq
    exact h before y after' (List.append_inj' heq rfl).1

theorem EachSplit.of_snoc {x : α} (h : EachSplit P (l ++ [x])) : EachSplit P l ∧ P l x := by
  refine ⟨?_, h l x [] rfl⟩
  intro before y after heq
  exact h before y (after ++ [x]) (by rw [heq, List.append_assoc, List.cons_append])

/-- No element that was available instead is smaller. -/
def Least [LE α] (available : List α → α → Prop) (before : List α) (x : α) : Prop :=
  ∀ y, available before y → x ≤ y

/-- Where the two lists part, the greedy one goes on with the smaller element. -/
theorem EachSplit.least_le [LinearOrder α] {available : List α → α → Prop} {greedy other : List α}
    (hgreedy : EachSplit (Least available) greedy) (hother : EachSplit available other)
    (hlength : greedy.length ≤ other.length) : greedy ≤ other := by
  -- induction on what is left of the greedy list, with the part both have taken
  have hfrom : ∀ (rest rest' taken : List α), greedy = taken ++ rest → other = taken ++ rest' →
      rest.length ≤ rest'.length → ¬rest' < rest := by
    intro rest
    induction rest with
    | nil => exact fun rest' _ _ _ _ => List.not_lt_nil rest'
    | cons x rest ih =>
      intro rest' taken hg ho hlen hlt
      cases rest' with
      | nil => simp at hlen
      | cons y rest' =>
        have hle : x ≤ y := hgreedy taken x rest hg y (hother taken y rest' ho)
        rcases List.cons_lt_cons_iff.mp hlt with hyx | ⟨rfl, hrest⟩
        · exact absurd hyx hle.not_gt
        · refine ih rest' (taken ++ [y]) ?_ ?_ (by simpa using hlen) hrest
          · rw [hg, List.append_assoc, List.singleton_append]
          · rw [ho, List.append_assoc, List.singleton_append]
  exact not_lt.mp (hfrom greedy other [] rfl rfl hlength)

end ForgeFlow.Base
