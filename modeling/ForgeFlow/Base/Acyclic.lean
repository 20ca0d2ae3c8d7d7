import Mathlib.Data.Fintype.Card
import Mathlib.Data.Set.Finite.Basic
import Mathlib.Order.WellFounded

/-!
# Acyclic relations

A relation without cycles leaves in every finite set an element that is related to no
other element of it, and a relation that lowers a rank has no cycles.
-/

namespace ForgeFlow.Base

variable {α : Type} {r : α → α → Prop}

/-- No element is reached from itself. -/
def Acyclic (r : α → α → Prop) : Prop := ∀ a, ¬Relation.TransGen r a a

theorem acyclic_of_rank (rank : α → Nat) (h : ∀ a b, r a b → rank b < rank a) : Acyclic r := by
  intro a hcycle
  have hlower : ∀ b, Relation.TransGen r a b → rank b < rank a := by
    intro b hb
    induction hb with
    | single hab => exact h _ _ hab
    | tail _ hbc ih => exact (h _ _ hbc).trans ih
  exact Nat.lt_irrefl _ (hlower a hcycle)

theorem Acyclic.exists_sink (h : Acyclic r) {s : Set α} (hfinite : s.Finite) (hs : s.Nonempty) :
    ∃ a ∈ s, ∀ b ∈ s, ¬r a b := by
  have : Finite s := hfinite
  -- reachability among the elements of the set, read backwards, is a strict order
  have htrans : IsTrans s fun b a => Relation.TransGen r a b := ⟨fun _ _ _ hab hbc => hbc.trans hab⟩
  have hirrefl : Std.Irrefl fun b a : s => Relation.TransGen r a b := ⟨fun a => h a⟩
  have hwf := Finite.wellFounded_of_trans_of_irrefl fun b a : s => Relation.TransGen r a b
  obtain ⟨a₀, ha₀⟩ := hs
  obtain ⟨a, -, hmin⟩ := hwf.has_min Set.univ ⟨⟨a₀, ha₀⟩, trivial⟩
  exact ⟨a, a.2, fun b hb hab => hmin ⟨b, hb⟩ trivial (.single hab)⟩

end ForgeFlow.Base
