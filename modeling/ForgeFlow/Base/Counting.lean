import Mathlib.Algebra.GroupWithZero.Nat
import Mathlib.Data.Finset.Card
import Mathlib.Data.Finset.Image
import Mathlib.Data.List.Perm.Subperm
import Mathlib.Tactic.Common

/-!
# Counting

A counter with a floor, a set that the counter is to be the size of, and lists with as
many elements of a kind as there are places for them.
-/

namespace ForgeFlow.Base

/-- A counter that goes up and down and stops at zero. Where nothing goes down after
something went up, the downs all come off the first value. -/
theorem foldl_clamped {α β : Type} {f : β → α → β} {value : β → Nat} {up down : α → Bool}
    (hup : ∀ b a, up a = true → value (f b a) = value b + 1)
    (hdown : ∀ b a, up a = false → value (f b a) = value b - if down a then 1 else 0)
    (hone : ∀ a, up a = true → down a = false) :
    ∀ (l : List α) (b : β), l.Pairwise (fun a a' => up a = true → down a' = false) →
      value (l.foldl f b) = value b - l.countP down + l.countP up
  | [], b, _ => by simp
  | a :: l, b, hl => by
    obtain ⟨hhead, htail⟩ := List.pairwise_cons.mp hl
    rw [List.foldl_cons, foldl_clamped hup hdown hone l (f b a) htail, List.countP_cons,
      List.countP_cons]
    cases ha : up a with
    | true =>
      have hnone : l.countP down = 0 :=
        List.countP_eq_zero.mpr fun a' ha' => by rw [hhead a' ha' ha]; decide
      rw [hup b a ha, hnone, hone a ha]
      simp only [if_true, Bool.false_eq_true, if_false]
      omega
    | false =>
      rw [hdown b a ha]
      simp only [Bool.false_eq_true, if_false]
      omega

theorem map_filterMap_sublist {α β γ : Type} {f : α → Option β} {g : β → γ} {key : α → γ}
    (hf : ∀ a b, f a = some b → g b = key a) :
    ∀ l : List α, ((l.filterMap f).map g).Sublist (l.map key)
  | [] => .slnil
  | a :: l => by
    rw [List.filterMap_cons]
    split
    · exact (map_filterMap_sublist hf l).cons _
    · rename_i b hb
      rw [List.map_cons, List.map_cons, hf a b hb]
      exact (map_filterMap_sublist hf l).cons_cons _

/-- Elements go out of a set and others come in, and a counter goes down by the number of
elements struck off; of those in the set these are the ones that go out. The counter keeps
the size of the set unless something is struck off that is not in it while something stays. -/
theorem card_balance {α : Type} [DecidableEq α] {entered out struck coming : Finset α}
    (hstruck : ∀ a ∈ entered, a ∈ struck ↔ a ∈ out) (hcoming : Disjoint entered coming) :
    entered.card - struck.card + coming.card = (entered \ out ∪ coming).card ↔
      struck ⊆ entered ∨ entered ⊆ out := by
  have hinter : entered ∩ struck = entered ∩ out := by
    ext a
    rw [Finset.mem_inter, Finset.mem_inter]
    exact and_congr_right (hstruck a)
  have hdisjoint : Disjoint (entered \ out) coming :=
    hcoming.mono_left Finset.sdiff_subset
  have hsplit := Finset.card_inter_add_card_sdiff entered out
  have hle : (entered ∩ struck).card ≤ struck.card := Finset.card_le_card Finset.inter_subset_right
  have hstruckIn : struck ⊆ entered ↔ (entered ∩ struck).card = struck.card := by
    rw [← Finset.inter_eq_right]
    exact ⟨congrArg Finset.card, Finset.eq_of_subset_of_card_le Finset.inter_subset_right ∘ Eq.ge⟩
  have hout : entered ⊆ out ↔ (entered \ out).card = 0 := by
    rw [Finset.card_eq_zero, Finset.sdiff_eq_empty_iff_subset]
  rw [Finset.card_union_of_disjoint hdisjoint, hstruckIn, hout]
  rw [hinter] at hle ⊢
  omega

/-- Each of them has a place of its own among the first so many. -/
theorem countP_le_of_places {α : Type} {p : α → Bool} (place : α → Nat) {n : Nat} {l : List α}
    (hl : l.Nodup) (hplace : ∀ a ∈ l, p a = true → 1 ≤ place a ∧ place a ≤ n)
    (hown : ∀ a ∈ l, ∀ b ∈ l, p a = true → p b = true → place a = place b → a = b) :
    l.countP p ≤ n := by
  have hnodup : ((l.filter p).map place).Nodup := by
    refine List.Nodup.map_on (fun a ha b hb heq => ?_) (hl.filter p)
    obtain ⟨ha, hpa⟩ := List.mem_filter.mp ha
    obtain ⟨hb, hpb⟩ := List.mem_filter.mp hb
    exact hown a ha b hb hpa hpb heq
  have hsubset : (l.filter p).map place ⊆ List.range' 1 n := by
    intro i hi
    obtain ⟨a, ha, rfl⟩ := List.mem_map.mp hi
    obtain ⟨ha, hpa⟩ := List.mem_filter.mp ha
    obtain ⟨hlow, hhigh⟩ := hplace a ha hpa
    exact List.mem_range'_1.mpr ⟨hlow, by omega⟩
  have hle := (List.subperm_of_subset hnodup hsubset).length_le
  rwa [List.length_map, List.length_range', ← List.countP_eq_length_filter] at hle

/-- Where only one of the summands is not zero, the sum is bounded as they are. -/
theorem sum_map_le_of_alone {α : Type} {f : α → Nat} {n : Nat} :
    ∀ {l : List α}, (∀ a ∈ l, f a ≤ n) → l.Pairwise (fun a b => f a = 0 ∨ f b = 0) →
      (l.map f).sum ≤ n
  | [], _, _ => Nat.zero_le n
  | a :: l, hle, halone => by
    obtain ⟨hhead, htail⟩ := List.pairwise_cons.mp halone
    obtain ⟨ha, hl⟩ := List.forall_mem_cons.mp hle
    rw [List.map_cons, List.sum_cons]
    by_cases hzero : f a = 0
    · have hrest := sum_map_le_of_alone hl htail
      omega
    · have hrest : (l.map f).sum = 0 := by
        refine List.sum_eq_zero_iff_forall_eq_nat.mpr fun i hi => ?_
        obtain ⟨b, hb, rfl⟩ := List.mem_map.mp hi
        exact (hhead b hb).resolve_left hzero
      omega

end ForgeFlow.Base
