import Mathlib.Data.List.Basic

/-!
# Causes before effects

In a list of events every effect has a cause somewhere before it.
-/

namespace ForgeFlow.Base

variable {α β : Type} {cause effect : α → Prop} {l l' : List α}

/-- Whatever part of the list ends right before an effect has a cause in it. -/
def Preceded (cause effect : α → Prop) (l : List α) : Prop :=
  ∀ before e after, l = before ++ e :: after → effect e → ∃ c ∈ before, cause c

theorem preceded_of_none (h : ∀ e ∈ l, ¬effect e) : Preceded cause effect l := by
  rintro before e after rfl he
  exact absurd he (h e (by simp))

/-- An effect in the second list may have its cause in either. -/
theorem Preceded.append_of (h : Preceded cause effect l)
    (h' : ∀ before e after, l' = before ++ e :: after → effect e →
      (∃ c ∈ l, cause c) ∨ ∃ c ∈ before, cause c) : Preceded cause effect (l ++ l') := by
  intro before e after heq he
  rcases List.append_eq_append_iff.mp heq with ⟨middle, rfl, hl'⟩ | ⟨middle, rfl, hl'⟩
  · rcases h' middle e after hl' he with ⟨c, hc, hcause⟩ | ⟨c, hc, hcause⟩
    · exact ⟨c, List.mem_append_left _ hc, hcause⟩
    · exact ⟨c, List.mem_append_right _ hc, hcause⟩
  · cases middle with
    | nil =>
      rw [List.append_nil] at h'
      rcases h' [] e after hl'.symm he with hc | ⟨c, hc, -⟩
      · exact hc
      · cases hc
    | cons e' rest =>
      obtain ⟨rfl, rfl⟩ := List.cons.inj hl'
      exact h before e rest rfl he

theorem Preceded.append (h : Preceded cause effect l) (h' : Preceded cause effect l') :
    Preceded cause effect (l ++ l') :=
  h.append_of fun before e after heq he => .inr (h' before e after heq he)

theorem Preceded.append_of_mem (h : Preceded cause effect l) (hc : ∃ c ∈ l, cause c) :
    Preceded cause effect (l ++ l') :=
  h.append_of fun _ _ _ _ _ => .inl hc

theorem preceded_map {f : β → α} {l : List β} :
    Preceded cause effect (l.map f) ↔ Preceded (fun b => cause (f b)) (fun b => effect (f b)) l := by
  constructor
  · rintro h before e after rfl he
    obtain ⟨c, hc, hcause⟩ := h (before.map f) (f e) (after.map f) (by simp) he
    obtain ⟨b, hb, rfl⟩ := List.mem_map.mp hc
    exact ⟨b, hb, hcause⟩
  · intro h before e after heq he
    obtain ⟨before', rest, rfl, rfl, hrest⟩ := List.map_eq_append_iff.mp heq
    obtain ⟨e', after', rfl, rfl, rfl⟩ := List.map_eq_cons_iff.mp hrest
    obtain ⟨c, hc, hcause⟩ := h before' e' after' rfl he
    exact ⟨f c, List.mem_map_of_mem hc, hcause⟩

/-- In a sorted list a cause stands before an effect that may not stand before it. -/
theorem preceded_of_pairwise {R : α → α → Prop} (hl : l.Pairwise R)
    (h : ∀ e ∈ l, effect e → ∃ c ∈ l, cause c ∧ c ≠ e ∧ ¬R e c) : Preceded cause effect l := by
  rintro before e after rfl he
  obtain ⟨c, hc, hcause, hne, hnot⟩ := h e (by simp) he
  rcases List.mem_append.mp hc with hc | hc
  · exact ⟨c, hc, hcause⟩
  · rcases List.mem_cons.mp hc with rfl | hc
    · exact absurd rfl hne
    · exact absurd ((List.pairwise_cons.mp (List.pairwise_append.mp hl).2.1).1 c hc) hnot

end ForgeFlow.Base
