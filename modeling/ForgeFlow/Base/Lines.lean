import Mathlib.Tactic.Common

/-!
# Terminated lines and an unterminated tail

A log of lines that each end in a terminator, with whatever a writer that stopped
in the middle of a line left behind it.
-/

namespace ForgeFlow.Base

variable {α : Type}

/-- The terminated lines, without their terminators, and the tail after the last one. -/
def splitLines [DecidableEq α] (stop : α) : List α → List (List α) × List α
  | [] => ([], [])
  | b :: rest =>
    let split := splitLines stop rest
    if b = stop then ([] :: split.1, split.2)
    else match split.1 with
      | [] => ([], b :: split.2)
      | line :: lines => ((b :: line) :: lines, split.2)

def joinLines (stop : α) (lines : List (List α)) : List α := lines.flatMap fun line => line ++ [stop]

@[simp] theorem joinLines_nil (stop : α) : joinLines stop [] = [] := rfl

@[simp] theorem joinLines_cons (stop : α) (line : List α) (lines : List (List α)) :
    joinLines stop (line :: lines) = line ++ stop :: joinLines stop lines := by
  simp [joinLines]

@[simp] theorem joinLines_append (stop : α) (lines lines' : List (List α)) :
    joinLines stop (lines ++ lines') = joinLines stop lines ++ joinLines stop lines' := by
  simp [joinLines]

theorem splitLines_tail [DecidableEq α] {stop : α} : ∀ {tail : List α}, stop ∉ tail →
    splitLines stop tail = ([], tail)
  | [], _ => rfl
  | b :: tail, h => by
    simp only [List.mem_cons, not_or] at h
    have hb : b ≠ stop := fun hb => h.1 hb.symm
    simp only [splitLines, splitLines_tail h.2, if_neg hb]

theorem splitLines_line [DecidableEq α] {stop : α} (rest : List α) :
    ∀ {line : List α}, stop ∉ line →
    splitLines stop (line ++ stop :: rest) =
      (line :: (splitLines stop rest).1, (splitLines stop rest).2)
  | [], _ => by simp [splitLines]
  | b :: line, h => by
    simp only [List.mem_cons, not_or] at h
    have hb : b ≠ stop := fun hb => h.1 hb.symm
    simp only [List.cons_append, splitLines, splitLines_line rest h.2, if_neg hb]

/-- Splitting recovers the lines that were joined, and the tail. -/
theorem splitLines_joinLines [DecidableEq α] {stop : α} {tail : List α} (htail : stop ∉ tail) :
    ∀ {lines : List (List α)}, (∀ line ∈ lines, stop ∉ line) →
      splitLines stop (joinLines stop lines ++ tail) = (lines, tail)
  | [], _ => by simpa using splitLines_tail htail
  | line :: lines, h => by
    obtain ⟨hline, hlines⟩ := List.forall_mem_cons.mp h
    rw [joinLines_cons, List.append_assoc, List.cons_append, splitLines_line _ hline,
      splitLines_joinLines htail hlines]

/-- A proper prefix of a terminated line has no terminator. -/
theorem not_mem_take_line {stop : α} {line : List α} {k : Nat} (hline : stop ∉ line)
    (hk : k < (line ++ [stop]).length) : stop ∉ (line ++ [stop]).take k := by
  have hle : k ≤ line.length := by simpa [Nat.lt_succ_iff] using hk
  rw [List.take_append_of_le_length hle]
  exact fun h => hline (List.mem_of_mem_take h)

end ForgeFlow.Base
