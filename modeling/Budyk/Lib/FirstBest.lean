import Mathlib.Data.List.MinMax

/-! The better of two by a key, the first where they tie: `List.argmax`, a pair at a time. -/

namespace Budyk.Lib
variable {α κ : Type} [LinearOrder κ] (key : α → κ)

def firstBest (a b : α) : α := if key a < key b then b else a

theorem firstBest_self (a : α) : firstBest key a a = a := if_neg (lt_irrefl _)

theorem firstBest_or (a b : α) : firstBest key a b = a ∨ firstBest key a b = b := by
  unfold firstBest
  split
  · exact Or.inr rfl
  · exact Or.inl rfl

theorem key_firstBest (a b : α) : key (firstBest key a b) = max (key a) (key b) := by
  unfold firstBest
  split
  next less => exact (max_eq_right less.le).symm
  next least => exact (max_eq_left (not_lt.mp least)).symm

variable {key}

theorem firstBest_of_lt {a b : α} (less : key a < key b) : firstBest key a b = b := if_pos less

theorem firstBest_of_le {a b : α} (least : key b ≤ key a) : firstBest key a b = a := if_neg (not_lt.mpr least)

variable (key)

theorem firstBest_assoc (a b c : α) :
    firstBest key (firstBest key a b) c = firstBest key a (firstBest key b c) := by
  rcases lt_or_ge (key a) (key b) with ab | ba
  · rw [firstBest_of_lt ab]
    have above : key a < key (firstBest key b c) := by
      rw [key_firstBest key]
      exact lt_max_of_lt_left ab
    exact (firstBest_of_lt above).symm
  · rw [firstBest_of_le ba]
    rcases lt_or_ge (key b) (key c) with bc | cb
    · rw [firstBest_of_lt bc]
    · rw [firstBest_of_le cb, firstBest_of_le ba, firstBest_of_le (cb.trans ba)]

theorem argmax_cons_eq_foldl (a : α) (rest : List α) :
    (a :: rest).argmax key = some (rest.foldl (firstBest key) a) := by
  induction rest using List.reverseRecOn with
  | nil => rfl
  | append_singleton rest b ih =>
      rw [← List.cons_append, List.argmax_concat, ih, List.foldl_append]
      simp only [List.foldl_cons, List.foldl_nil, firstBest]
      split <;> rfl

end Budyk.Lib
