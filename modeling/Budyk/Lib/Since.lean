import Mathlib.Data.List.DropRight

/-! What a list holds since its last element without a property: `List.rtakeWhile` against splits of the list. -/

namespace Budyk.Lib
variable {α : Type} {p : α → Bool}

theorem rtakeWhile_split {older recent : List α} (all : ∀ x ∈ recent, p x) (last : ∀ x ∈ older.getLast?, ¬p x) :
    (older ++ recent).rtakeWhile p = recent := by
  induction recent using List.reverseRecOn with
  | nil =>
      rw [List.append_nil, List.rtakeWhile_eq_nil_iff]
      intro nonempty
      apply last
      rw [List.getLast?_eq_some_getLast nonempty]
      rfl
  | append_singleton recent x ih =>
      rw [← List.append_assoc, List.rtakeWhile_concat_pos _ _ _ (all x (by simp)),
        ih fun y held => all y (List.mem_append_left _ held)]

theorem getLast?_rdropWhile (xs : List α) : ∀ x ∈ (xs.rdropWhile p).getLast?, ¬p x := by
  intro x last
  have nonempty : xs.rdropWhile p ≠ [] := by
    intro empty
    simp [empty] at last
  rw [List.getLast?_eq_some_getLast nonempty, Option.mem_some_iff] at last
  rw [← last]
  exact List.rdropWhile_last_not p xs nonempty

theorem rdropWhile_concat_last {xs : List α} (found : ∃ x ∈ xs, ¬p x) :
    ∃ older last, xs.rdropWhile p = older ++ [last] ∧ ¬p last := by
  have nonempty : xs.rdropWhile p ≠ [] := by
    rw [Ne, List.rdropWhile_eq_nil_iff]
    intro all
    obtain ⟨x, held, fails⟩ := found
    exact fails (all x held)
  exact ⟨_, _, (List.dropLast_append_getLast nonempty).symm, List.rdropWhile_last_not p xs nonempty⟩

end Budyk.Lib
