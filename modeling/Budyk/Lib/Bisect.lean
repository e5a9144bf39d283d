import Mathlib.Order.Basic

/-! Bisection: the first index of a range at which a monotone predicate holds. -/

namespace Budyk.Lib

/-- The binary search for the first index of `[lo, hi)` with `p`; `hi` if there is none. -/
def bisect (p : Nat → Bool) (lo hi : Nat) : Nat :=
  if lo < hi then
    let mid := lo + (hi - lo) / 2
    if p mid then bisect p lo mid else bisect p (mid + 1) hi
  else lo
termination_by hi - lo

section
variable {p : Nat → Bool} {lo hi : Nat}

theorem bisect_true (less : lo < hi) (holds : p (lo + (hi - lo) / 2) = true) :
    bisect p lo hi = bisect p lo (lo + (hi - lo) / 2) := by
  rw [bisect, if_pos less]
  simp only [holds, if_true]

theorem bisect_false (less : lo < hi) (fails : p (lo + (hi - lo) / 2) = false) :
    bisect p lo hi = bisect p (lo + (hi - lo) / 2 + 1) hi := by
  rw [bisect, if_pos less]
  simp only [fails, Bool.false_eq_true, if_false]

theorem bisect_empty (none : ¬lo < hi) : bisect p lo hi = lo := by
  rw [bisect, if_neg none]

end

theorem bisect_bounds (p : Nat → Bool) (lo hi : Nat) (le : lo ≤ hi) :
    lo ≤ bisect p lo hi ∧ bisect p lo hi ≤ hi := by
  induction size : hi - lo using Nat.strongRecOn generalizing lo hi with
  | ind size' ih =>
      by_cases less : lo < hi
      · cases probe : p (lo + (hi - lo) / 2) with
        | true =>
            have bounds := ih _ (by omega) lo (lo + (hi - lo) / 2) (by omega) rfl
            rw [bisect_true less probe]
            omega
        | false =>
            have bounds := ih _ (by omega) (lo + (hi - lo) / 2 + 1) hi (by omega) rfl
            rw [bisect_false less probe]
            omega
      · rw [bisect_empty less]
        omega

theorem bisect_spec (p : Nat → Bool) (lo hi : Nat)
    (mono : ∀ i j, lo ≤ i → i ≤ j → j < hi → p i = true → p j = true) (i : Nat) (low : lo ≤ i)
    (high : i < hi) : p i = true ↔ bisect p lo hi ≤ i := by
  induction size : hi - lo using Nat.strongRecOn generalizing lo hi with
  | ind size' ih =>
      have less : lo < hi := by omega
      cases probe : p (lo + (hi - lo) / 2) with
      | true =>
          have bounds := bisect_bounds p lo (lo + (hi - lo) / 2) (by omega)
          rw [bisect_true less probe]
          by_cases below : i < lo + (hi - lo) / 2
          · exact ih _ (by omega) lo (lo + (hi - lo) / 2)
              (fun i j a b c => mono i j a b (by omega)) low below rfl
          · exact iff_of_true (mono _ i (by omega) (by omega) high probe) (by omega)
      | false =>
          have bounds := bisect_bounds p (lo + (hi - lo) / 2 + 1) hi (by omega)
          rw [bisect_false less probe]
          by_cases above : lo + (hi - lo) / 2 + 1 ≤ i
          · exact ih _ (by omega) (lo + (hi - lo) / 2 + 1) hi
              (fun i j a b c => mono i j (by omega) b c) above high rfl
          · refine iff_of_false (fun holds => ?_) (by omega)
            rw [mono i _ low (by omega) (by omega) holds] at probe
            cases probe

end Budyk.Lib
