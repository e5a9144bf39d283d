import Mathlib.Data.List.Basic
import Mathlib.Data.List.Nodup
import Mathlib.Data.List.Perm.Subperm

/-! A list in the order of a key, and the last item of each run of equal keys. -/

namespace Budyk.Lib
variable {α : Type} (key : α → Nat)

def lastOfRuns : List α → List α
  | [] => []
  | [x] => [x]
  | x :: y :: rest => if key x = key y then lastOfRuns (y :: rest) else x :: lastOfRuns (y :: rest)

variable {key}

theorem lastOfRuns_sublist (l : List α) : (lastOfRuns key l).Sublist l := by
  induction l using lastOfRuns.induct key with
  | case1 => exact List.Sublist.refl _
  | case2 x => exact List.Sublist.refl _
  | case3 x y rest same ih =>
      rw [lastOfRuns, if_pos same]
      exact ih.cons x
  | case4 x y rest other ih =>
      rw [lastOfRuns, if_neg other]
      exact ih.cons_cons x

theorem lastOfRuns_getLast? (l : List α) : (lastOfRuns key l).getLast? = l.getLast? := by
  induction l using lastOfRuns.induct key with
  | case1 => rfl
  | case2 x => rfl
  | case3 x y rest same ih => rw [lastOfRuns, if_pos same, ih, List.getLast?_cons_cons]
  | case4 x y rest other ih =>
      have some : (y :: rest).getLast? = (lastOfRuns key (y :: rest)).getLast? := ih.symm
      rw [lastOfRuns, if_neg other, List.getLast?_cons_cons, some, List.getLast?_cons]
      rw [ih, List.getLast?_eq_some_getLast (List.cons_ne_nil y rest)]
      rfl

theorem lastOfRuns_strict {l : List α} (sorted : l.Pairwise fun x y => key x ≤ key y) :
    (lastOfRuns key l).Pairwise fun x y => key x < key y := by
  induction l using lastOfRuns.induct key with
  | case1 => exact List.Pairwise.nil
  | case2 x => exact List.pairwise_singleton _ x
  | case3 x y rest same ih =>
      rw [lastOfRuns, if_pos same]
      exact ih (List.pairwise_cons.mp sorted).2
  | case4 x y rest other ih =>
      obtain ⟨least, tail⟩ := List.pairwise_cons.mp sorted
      rw [lastOfRuns, if_neg other, List.pairwise_cons]
      refine ⟨fun z member => ?_, ih tail⟩
      have first := least y List.mem_cons_self
      have inTail := (lastOfRuns_sublist (y :: rest)).subset member
      rcases List.mem_cons.mp inTail with rfl | later
      · omega
      · have := (List.pairwise_cons.mp tail).1 z later
        omega

theorem lastOfRuns_filter {l : List α} (sorted : l.Pairwise fun x y => key x ≤ key y) (n : Nat) :
    (lastOfRuns key l).filter (fun x => key x = n) = ((l.filter fun x => key x = n).getLast?).toList := by
  induction l using lastOfRuns.induct key with
  | case1 => rfl
  | case2 x =>
      rw [lastOfRuns]
      by_cases here : key x = n <;> simp [here]
  | case3 x y rest same ih =>
      rw [lastOfRuns, if_pos same, ih (List.pairwise_cons.mp sorted).2]
      by_cases here : key y = n
      · simp [same.trans here, here, List.getLast?_cons_cons]
      · simp [same, here]
  | case4 x y rest other ih =>
      obtain ⟨least, tail⟩ := List.pairwise_cons.mp sorted
      rw [lastOfRuns, if_neg other]
      by_cases here : key x = n
      · -- Every later key is larger.
        have none : ((y :: rest).filter fun x => key x = n) = [] := by
          rw [List.filter_eq_nil_iff]
          intro z member
          have first := least y List.mem_cons_self
          have larger : key y ≤ key z := by
            rcases List.mem_cons.mp member with rfl | later
            · exact Nat.le_refl _
            · exact (List.pairwise_cons.mp tail).1 z later
          simp only [decide_eq_true_eq]
          omega
        have head (l : List α) : (x :: l).filter (fun x => key x = n) = x :: l.filter fun x => key x = n := by
          simp [here]
        rw [head, head, ih tail, none]
        rfl
      · have head (l : List α) : (x :: l).filter (fun x => key x = n) = l.filter fun x => key x = n := by
          simp [here]
        rw [head, head, ih tail]

theorem lastOfRuns_length_le {l : List α} (sorted : l.Pairwise fun x y => key x ≤ key y) {bound : Nat}
    (below : ∀ x ∈ l, key x < bound) : (lastOfRuns key l).length ≤ bound := by
  have distinct : ((lastOfRuns key l).map key).Nodup := by
    rw [List.Nodup, List.pairwise_map]
    exact (lastOfRuns_strict sorted).imp Nat.ne_of_lt
  have inRange : (lastOfRuns key l).map key ⊆ List.range bound := by
    intro k member
    obtain ⟨x, inside, rfl⟩ := List.mem_map.mp member
    exact List.mem_range.mpr (below x ((lastOfRuns_sublist l).subset inside))
  have le := (List.subperm_of_subset distinct inRange).length_le
  rwa [List.length_map, List.length_range] at le

end Budyk.Lib
