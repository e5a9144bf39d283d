import Mathlib.Data.List.DropRight
import Mathlib.Data.List.Sort
import Mathlib.Order.Basic

/-! The largest of a stream by a key, kept in a bounded list: largest first, and of equal ones the earlier first. -/

namespace Budyk.Lib
variable {α κ : Type} [LinearOrder κ] (key : α → κ)

/-- The `k` largest arrivals, largest first; of equal ones the earlier are taken, and first. -/
structure Largest (k : Nat) (arrivals top : List α) : Prop where
  length : top.length = min k arrivals.length
  others : ∃ rest, (top ++ rest).Perm arrivals ∧ ((top ++ rest).Pairwise fun x y => key y ≤ key x) ∧
    ∀ c, ((top ++ rest).filter fun x => key x = c) = arrivals.filter fun x => key x = c

def largest (k : Nat) (arrivals : List α) : List α := (arrivals.insertionSort fun x y => key y ≤ key x).take k

/-- Insertion from the end: behind everything that is not smaller. -/
def insertBehind (x : α) (l : List α) : List α :=
  (l.rdropWhile fun y => key y < key x) ++ x :: l.rtakeWhile fun y => key y < key x

variable {key}

theorem descending_insertionSort (l : List α) :
    (l.insertionSort fun x y => key y ≤ key x).Pairwise fun x y => key y ≤ key x := by
  have : Std.Total fun x y : α => key y ≤ key x := ⟨fun x y => le_total (key y) (key x)⟩
  have : IsTrans α fun x y => key y ≤ key x := ⟨fun _ _ _ first second => second.trans first⟩
  exact List.pairwise_insertionSort _ l

theorem filter_orderedInsert (x : α) {l : List α} (descending : l.Pairwise fun x y => key y ≤ key x) (c : κ) :
    ((l.orderedInsert (fun x y => key y ≤ key x) x).filter fun y => key y = c) =
      (x :: l).filter fun y => key y = c := by
  induction l with
  | nil => rfl
  | cons y l ih =>
      obtain ⟨above, rest⟩ := List.pairwise_cons.mp descending
      rw [List.orderedInsert_cons]
      split
      next => rfl
      next larger =>
        rw [List.filter_cons, ih rest]
        by_cases here : key x = c
        · have other : ¬key y = c := by
            intro same
            exact larger (le_of_eq (same.trans here.symm))
          simp [here, other]
        · simp [List.filter_cons, here]

theorem filter_insertionSort (l : List α) (c : κ) :
    ((l.insertionSort fun x y => key y ≤ key x).filter fun x => key x = c) = l.filter fun x => key x = c := by
  induction l with
  | nil => rfl
  | cons x l ih =>
      rw [List.insertionSort_cons, filter_orderedInsert x (descending_insertionSort l), List.filter_cons, ih, List.filter_cons]

theorem largest_spec (k : Nat) (arrivals : List α) : Largest key k arrivals (largest key k arrivals) where
  length := by rw [largest, List.length_take, List.length_insertionSort]
  others := by
    refine ⟨(arrivals.insertionSort fun x y => key y ≤ key x).drop k, ?_⟩
    rw [largest, List.take_append_drop]
    exact ⟨List.perm_insertionSort _ _, descending_insertionSort arrivals, filter_insertionSort arrivals⟩

theorem rdropWhile_cons {p : α → Bool} {y : α} (stays : ¬p y = true) (l : List α) :
    (y :: l).rdropWhile p = y :: l.rdropWhile p := by
  induction l using List.reverseRecOn with
  | nil => simpa [List.rdropWhile] using stays
  | append_singleton l z ih =>
      rw [← List.cons_append]
      by_cases goes : p z = true
      · rw [List.rdropWhile_concat_pos _ _ _ goes, List.rdropWhile_concat_pos _ _ _ goes, ih]
      · rw [List.rdropWhile_concat_neg _ _ _ goes, List.rdropWhile_concat_neg _ _ _ goes, List.cons_append]

theorem rtakeWhile_cons {p : α → Bool} {y : α} (stays : ¬p y = true) (l : List α) :
    (y :: l).rtakeWhile p = l.rtakeWhile p := by
  induction l using List.reverseRecOn with
  | nil => simpa [List.rtakeWhile] using stays
  | append_singleton l z ih =>
      rw [← List.cons_append]
      by_cases goes : p z = true
      · rw [List.rtakeWhile_concat_pos _ _ _ goes, List.rtakeWhile_concat_pos _ _ _ goes, ih]
      · rw [List.rtakeWhile_concat_neg _ _ _ goes, List.rtakeWhile_concat_neg _ _ _ goes]

/-- In a descending list it is as good to search from the front. -/
theorem insertBehind_eq (x : α) {l : List α} (descending : l.Pairwise fun x y => key y ≤ key x) :
    insertBehind key x l = l.orderedInsert (fun x y => key y < key x) x := by
  induction l with
  | nil => rfl
  | cons y l ih =>
      obtain ⟨above, rest⟩ := List.pairwise_cons.mp descending
      rw [List.orderedInsert_cons, ← ih rest]
      by_cases smaller : key y < key x
      · have all : ∀ z ∈ y :: l, decide (key z < key x) = true := by
          intro z held
          rw [decide_eq_true_eq]
          rcases List.mem_cons.mp held with rfl | later
          · exact smaller
          · exact (above z later).trans_lt smaller
        rw [if_pos smaller, insertBehind, List.rdropWhile_eq_nil_iff.mpr all, List.rtakeWhile_eq_self_iff.mpr all]
        rfl
      · have stays : ¬(fun z => decide (key z < key x)) y = true := by simpa using smaller
        rw [if_neg smaller, insertBehind, insertBehind, rdropWhile_cons (p := fun z => decide (key z < key x)) stays,
          rtakeWhile_cons (p := fun z => decide (key z < key x)) stays, List.cons_append]

/-- A later arrival, and an earlier one that was not yet sorted in. -/
theorem orderedInsert_comm (first x : α) (l : List α) :
    (l.orderedInsert (fun x y => key y < key x) x).orderedInsert (fun x y => key y ≤ key x) first =
      (l.orderedInsert (fun x y => key y ≤ key x) first).orderedInsert (fun x y => key y < key x) x := by
  induction l with
  | nil =>
      simp only [List.orderedInsert_nil, List.orderedInsert_cons]
      grind
  | cons y l ih =>
      simp only [List.orderedInsert_cons]
      grind

theorem insertionSort_concat (l : List α) (x : α) :
    (l ++ [x]).insertionSort (fun x y => key y ≤ key x) =
      insertBehind key x (l.insertionSort fun x y => key y ≤ key x) := by
  rw [insertBehind_eq x (descending_insertionSort l)]
  induction l with
  | nil => rfl
  | cons y l ih => rw [List.cons_append, List.insertionSort_cons, ih, List.insertionSort_cons, orderedInsert_comm]

theorem take_orderedInsert {r : α → α → Prop} [DecidableRel r] (x : α) (k : Nat) (l : List α) :
    ((l.take k).orderedInsert r x).take k = (l.orderedInsert r x).take k := by
  induction l generalizing k with
  | nil => simp
  | cons y l ih =>
      cases k with
      | zero => rfl
      | succ k =>
          simp only [List.take_succ_cons, List.orderedInsert_cons]
          split
          next =>
            rw [List.take_succ_cons, List.take_succ_cons]
            cases k with
            | zero => rfl
            | succ k => rw [List.take_succ_cons, List.take_succ_cons, List.take_take, Nat.min_eq_left (Nat.le_succ k)]
          next => rw [List.take_succ_cons, List.take_succ_cons, ih]

/-- What the bounded list does with the next arrival. -/
theorem largest_concat (k : Nat) (arrivals : List α) (x : α) :
    largest key k (arrivals ++ [x]) = (insertBehind key x (largest key k arrivals)).take k := by
  have descending := @descending_insertionSort _ _ _ key arrivals
  rw [largest, insertionSort_concat, largest, insertBehind_eq x descending, insertBehind_eq x (descending.sublist (List.take_sublist _ _)),
    take_orderedInsert]

end Budyk.Lib
