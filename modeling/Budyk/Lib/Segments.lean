import Mathlib.Data.List.TakeWhile

/-! The segments between the delimiters of a text. -/

namespace Budyk.Lib
variable {α : Type} [DecidableEq α] {d : α}

theorem splitOn_cons (b : α) (s : List α) :
    (b :: s).splitOn d = if b = d then [] :: s.splitOn d else (s.splitOn d).modifyHead (b :: ·) := by
  simp [List.splitOn, List.splitOnP_cons_eq_if_modifyHead]

/-- The first segment, and the others. -/
theorem splitOn_eq (s : List α) : s.splitOn d = s.takeWhile (· ≠ d) :: (s.splitOn d).tail := by
  induction s with
  | nil => rfl
  | cons b s ih =>
      rw [splitOn_cons]
      by_cases here : b = d
      · simp [here]
      · rw [if_neg here, ih]
        simp [here]

theorem not_mem_of_mem_splitOn {w s : List α} (member : w ∈ s.splitOn d) : d ∉ w := by
  induction s generalizing w with
  | nil =>
      rw [List.splitOn_nil, List.mem_singleton] at member
      rw [member]
      exact List.not_mem_nil
  | cons b s ih =>
      rw [splitOn_cons] at member
      by_cases here : b = d
      · rw [if_pos here, List.mem_cons] at member
        rcases member with rfl | member
        · exact List.not_mem_nil
        · exact ih member
      · rw [if_neg here, splitOn_eq, List.modifyHead_cons, List.mem_cons] at member
        rcases member with rfl | member
        · have rest := ih (by rw [splitOn_eq]; exact List.mem_cons_self)
          exact fun held => (List.mem_cons.mp held).elim (Ne.symm here) rest
        · exact ih (by rw [splitOn_eq]; exact List.mem_cons_of_mem _ member)

/-- Here the text has reached its end or a delimiter. -/
def SegmentEnds (d : α) (s : List α) : Prop := s = [] ∨ s.head? = some d

theorem takeWhile_eq_iff {w s : List α} (whole : d ∉ w) :
    s.takeWhile (· ≠ d) = w ↔ ∃ rest, s = w ++ rest ∧ SegmentEnds d rest := by
  constructor
  · rintro rfl
    refine ⟨s.dropWhile (· ≠ d), List.takeWhile_append_dropWhile.symm, ?_⟩
    cases left : s.dropWhile (· ≠ d) with
    | nil => exact .inl rfl
    | cons b rest =>
        have stops := List.head?_dropWhile_not (fun c => decide (c ≠ d)) s
        rw [left] at stops
        exact .inr (by simpa using stops)
  · rintro ⟨rest, rfl, ends⟩
    have none : rest.takeWhile (· ≠ d) = [] := by
      rcases ends with rfl | stops
      · rfl
      · cases rest with
        | nil => rfl
        | cons b rest => simpa using stops
    have inside : ∀ b ∈ w, decide (b ≠ d) = true := by
      intro b held
      rw [decide_eq_true_eq]
      exact ne_of_mem_of_not_mem held whole
    rw [List.takeWhile_append_of_pos inside, none, List.append_nil]

/-- A segment after the first stands behind a delimiter. -/
theorem mem_splitOn_tail_iff {w s : List α} (whole : d ∉ w) :
    w ∈ (s.splitOn d).tail ↔ ∃ before rest, s = before ++ d :: (w ++ rest) ∧ SegmentEnds d rest := by
  induction s with
  | nil => simp
  | cons b s ih =>
      rw [splitOn_cons]
      by_cases here : b = d
      · subst here
        rw [if_pos rfl, List.tail_cons, splitOn_eq, List.mem_cons, ih, eq_comm, takeWhile_eq_iff whole]
        constructor
        · rintro (⟨rest, rfl, ends⟩ | ⟨before, rest, rfl, ends⟩)
          · exact ⟨[], rest, rfl, ends⟩
          · exact ⟨b :: before, rest, rfl, ends⟩
        · rintro ⟨before, rest, split, ends⟩
          cases before with
          | nil => exact .inl ⟨rest, (List.cons.inj split).2, ends⟩
          | cons c before => exact .inr ⟨before, rest, (List.cons.inj split).2, ends⟩
      · rw [if_neg here, List.tail_modifyHead, ih]
        constructor
        · rintro ⟨before, rest, rfl, ends⟩
          exact ⟨b :: before, rest, rfl, ends⟩
        · rintro ⟨before, rest, split, ends⟩
          cases before with
          | nil => exact absurd (List.cons.inj split).1 here
          | cons c before => exact ⟨before, rest, (List.cons.inj split).2, ends⟩

end Budyk.Lib
