import Mathlib.Data.List.Basic

/-! `std::string::find` and `rfind`: where a text first and last occurs in another. -/

namespace Budyk.Lib
variable {α : Type} [DecidableEq α]

def find (needle : List α) : List α → Option Nat
  | [] => if needle = [] then some 0 else none
  | b :: rest => if needle <+: b :: rest then some 0 else (find needle rest).map (· + 1)

/-- `body.find(needle, from)` -/
def findFrom (needle body : List α) (start : Nat) : Option Nat :=
  if start ≤ body.length then (find needle (body.drop start)).map (start + ·) else none

def rfind (needle : List α) : List α → Option Nat
  | [] => if needle = [] then some 0 else none
  | b :: rest => match rfind needle rest with
      | some at_ => some (at_ + 1)
      | none => if needle <+: b :: rest then some 0 else none

theorem find_some {needle s : List α} {at_ : Nat} (found : find needle s = some at_) :
    needle <+: s.drop at_ ∧ ∀ k < at_, ¬needle <+: s.drop k := by
  induction s generalizing at_ with
  | nil =>
      rw [find] at found
      split at found
      next empty =>
        cases found
        exact ⟨by simp [empty], fun k small => absurd small (Nat.not_lt_zero k)⟩
      next => cases found
  | cons b s ih =>
      rw [find] at found
      split at found
      next here =>
        cases found
        exact ⟨here, fun k small => absurd small (Nat.not_lt_zero k)⟩
      next other =>
        obtain ⟨later, foundLater, rfl⟩ := Option.map_eq_some_iff.mp found
        obtain ⟨there, first⟩ := ih foundLater
        refine ⟨there, fun k small => ?_⟩
        cases k with
        | zero => exact other
        | succ k => exact first k (Nat.lt_of_succ_lt_succ small)

theorem find_none {needle s : List α} (absent : find needle s = none) (k : Nat) : ¬needle <+: s.drop k := by
  induction s generalizing k with
  | nil =>
      rw [find] at absent
      split at absent
      next => cases absent
      next present => simpa using present
  | cons b s ih =>
      rw [find] at absent
      split at absent
      next => cases absent
      next other =>
        cases k with
        | zero => exact other
        | succ k => exact ih (Option.map_eq_none_iff.mp absent) k

theorem find_length {needle s : List α} {at_ : Nat} (found : find needle s = some at_) :
    at_ + needle.length ≤ s.length ∨ needle = [] := by
  have short := (find_some found).1.length_le
  rw [List.length_drop] at short
  cases needle with
  | nil => exact .inr rfl
  | cons b needle =>
      rw [List.length_cons] at *
      omega

theorem find_here {needle : List α} (s : List α) : find needle (needle ++ s) = some 0 := by
  unfold find
  split
  next empty => exact if_pos (List.append_eq_nil_iff.mp empty).1
  next whole => rw [← whole, if_pos (List.prefix_append _ _)]

/-- Text in which the needle does not begin is passed over. -/
theorem find_skip {needle first rest : List α} {at_ : Nat} (found : find needle rest = some at_)
    (passes : ∀ k < first.length, ¬needle <+: (first ++ rest).drop k) :
    find needle (first ++ rest) = some (first.length + at_) := by
  induction first with
  | nil => simpa using found
  | cons b first ih =>
      have later := ih fun k small => by
        simpa using passes (k + 1) (by simpa using small)
      have here := passes 0 (by simp)
      rw [List.drop_zero, List.cons_append] at here
      rw [List.cons_append, find, if_neg here, later, List.length_cons]
      simp only [Option.map_some]
      congr 1
      omega

/-! ## Passing over -/

/-- No occurrence begins in the first part. -/
def Passes (needle first rest : List α) : Prop := ∀ k < first.length, ¬needle <+: (first ++ rest).drop k

section Passes
variable {needle first second rest : List α}

omit [DecidableEq α] in
theorem Passes.append (one : Passes needle first (second ++ rest)) (two : Passes needle second rest) :
    Passes needle (first ++ second) rest := by
  intro k inside
  rw [List.append_assoc]
  rcases Nat.lt_or_ge k first.length with here | later
  · exact one k here
  · rw [List.length_append] at inside
    rw [List.drop_append, List.drop_of_length_le later, List.nil_append]
    exact two (k - first.length) (by omega)

omit [DecidableEq α] in
theorem passes_of_not_mem {b : α} (absent : b ∉ first) : Passes (b :: needle) first rest := by
  intro k inside occurs
  rw [List.drop_append_of_le_length (Nat.le_of_lt inside), List.drop_eq_getElem_cons inside] at occurs
  obtain ⟨rfl, -⟩ := List.cons_prefix_cons.mp occurs
  exact absent (List.getElem_mem inside)

theorem find_passes (passes : Passes needle first (needle ++ rest)) :
    find needle (first ++ (needle ++ rest)) = some first.length :=
  find_skip (find_here rest) passes

theorem find_ge {at_ : Nat} (passes : Passes needle first rest) (found : find needle (first ++ rest) = some at_) :
    first.length ≤ at_ :=
  Nat.not_lt.mp fun inside => passes at_ inside (find_some found).1

theorem find_le {s : List α} {i : Nat} (occurs : needle <+: s.drop i) : ∃ at_ ≤ i, find needle s = some at_ := by
  cases found : find needle s with
  | none => exact absurd occurs (find_none found i)
  | some at_ => exact ⟨at_, Nat.not_lt.mp fun later => (find_some found).2 i later occurs, rfl⟩

theorem rfind_none {s : List α} (absent : ∀ k, ¬needle <+: s.drop k) : rfind needle s = none := by
  induction s with
  | nil =>
      rw [rfind, if_neg]
      rintro rfl
      exact absent 0 (List.nil_prefix)
  | cons b s ih =>
      rw [rfind, ih fun k => absent (k + 1)]
      exact if_neg (absent 0)

/-- The last occurrence: none begins further on. -/
theorem rfind_last (first : List α) (alone : ∀ k, 0 < k → ¬needle <+: (needle ++ rest).drop k) :
    rfind needle (first ++ (needle ++ rest)) = some first.length := by
  induction first with
  | nil =>
      cases needle with
      | nil => exact absurd List.nil_prefix (alone 1 (by decide))
      | cons b needle =>
          have later : rfind (b :: needle) (needle ++ rest) = none := rfind_none fun k => alone (k + 1) (Nat.succ_pos k)
          rw [List.nil_append, List.cons_append, rfind, later]
          exact if_pos (List.prefix_append _ _)
  | cons b first ih =>
      rw [List.cons_append, rfind, ih]
      rfl

end Passes

theorem findFrom_drop {needle body : List α} {start at_ : Nat} (within : start ≤ body.length)
    (found : find needle (body.drop start) = some at_) : findFrom needle body start = some (start + at_) := by
  rw [findFrom, if_pos within, found]
  rfl

theorem findFrom_some {needle body : List α} {start at_ : Nat} (found : findFrom needle body start = some at_) :
    start ≤ at_ ∧ needle <+: body.drop at_ ∧ ∀ k < at_, start ≤ k → ¬needle <+: body.drop k := by
  rw [findFrom] at found
  split at found
  · obtain ⟨i, there, rfl⟩ := Option.map_eq_some_iff.mp found
    obtain ⟨occurs, before⟩ := find_some there
    rw [List.drop_drop] at occurs
    refine ⟨Nat.le_add_right _ _, occurs, ?_⟩
    intro k less behind
    have earlier := before (k - start) (by omega)
    rwa [List.drop_drop, Nat.add_sub_cancel' behind] at earlier
  · cases found

theorem findFrom_le {needle body : List α} {start at_ : Nat} (found : findFrom needle body start = some at_) :
    at_ ≤ body.length := by
  obtain ⟨-, occurs, before⟩ := findFrom_some found
  rw [findFrom] at found
  split at found
  · rcases Nat.lt_or_ge body.length at_ with past | within
    · have first := before body.length past (by assumption)
      rw [List.drop_eq_nil_of_le (Nat.le_of_lt past)] at occurs
      rw [List.drop_length] at first
      exact absurd occurs first
    · exact within
  · cases found

theorem findFrom_none {needle body : List α} {start : Nat} (within : start ≤ body.length)
    (absent : findFrom needle body start = none) (k : Nat) (behind : start ≤ k) : ¬needle <+: body.drop k := by
  rw [findFrom, if_pos within, Option.map_eq_none_iff] at absent
  have never := find_none absent (k - start)
  rwa [List.drop_drop, Nat.add_sub_cancel' behind] at never

theorem findFrom_first {needle body : List α} {start at_ : Nat} (within : start ≤ body.length) (behind : start ≤ at_)
    (occurs : needle <+: body.drop at_) (first : ∀ k < at_, start ≤ k → ¬needle <+: body.drop k) :
    findFrom needle body start = some at_ := by
  have there : needle <+: (body.drop start).drop (at_ - start) := by rwa [List.drop_drop, Nat.add_sub_cancel' behind]
  obtain ⟨i, le, found⟩ := find_le there
  have at_i := (find_some found).1
  rw [List.drop_drop] at at_i
  have same : start + i = at_ := by
    apply Nat.le_antisymm
    · omega
    · exact Nat.not_lt.mp fun before => first _ before (Nat.le_add_right _ _) at_i
  rw [findFrom_drop within found, same]

theorem findFrom_never {needle body : List α} {start : Nat} (never : ∀ k, start ≤ k → ¬needle <+: body.drop k) :
    findFrom needle body start = none := by
  rw [findFrom]
  split
  · cases found : find needle (body.drop start) with
    | none => rfl
    | some i =>
        have occurs := (find_some found).1
        rw [List.drop_drop] at occurs
        exact absurd occurs (never _ (Nat.le_add_right _ _))
  · rfl

theorem findFrom_passes {needle first rest : List α} (before : List α) (passes : Passes needle first (needle ++ rest)) :
    findFrom needle (before ++ (first ++ (needle ++ rest))) before.length = some (before.length + first.length) := by
  apply findFrom_drop
  · rw [List.length_append]
    exact Nat.le_add_right _ _
  · rw [List.drop_left]
    exact find_passes passes

end Budyk.Lib
