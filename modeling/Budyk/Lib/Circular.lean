import Mathlib.Logic.Function.Basic
import Mathlib.Data.List.Range
import Mathlib.Order.Basic

/-! A circular store: item `i` of a log lives in slot `i % cap` until item `i + cap` takes it. -/

namespace Budyk.Lib

theorem mod_ne_of_lt {cap i j : Nat} (before : i < j) (near : j < i + cap) : i % cap ≠ j % cap := by
  intro same
  have split : j - i = cap * (j / cap - i / cap) := by
    have hi := Nat.div_add_mod i cap
    have hj := Nat.div_add_mod j cap
    rw [Nat.mul_sub]
    omega
  have positive : 0 < j / cap - i / cap := by
    rcases Nat.eq_zero_or_pos (j / cap - i / cap) with zero | pos
    · rw [zero, Nat.mul_zero] at split
      omega
    · exact pos
  have lap := Nat.le_mul_of_pos_right cap positive
  omega

theorem exists_mod_eq {cap j : Nat} (lo : Nat) (inside : j < cap) :
    ∃ i, lo ≤ i ∧ i < lo + cap ∧ i % cap = j := by
  have bound := Nat.mod_lt lo (by omega : 0 < cap)
  have value := Nat.div_add_mod lo cap
  by_cases below : lo % cap ≤ j
  · refine ⟨lo + (j - lo % cap), by omega, by omega, ?_⟩
    rw [show lo + (j - lo % cap) = j + cap * (lo / cap) by omega, Nat.add_mul_mod_self_left]
    exact Nat.mod_eq_of_lt inside
  · refine ⟨lo + (cap - lo % cap) + j, by omega, by omega, ?_⟩
    rw [show lo + (cap - lo % cap) + j = j + cap + cap * (lo / cap) by omega,
      Nat.add_mul_mod_self_left, Nat.add_mod_right]
    exact Nat.mod_eq_of_lt inside

section Store
variable {α : Type}

def Holds (cap : Nat) (slots : Nat → α) (log : Nat → α) (lo hi : Nat) : Prop :=
  ∀ i, lo ≤ i → i < hi → slots (i % cap) = log i

theorem Holds.write {cap lo hi lo' : Nat} {slots log : Nat → α} (holds : Holds cap slots log lo hi)
    (low : lo ≤ lo') (room : hi < lo' + cap) (item : α) :
    Holds cap (Function.update slots (hi % cap) item) (Function.update log hi item) lo' (hi + 1) := by
  intro i hl hh
  rcases Nat.lt_succ_iff_lt_or_eq.mp hh with before | rfl
  · rw [Function.update_of_ne (mod_ne_of_lt before (by omega)), Function.update_of_ne (by omega)]
    exact holds i (by omega) before
  · rw [Function.update_self, Function.update_self]

end Store

end Budyk.Lib
