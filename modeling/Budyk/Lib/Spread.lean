import Mathlib.Algebra.Order.Floor.Div
import Mathlib.Data.Nat.Order.Lemmas

/-! The even spread of `0 … n` over `d` steps, rounded down: `k * n / d`. -/

namespace Budyk.Lib
variable {n d : Nat}

theorem spread_step (pos : 0 < d) (k : Nat) :
    (k + 1) * n / d = k * n / d + n / d ∨ (k + 1) * n / d = k * n / d + n ⌈/⌉ d := by
  rw [Nat.succ_mul, Nat.add_div pos]
  split
  next carry =>
    right
    have rest : 0 < n % d := by
      have less := Nat.mod_lt (k * n) pos
      omega
    have ceil : n ⌈/⌉ d = n / d + 1 := by
      have split := Nat.div_add_mod n d
      have less := Nat.mod_lt n pos
      rw [Nat.ceilDiv_eq_add_pred_div, show n + d - 1 = (n % d - 1) + d * (n / d + 1) by rw [Nat.mul_succ]; omega,
        Nat.add_mul_div_left _ _ pos, Nat.div_eq_of_lt (by omega), Nat.zero_add]
    rw [ceil]
    rfl
  next none => exact Or.inl rfl

theorem spread_lt_succ (pos : 0 < d) (le : d ≤ n) (k : Nat) : k * n / d < (k + 1) * n / d := by
  have one : 1 ≤ n / d := Nat.div_pos le pos
  rw [Nat.succ_mul, Nat.add_div pos]
  omega

theorem spread_strictMono (pos : 0 < d) (le : d ≤ n) : StrictMono fun k => k * n / d :=
  strictMono_nat_of_lt_succ (spread_lt_succ pos le)

end Budyk.Lib
