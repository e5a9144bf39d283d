import Mathlib.Tactic.Ring
import Mathlib.Data.List.Basic

/-! Little-endian byte strings: the bytes of a number and the number of a byte string. -/

namespace Budyk.Lib

def leBytes : Nat → Nat → List UInt8
  | 0, _ => []
  | k + 1, n => UInt8.ofNat n :: leBytes k (n / 256)

def leValue : List UInt8 → Nat
  | [] => 0
  | b :: bytes => b.toNat + 256 * leValue bytes

@[simp] theorem leBytes_length (k n : Nat) : (leBytes k n).length = k := by
  induction k generalizing n with
  | zero => rfl
  | succ k ih => simp [leBytes, ih]

theorem leValue_leBytes (k n : Nat) : leValue (leBytes k n) = n % 256 ^ k := by
  induction k generalizing n with
  | zero => simp [leBytes, leValue, Nat.mod_one]
  | succ k ih =>
      have byte : (UInt8.ofNat n).toNat = n % 256 := by simp
      rw [leBytes, leValue, byte, ih, pow_succ', Nat.mod_mul]

theorem leValue_lt (bytes : List UInt8) : leValue bytes < 256 ^ bytes.length := by
  induction bytes with
  | nil => exact Nat.one_pos
  | cons b bytes ih =>
      have byte := b.toNat_lt
      rw [leValue, List.length_cons, pow_succ']
      omega

theorem leValue_inj {xs ys : List UInt8} (size : xs.length = ys.length) (same : leValue xs = leValue ys) :
    xs = ys := by
  induction xs generalizing ys with
  | nil => exact (List.length_eq_zero_iff.mp size.symm).symm
  | cons x xs ih =>
      cases ys with
      | nil => cases size
      | cons y ys =>
          have low := x.toNat_lt
          have low' := y.toNat_lt
          simp only [leValue] at same
          rw [ih (by simpa using size) (by omega), UInt8.toNat_inj.mp (show x.toNat = y.toNat by omega)]

end Budyk.Lib
