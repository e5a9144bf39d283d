import Mathlib.Data.List.Basic

/-! A stream taken in block by block: what the whole blocks make of a state, and what is left over. -/

namespace Budyk.Lib
variable {α σ : Type} (f : σ → List α → σ) (k : Nat)

def foldBlocks : Nat → σ → List α → σ
  | 0, s, _ => s
  | n + 1, s, xs => foldBlocks n (f s (xs.take k)) (xs.drop k)

def absorbed (s : σ) (xs : List α) : σ := foldBlocks f k (xs.length / k) s xs

def residue (xs : List α) : List α := xs.drop (xs.length / k * k)

theorem foldBlocks_add (m n : Nat) (s : σ) (xs : List α) :
    foldBlocks f k (m + n) s xs = foldBlocks f k n (foldBlocks f k m s xs) (xs.drop (m * k)) := by
  induction m generalizing s xs with
  | zero => rw [Nat.zero_add, Nat.zero_mul, List.drop_zero]; rfl
  | succ m ih =>
      rw [Nat.succ_add, foldBlocks, ih, List.drop_drop, Nat.succ_mul, Nat.add_comm k]
      rfl

theorem foldBlocks_append {n : Nat} {xs : List α} (enough : n * k ≤ xs.length) (s : σ) (ys : List α) :
    foldBlocks f k n s (xs ++ ys) = foldBlocks f k n s xs := by
  induction n generalizing s xs with
  | zero => rfl
  | succ n ih =>
      rw [Nat.succ_mul] at enough
      rw [foldBlocks, foldBlocks, List.take_append_of_le_length (by omega), List.drop_append_of_le_length (by omega)]
      apply ih
      rw [List.length_drop]
      omega

variable {k}

theorem residue_length (pos : 0 < k) (xs : List α) : (residue k xs).length = xs.length % k := by
  have split := Nat.div_add_mod xs.length k
  rw [Nat.mul_comm] at split
  rw [residue, List.length_drop]
  omega

theorem residue_length_lt (pos : 0 < k) (xs : List α) : (residue k xs).length < k := by
  rw [residue_length pos]
  exact Nat.mod_lt _ pos

theorem absorbed_of_short {xs : List α} (short : xs.length < k) (s : σ) : absorbed f k s xs = s := by
  rw [absorbed, Nat.div_eq_of_lt short]
  rfl

theorem residue_of_short {xs : List α} (short : xs.length < k) : residue k xs = xs := by
  rw [residue, Nat.div_eq_of_lt short, Nat.zero_mul, List.drop_zero]

/-- The blocks of the whole: those of the first part, and those of what it left over and the second. -/
theorem length_div_append (pos : 0 < k) (xs ys : List α) :
    (xs ++ ys).length / k = xs.length / k + (residue k xs ++ ys).length / k := by
  have split := Nat.div_add_mod xs.length k
  rw [List.length_append, List.length_append, residue_length pos]
  conv_lhs => rw [← split, Nat.add_assoc, Nat.mul_add_div pos]

theorem drop_append_residue (pos : 0 < k) (xs ys : List α) :
    (xs ++ ys).drop (xs.length / k * k) = residue k xs ++ ys := by
  rw [List.drop_append_of_le_length (Nat.div_mul_le_self xs.length k), residue]

theorem absorbed_append (pos : 0 < k) (s : σ) (xs ys : List α) :
    absorbed f k s (xs ++ ys) = absorbed f k (absorbed f k s xs) (residue k xs ++ ys) := by
  rw [absorbed, length_div_append pos, foldBlocks_add, drop_append_residue pos,
    foldBlocks_append f k (Nat.div_mul_le_self xs.length k)]
  rfl

theorem residue_append (pos : 0 < k) (xs ys : List α) : residue k (xs ++ ys) = residue k (residue k xs ++ ys) := by
  rw [residue, length_div_append pos, Nat.add_mul, ← List.drop_drop, drop_append_residue pos]
  rfl

theorem absorbed_block {block : List α} (size : block.length = k) (pos : 0 < k) (s : σ) (ys : List α) :
    absorbed f k s (block ++ ys) = absorbed f k (f s block) ys := by
  have one : block.length / k = 1 := by rw [size, Nat.div_self pos]
  have none : residue k block = [] := by rw [residue, one, Nat.one_mul, ← size, List.drop_length]
  rw [absorbed_append f pos, none, List.nil_append, absorbed, absorbed, absorbed, one, foldBlocks, ← size,
    List.take_length]
  rfl

theorem residue_block {block : List α} (size : block.length = k) (pos : 0 < k) (ys : List α) :
    residue k (block ++ ys) = residue k ys := by
  have none : residue k block = [] := by
    rw [residue, size, Nat.div_self pos, Nat.one_mul, ← size, List.drop_length]
  rw [residue_append pos, none, List.nil_append]

end Budyk.Lib
