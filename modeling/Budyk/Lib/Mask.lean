import Mathlib.Data.UInt

/-! A word as a set of bits: a bit is in it when the two meet. -/

namespace Budyk.Lib

/-- A word with one bit set. -/
def IsBit (b : UInt32) : Prop := ∃ i < 32, b.toBitVec = BitVec.twoPow 32 i

def meets (m b : UInt32) : Bool := m &&& b != 0

theorem meets_bit {b : UInt32} {i : Nat} (bound : i < 32) (single : b.toBitVec = BitVec.twoPow 32 i) (m : UInt32) :
    meets m b = m.toBitVec.getLsbD i := by
  have meet : (m &&& b).toBitVec = if m.toBitVec.getLsbD i then BitVec.twoPow 32 i else 0 := by
    rw [UInt32.toBitVec_and, single, BitVec.and_twoPow]
    rfl
  have one : BitVec.twoPow 32 i ≠ 0 := by
    intro zero
    have bit := congrArg (BitVec.getLsbD · i) zero
    simp [bound] at bit
  rw [meets]
  cases held : m.toBitVec.getLsbD i with
  | true =>
      rw [held, if_pos rfl] at meet
      rw [bne_iff_ne]
      rintro empty
      rw [empty] at meet
      exact one meet.symm
  | false =>
      rw [held] at meet
      have empty : m &&& b = 0 := UInt32.toBitVec_inj.mp meet
      rw [empty]
      rfl

section
variable {b : UInt32} (bit : IsBit b) (m n : UInt32)
include bit

theorem meets_or : meets (m ||| n) b = (meets m b || meets n b) := by
  obtain ⟨i, bound, single⟩ := bit
  simp [meets_bit bound single]

theorem meets_and : meets (m &&& n) b = (meets m b && meets n b) := by
  obtain ⟨i, bound, single⟩ := bit
  simp [meets_bit bound single]

theorem meets_not : meets (~~~m) b = !meets m b := by
  obtain ⟨i, bound, single⟩ := bit
  simp [meets_bit bound single, bound]

end

theorem meets_union (m a b : UInt32) : meets m (a ||| b) = (meets m a || meets m b) := by
  have split : m &&& (a ||| b) = m &&& a ||| m &&& b := UInt32.toBitVec_inj.mp BitVec.and_or_distrib_left
  rw [Bool.eq_iff_iff, Bool.or_eq_true, meets, meets, meets, bne_iff_ne, bne_iff_ne, bne_iff_ne,
    ← not_and_or, not_iff_not, split]
  exact UInt32.or_eq_zero_iff

theorem and_not_and_not (a b : UInt32) : a &&& ~~~(a &&& ~~~b) = a &&& b := by
  apply UInt32.toBitVec_inj.mp
  ext i bound
  simp only [UInt32.toBitVec_and, UInt32.toBitVec_not, BitVec.getElem_and, BitVec.getElem_not]
  cases a.toBitVec[i] <;> simp

theorem and_and_not_disjoint (a b c : UInt32) : a &&& b &&& (c &&& ~~~b) = 0 := by
  apply UInt32.toBitVec_inj.mp
  ext i bound
  simp only [UInt32.toBitVec_and, UInt32.toBitVec_not, BitVec.getElem_and, BitVec.getElem_not]
  cases b.toBitVec[i] <;> simp

end Budyk.Lib
