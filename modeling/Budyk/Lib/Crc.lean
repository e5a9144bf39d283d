import Mathlib.Data.Nat.Bitwise
import Mathlib.Logic.Function.Iterate
import Mathlib.Tactic.Ring

/-! Cyclic redundancy checks in reflected form, over a state of any width. The state is shifted
down, and the polynomial added where a one falls out. With a polynomial whose top bit is set, a
shift can be undone, and the bytes of one state's width cannot cancel each other. -/

namespace Budyk.Lib.Crc

variable {w : Nat} (poly : BitVec w)

def bitStep (c : BitVec w) : BitVec w := (c >>> 1) ^^^ (if c.getLsbD 0 then poly else 0)

def absorb (c : BitVec w) (b : BitVec 8) : BitVec w := (bitStep poly)^[8] (c ^^^ b.setWidth w)

def feed (c : BitVec w) (bytes : List (BitVec 8)) : BitVec w := bytes.foldl (absorb poly) c

/-! ## Shifts -/

theorem bitStep_xor (a b : BitVec w) : bitStep poly (a ^^^ b) = bitStep poly a ^^^ bitStep poly b := by
  have cancel : a >>> 1 ^^^ b >>> 1 = (a >>> 1 ^^^ poly) ^^^ (b >>> 1 ^^^ poly) := by
    rw [BitVec.xor_assoc, BitVec.xor_comm (b >>> 1) poly, ← BitVec.xor_assoc poly poly, BitVec.xor_self,
      BitVec.zero_xor]
  simp only [bitStep, BitVec.getLsbD_xor, BitVec.ushiftRight_xor_distrib]
  cases a.getLsbD 0 <;> cases b.getLsbD 0 <;> simp
  · exact BitVec.xor_assoc _ _ _
  · rw [BitVec.xor_assoc, BitVec.xor_comm (b >>> 1) poly, BitVec.xor_assoc]
  · exact cancel

theorem steps_xor (n : Nat) (a b : BitVec w) :
    (bitStep poly)^[n] (a ^^^ b) = (bitStep poly)^[n] a ^^^ (bitStep poly)^[n] b := by
  induction n generalizing a b with
  | zero => rfl
  | succ n ih => simp only [Function.iterate_succ_apply, bitStep_xor, ih]

theorem steps_of_low_clear {n : Nat} {x : BitVec w} (clear : ∀ i < n, x.getLsbD i = false) :
    (bitStep poly)^[n] x = x >>> n := by
  induction n with
  | zero => simp
  | succ n ih =>
      have low : (x >>> n).getLsbD 0 = false := by simpa using clear n (Nat.lt_succ_self n)
      rw [Function.iterate_succ_apply', ih fun i less => clear i (Nat.lt_succ_of_lt less), bitStep, low,
        BitVec.shiftRight_add]
      simp

theorem steps_split {n : Nat} (x : BitVec w) :
    (bitStep poly)^[n] x = (x >>> n) ^^^ (bitStep poly)^[n] ((x.setWidth n).setWidth w) := by
  have split : x = (x >>> n <<< n) ^^^ (x.setWidth n).setWidth w := by
    ext i inside
    by_cases low : i < n
    · simp [low, inside]
    · simp only [BitVec.getElem_xor, BitVec.getElem_shiftLeft, low, decide_false, Bool.not_false,
        Bool.true_and, BitVec.getElem_setWidth, BitVec.getLsbD_setWidth, Bool.false_and, Bool.xor_false,
        BitVec.getElem_ushiftRight]
      rw [Nat.add_sub_cancel' (Nat.le_of_not_lt low), BitVec.getLsbD_eq_getElem inside]
  have shifted : (bitStep poly)^[n] (x >>> n <<< n) = x >>> n := by
    rw [steps_of_low_clear poly fun i less => by simp [less]]
    ext i inside
    simp only [BitVec.getElem_ushiftRight, BitVec.getLsbD_shiftLeft, BitVec.getLsbD_ushiftRight]
    by_cases fits : n + i < w
    · simp [fits]
    · rw [BitVec.getLsbD_of_ge x (n + i) (by omega)]
      simp [fits]
  conv_lhs => rw [split]
  rw [steps_xor, shifted]

/-! ## Bit by bit -/

/-- One bit of the message: the polynomial is added where it and the bit that falls out differ. -/
def shiftIn (c : BitVec w) (bit : Bool) : BitVec w := (c >>> 1) ^^^ (if c.getLsbD 0 ^^ bit then poly else 0)

def feedBits (c : BitVec w) (bits : List Bool) : BitVec w := bits.foldl (shiftIn poly) c

/-- The lowest first. -/
def bitsOf (b : BitVec 8) : List Bool := (List.range 8).map b.getLsbD

theorem feedBits_range (c x : BitVec w) (n : Nat) :
    feedBits poly c ((List.range n).map x.getLsbD) = (bitStep poly)^[n] (c ^^^ x) ^^^ x >>> n := by
  induction n with
  | zero =>
      change c = c ^^^ x ^^^ x >>> 0
      rw [BitVec.ushiftRight_zero, BitVec.xor_assoc, BitVec.xor_self, BitVec.xor_zero]
  | succ n ih =>
      set y := (bitStep poly)^[n] (c ^^^ x)
      have low : ((y ^^^ x >>> n).getLsbD 0 ^^ x.getLsbD n) = y.getLsbD 0 := by
        rw [BitVec.getLsbD_xor, BitVec.getLsbD_ushiftRight, Nat.add_zero, Bool.xor_assoc, Bool.xor_self, Bool.xor_false]
      rw [feedBits, List.range_succ, List.map_append, List.foldl_append]
      change shiftIn poly (feedBits poly c ((List.range n).map x.getLsbD)) (x.getLsbD n) = _
      rw [ih, shiftIn, low, Function.iterate_succ_apply', bitStep, BitVec.ushiftRight_xor_distrib, BitVec.shiftRight_add]
      ac_rfl

theorem absorb_eq_feedBits (fits : 8 ≤ w) (c : BitVec w) (b : BitVec 8) :
    absorb poly c b = feedBits poly c (bitsOf b) := by
  have bits : bitsOf b = (List.range 8).map (b.setWidth w).getLsbD := by
    apply List.map_congr_left
    intro i inside
    have less := List.mem_range.mp inside
    rw [BitVec.getLsbD_setWidth, decide_eq_true (by omega : i < w), Bool.true_and]
  have none : b.setWidth w >>> 8 = 0 := by
    ext i inside
    simp [BitVec.getLsbD_of_ge b (8 + i) (by omega)]
  rw [bits, feedBits_range, none, absorb]
  exact BitVec.xor_zero.symm

theorem feed_eq_feedBits (fits : 8 ≤ w) (c : BitVec w) (bytes : List (BitVec 8)) :
    feed poly c bytes = feedBits poly c (bytes.flatMap bitsOf) := by
  induction bytes generalizing c with
  | nil => rfl
  | cons b bytes ih =>
      rw [List.flatMap_cons, feedBits, List.foldl_append]
      change feed poly (absorb poly c b) bytes = feedBits poly (feedBits poly c (bitsOf b)) (bytes.flatMap bitsOf)
      rw [ih, absorb_eq_feedBits poly fits]

/-! ## Undoing them -/

variable {poly}

theorem toNat_of_bitStep (top : poly.msb = true) {x : BitVec w}
    (small : (bitStep poly x).toNat < 2 ^ (w - 1)) : x.toNat = 2 * (bitStep poly x).toNat := by
  have wide : 0 < w := by
    rcases Nat.eq_zero_or_pos w with rfl | pos
    · simp [BitVec.msb_of_zero_length] at top
    · exact pos
  have clear : (bitStep poly x).getLsbD (w - 1) = false := by
    rw [BitVec.getLsbD, Nat.testBit_lt_two_pow small]
  have even : x.getLsbD 0 = false := by
    by_contra odd
    rw [Bool.not_eq_false] at odd
    have high : poly.getLsbD (w - 1) = true := by rw [← BitVec.msb_eq_getLsbD_last, top]
    have past : x.getLsbD (1 + (w - 1)) = false := BitVec.getLsbD_of_ge x _ (by omega)
    rw [bitStep, odd] at clear
    simp [high, past] at clear
  have halved : (bitStep poly x).toNat = x.toNat / 2 := by
    simp [bitStep, even, Nat.shiftRight_eq_div_pow]
  have parity : x.toNat % 2 = 0 := by
    rw [BitVec.getLsbD, Nat.testBit_zero] at even
    have := decide_eq_false_iff_not.mp even
    omega
  omega

theorem toNat_of_steps (top : poly.msb = true) {n : Nat} (fits : n ≤ w) {x : BitVec w}
    (small : ((bitStep poly)^[n] x).toNat < 2 ^ (w - n)) :
    x.toNat = 2 ^ n * ((bitStep poly)^[n] x).toNat := by
  induction n generalizing x with
  | zero => simp
  | succ n ih =>
      rw [Function.iterate_succ_apply] at small ⊢
      set last := ((bitStep poly)^[n] (bitStep poly x)).toNat
      have once := ih (by omega) (lt_of_lt_of_le small (Nat.pow_le_pow_right (by decide) (by omega)))
      have bound : 2 ^ n * last < 2 ^ (w - 1) := by
        calc 2 ^ n * last < 2 ^ n * 2 ^ (w - (n + 1)) := Nat.mul_lt_mul_of_pos_left small (Nat.two_pow_pos n)
          _ = 2 ^ (w - 1) := by rw [← pow_add, show n + (w - (n + 1)) = w - 1 by omega]
      rw [toNat_of_bitStep top (once ▸ bound), once, pow_succ]
      ring

theorem steps_injective (top : poly.msb = true) {n : Nat} (fits : n ≤ w) :
    Function.Injective (bitStep poly)^[n] := by
  intro a b same
  have none : (bitStep poly)^[n] (a ^^^ b) = 0 := by rw [steps_xor, same, BitVec.xor_self]; rfl
  have back := toNat_of_steps top fits (x := a ^^^ b) (by rw [none]; exact Nat.two_pow_pos _)
  rw [none] at back
  exact BitVec.xor_eq_zero_iff.mp (BitVec.eq_of_toNat_eq back)

/-! ## Bytes -/

theorem absorb_xor (c d : BitVec w) (a b : BitVec 8) :
    absorb poly c a ^^^ absorb poly d b =
      (bitStep poly)^[8] ((c ^^^ d) ^^^ (a ^^^ b).setWidth w) := by
  rw [absorb, absorb, ← steps_xor, BitVec.setWidth_xor]
  congr 1
  ac_rfl

theorem feed_injective (top : poly.msb = true) (fits : 8 ≤ w) (bytes : List (BitVec 8)) :
    Function.Injective fun c => feed poly c bytes := by
  induction bytes with
  | nil => exact fun _ _ same => same
  | cons b bytes ih =>
      intro c d same
      have once : absorb poly c b = absorb poly d b := ih same
      have same : c ^^^ b.setWidth w = d ^^^ b.setWidth w := steps_injective top fits once
      simpa [BitVec.xor_assoc] using congrArg (· ^^^ b.setWidth w) same

/-- States that end up the same differ only in the bits that the bytes fed since can reach. -/
theorem lt_of_feed_eq (top : poly.msb = true) {xs ys : List (BitVec 8)} (size : xs.length = ys.length)
    (fits : 8 * xs.length ≤ w) {c d : BitVec w} (same : feed poly c xs = feed poly d ys) :
    (c ^^^ d).toNat < 2 ^ (8 * xs.length) := by
  induction xs generalizing ys c d with
  | nil =>
      obtain rfl := List.length_eq_zero_iff.mp size.symm
      obtain rfl : c = d := same
      simp
  | cons x xs ih =>
      cases ys with
      | nil => cases size
      | cons y ys =>
          simp only [List.length_cons, Nat.add_right_cancel_iff, Nat.mul_add, Nat.mul_one] at size fits ⊢
          have after := ih size (by omega) (c := absorb poly c x) (d := absorb poly d y) same
          rw [absorb_xor] at after
          set z := (c ^^^ d) ^^^ (x ^^^ y).setWidth w
          have back := toNat_of_steps top (n := 8) (by omega) (x := z)
            (lt_of_lt_of_le after (Nat.pow_le_pow_right (by decide) (by omega)))
          have small : z.toNat < 2 ^ (8 * xs.length + 8) := by
            rw [back, pow_add]
            omega
          have byte : ((x ^^^ y).setWidth w).toNat < 2 ^ (8 * xs.length + 8) := by
            have less := (x ^^^ y).isLt
            have wider : 2 ^ 8 ≤ 2 ^ (8 * xs.length + 8) := Nat.pow_le_pow_right (by decide) (by omega)
            rw [BitVec.toNat_setWidth]
            exact lt_of_le_of_lt (Nat.mod_le _ _) (by omega)
          have undo : c ^^^ d = z ^^^ (x ^^^ y).setWidth w := by simp [z, BitVec.xor_assoc]
          rw [undo, BitVec.toNat_xor]
          exact Nat.xor_lt_two_pow small byte

/-- Bytes of no more than the state's width are told apart by what they leave. -/
theorem eq_of_feed_eq (top : poly.msb = true) {xs ys : List (BitVec 8)} (size : xs.length = ys.length)
    (fits : 8 * xs.length ≤ w) {c : BitVec w} (same : feed poly c xs = feed poly c ys) : xs = ys := by
  induction xs generalizing ys c with
  | nil => exact (List.length_eq_zero_iff.mp size.symm).symm
  | cons x xs ih =>
      cases ys with
      | nil => cases size
      | cons y ys =>
          simp only [List.length_cons, Nat.add_right_cancel_iff, Nat.mul_add, Nat.mul_one] at size fits
          have after := lt_of_feed_eq top size (by omega) (c := absorb poly c x) (d := absorb poly c y) same
          rw [absorb_xor, BitVec.xor_self, BitVec.zero_xor] at after
          have back := toNat_of_steps top (n := 8) (by omega) (x := (x ^^^ y).setWidth w)
            (lt_of_lt_of_le after (Nat.pow_le_pow_right (by decide) (by omega)))
          have byte := (x ^^^ y).isLt
          have less : 2 ^ 8 ≤ 2 ^ w := Nat.pow_le_pow_right (by decide) (by omega)
          rw [BitVec.toNat_setWidth, Nat.mod_eq_of_lt (by omega)] at back
          have none : x ^^^ y = 0 := BitVec.eq_of_toNat_eq (show (x ^^^ y).toNat = 0 by omega)
          obtain rfl : x = y := BitVec.xor_eq_zero_iff.mp none
          rw [ih size (by omega) same]

end Budyk.Lib.Crc
