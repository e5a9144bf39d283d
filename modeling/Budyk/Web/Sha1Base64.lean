import Budyk.Lib.Text
import Mathlib.Data.List.GetD

/-! SHA-1, fed in pieces, and base64 (`web/sha1_base64.cpp`). -/

namespace Budyk.Web
open Lib

def rol (v n : UInt32) : UInt32 := (v <<< n) ||| (v >>> (32 - n))

structure Sha1State where
  a : UInt32
  b : UInt32
  c : UInt32
  d : UInt32
  e : UInt32
  deriving DecidableEq

namespace Sha1State

instance : Add Sha1State := ⟨fun s t => ⟨s.a + t.a, s.b + t.b, s.c + t.c, s.d + t.d, s.e + t.e⟩⟩

def words (s : Sha1State) : List UInt32 := [s.a, s.b, s.c, s.d, s.e]

end Sha1State

def wordAt (block : List UInt8) (i : Nat) : UInt32 :=
  ((block.getD (4 * i) 0).toUInt32 <<< 24) ||| ((block.getD (4 * i + 1) 0).toUInt32 <<< 16) |||
    ((block.getD (4 * i + 2) 0).toUInt32 <<< 8) ||| (block.getD (4 * i + 3) 0).toUInt32

/-- The words of the schedule after the first 16, newest first. -/
def expandWords : Nat → List UInt32 → List UInt32
  | 0, w => w
  | n + 1, w => expandWords n (rol (w.getD 2 0 ^^^ w.getD 7 0 ^^^ w.getD 13 0 ^^^ w.getD 15 0) 1 :: w)

def schedule (block : List UInt8) : List UInt32 :=
  (expandWords 64 ((List.range 16).map (wordAt block)).reverse).reverse

def sha1Round (s : Sha1State) (step : UInt32 × Nat) : Sha1State :=
  let (w, i) := step
  let (f, k) :=
    if i < 20 then ((s.b &&& s.c) ||| (~~~s.b &&& s.d), 0x5A827999)
    else if i < 40 then (s.b ^^^ s.c ^^^ s.d, 0x6ED9EBA1)
    else if i < 60 then ((s.b &&& s.c) ||| (s.b &&& s.d) ||| (s.c &&& s.d), 0x8F1BBCDC)
    else (s.b ^^^ s.c ^^^ s.d, 0xCA62C1D6)
  ⟨rol s.a 5 + f + s.e + k + w, s.a, rol s.b 30, s.c, s.d⟩

def sha1Block (state : Sha1State) (block : List UInt8) : Sha1State :=
  state + (schedule block).zipIdx.foldl sha1Round state

structure Sha1 where
  state : Sha1State
  bits : UInt64
  buf : List UInt8

namespace Sha1

def init : Sha1 := ⟨⟨0x67452301, 0xEFCDAB89, 0x98BADCFE, 0x10325476, 0xC3D2E1F0⟩, 0, []⟩

def blocks : Nat → Sha1State → List UInt8 → Sha1State
  | 0, state, _ => state
  | n + 1, state, p => blocks n (sha1Block state (p.take 64)) (p.drop 64)

def update (s : Sha1) (data : List UInt8) : Sha1 :=
  let bits := s.bits + UInt64.ofNat data.length * 8
  let want := 64 - s.buf.length
  let take := if data.length < want then data.length else want
  let (state, buf, data) :=
    if s.buf.length > 0 then
      let buf := s.buf ++ data.take take
      if buf.length = 64 then (sha1Block s.state buf, [], data.drop take) else (s.state, buf, data.drop take)
    else (s.state, s.buf, data)
  let state := blocks (data.length / 64) state data
  let rest := data.drop (data.length / 64 * 64)
  ⟨state, bits, if rest.length > 0 then rest else buf⟩

def final (s : Sha1) : List UInt8 :=
  let padding := if s.buf.length < 56 then 56 - s.buf.length else 120 - s.buf.length
  let padded := s.update (128 :: List.replicate (padding - 1) 0)
  let lengthBytes := (List.range 8).map fun i => (s.bits >>> UInt64.ofNat (56 - i * 8)).toUInt8
  (padded.update lengthBytes).state.words.flatMap fun w => [24, 16, 8, 0].map fun n => (w >>> n).toUInt8

end Sha1

def sha1 (data : List UInt8) : List UInt8 := (Sha1.init.update data).final

def kB64Alphabet : List UInt8 := text "ABCDEFGHIJKLMNOPQRSTUVWXYZabcdefghijklmnopqrstuvwxyz0123456789+/"

def base64Char (bits : UInt32) : UInt8 := kB64Alphabet.getD (bits &&& 0x3F).toNat 0

def base64Encode : List UInt8 → List UInt8
  | a :: b :: c :: rest =>
      let triple := (a.toUInt32 <<< 16) ||| (b.toUInt32 <<< 8) ||| c.toUInt32
      base64Char (triple >>> 18) :: base64Char (triple >>> 12) :: base64Char (triple >>> 6) :: base64Char triple ::
        base64Encode rest
  | [a, b] =>
      let triple := (a.toUInt32 <<< 16) ||| (b.toUInt32 <<< 8)
      [base64Char (triple >>> 18), base64Char (triple >>> 12), base64Char (triple >>> 6), 61]
  | [a] =>
      let triple := a.toUInt32 <<< 16
      [base64Char (triple >>> 18), base64Char (triple >>> 12), 61, 61]
  | [] => []

theorem sha1_length (data : List UInt8) : (sha1 data).length = 20 := rfl

theorem base64Encode_length (data : List UInt8) : (base64Encode data).length = (data.length + 2) / 3 * 4 := by
  induction data using base64Encode.induct with
  | case1 a b c rest ih =>
      simp only [base64Encode, List.length_cons, ih]
      omega
  | case2 | case3 | case4 => simp [base64Encode]

/-- Letters, digits, `+`, `/` and `=`. -/
theorem base64Encode_plain (data : List UInt8) : ∀ b ∈ base64Encode data, 43 ≤ b ∧ b ≤ 122 := by
  have all : (kB64Alphabet.all fun b => 43 ≤ b ∧ b ≤ 122) = true := by decide
  have alphabet : ∀ b ∈ kB64Alphabet, 43 ≤ b ∧ b ≤ 122 :=
    fun b held => of_decide_eq_true (List.all_eq_true.mp all b held)
  have size : kB64Alphabet.length = 64 := by decide
  have char : ∀ bits, 43 ≤ base64Char bits ∧ base64Char bits ≤ 122 := by
    intro bits
    have low : (bits &&& 0x3F).toNat < 64 := by
      rw [UInt32.toNat_and]
      exact Nat.lt_of_le_of_lt Nat.and_le_right (by decide)
    rw [base64Char, List.getD_eq_getElem _ _ (by omega)]
    exact alphabet _ (List.getElem_mem _)
  induction data using base64Encode.induct with
  | case1 a b c rest ih =>
      intro x held
      simp only [base64Encode, List.mem_cons] at held
      rcases held with rfl | rfl | rfl | rfl | later
      · exact char _
      · exact char _
      · exact char _
      · exact char _
      · exact ih x later
  | case2 a b =>
      intro x held
      simp only [base64Encode, List.mem_cons, List.not_mem_nil, or_false] at held
      rcases held with rfl | rfl | rfl | rfl
      · exact char _
      · exact char _
      · exact char _
      · decide
  | case3 a =>
      intro x held
      simp only [base64Encode, List.mem_cons, List.not_mem_nil, or_false] at held
      rcases held with rfl | rfl | rfl | rfl
      · exact char _
      · exact char _
      · decide
      · decide
  | case4 =>
      intro x held
      cases held

end Budyk.Web
