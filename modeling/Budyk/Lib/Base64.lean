import Budyk.Lib.Text

/-! Base64 (RFC 4648), read strictly: whole groups of four characters, `=` only at the end, and no bits left over. -/

namespace Budyk.Lib

def sextet (c : UInt8) : Option Nat :=
  if 65 ≤ c && c ≤ 90 then some (c.toNat - 65)
  else if 97 ≤ c && c ≤ 122 then some (c.toNat - 71)
  else if 48 ≤ c && c ≤ 57 then some (c.toNat + 4)
  else if c = 43 then some 62
  else if c = 47 then some 63
  else none

abbrev base64Pad : UInt8 := 61

/-- The bytes of a group; fewer than three where it is padded. -/
def base64Group (a b c d : UInt8) : Option (List UInt8) :=
  (sextet a).bind fun p => (sextet b).bind fun q =>
    if c = base64Pad ∧ d = base64Pad then
      if q % 16 = 0 then some [UInt8.ofNat (4 * p + q / 16)] else none
    else (sextet c).bind fun r =>
      if d = base64Pad then
        if r % 4 = 0 then some [UInt8.ofNat (4 * p + q / 16), UInt8.ofNat (q % 16 * 16 + r / 4)] else none
      else (sextet d).map fun s =>
        [UInt8.ofNat (4 * p + q / 16), UInt8.ofNat (q % 16 * 16 + r / 4), UInt8.ofNat (r % 4 * 64 + s)]

def base64Decode : List UInt8 → Option (List UInt8)
  | [] => some []
  | a :: b :: c :: d :: rest =>
      (base64Group a b c d).bind fun bytes =>
        if bytes.length = 3 ∨ rest = [] then (base64Decode rest).map (bytes ++ ·) else none
  | _ => none

section Groups
variable {p q r s : Nat} {a b c d : UInt8} {rest : List UInt8}

theorem sextet_ne_pad (value : sextet a = some p) : a ≠ base64Pad := by
  rintro rfl
  revert value
  simp +decide [sextet]

theorem base64Decode_three (first : sextet a = some p) (second : sextet b = some q) (third : sextet c = some r)
    (fourth : sextet d = some s) : base64Decode (a :: b :: c :: d :: rest) = (base64Decode rest).map
      (UInt8.ofNat (4 * p + q / 16) :: UInt8.ofNat (q % 16 * 16 + r / 4) :: UInt8.ofNat (r % 4 * 64 + s) :: ·) := by
  rw [base64Decode, base64Group, first, second, third, fourth]
  simp only [Option.bind_some, sextet_ne_pad third, sextet_ne_pad fourth, false_and, if_false, Option.map_some,
    List.length_cons, List.length_nil, true_or, if_true]
  rfl

theorem base64Decode_two (first : sextet a = some p) (second : sextet b = some q) (third : sextet c = some r)
    (whole : r % 4 = 0) : base64Decode [a, b, c, base64Pad] =
      some [UInt8.ofNat (4 * p + q / 16), UInt8.ofNat (q % 16 * 16 + r / 4)] := by
  rw [base64Decode, base64Group, first, second, third]
  simp [sextet_ne_pad third, whole, base64Decode]

theorem base64Decode_one (first : sextet a = some p) (second : sextet b = some q) (whole : q % 16 = 0) :
    base64Decode [a, b, base64Pad, base64Pad] = some [UInt8.ofNat (4 * p + q / 16)] := by
  rw [base64Decode, base64Group, first, second]
  simp [whole, base64Decode]

end Groups

end Budyk.Lib
