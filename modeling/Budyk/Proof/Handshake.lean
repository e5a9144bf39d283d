import Budyk.Lib.Base64
import Budyk.Proof.Sha1
import Budyk.Web.Http

/-! The answer to a WebSocket key: a standard digest, in an encoding that reads back. -/

namespace Budyk.Proof
open Lib Web

theorem sextet_base64Char (bits : UInt32) : sextet (base64Char bits) = some (bits.toNat % 64) := by
  have all : ∀ i < 64, sextet (kB64Alphabet.getD i 0) = some i := by decide +kernel
  have low : (bits &&& 0x3F).toNat = bits.toNat % 64 := by
    rw [UInt32.toNat_and]
    exact Nat.and_two_pow_sub_one_eq_mod bits.toNat 6
  rw [base64Char, low]
  exact all _ (Nat.mod_lt _ (by decide))

theorem sextet_shifted {bits n : UInt32} (k : Nat) (amount : n.toNat = k) (short : k < 32) :
    sextet (base64Char (bits >>> n)) = some (bits.toNat / 2 ^ k % 64) := by
  rw [sextet_base64Char, UInt32.toNat_shiftRight, amount, Nat.mod_eq_of_lt short, Nat.shiftRight_eq_div_pow]

theorem toNat_one_high (a : UInt8) : (a.toUInt32 <<< 16).toNat = a.toNat * 65536 := by
  have ha := a.toNat_lt
  rw [UInt32.toNat_shiftLeft, Nat.shiftLeft_eq]
  change a.toNat * 2 ^ 16 % 2 ^ 32 = _
  omega

theorem toNat_two_high (a b : UInt8) : (a.toUInt32 <<< 16 ||| b.toUInt32 <<< 8).toNat = (a.toNat * 256 + b.toNat) * 256 := by
  have whole := toNat_three a b 0
  rw [show (0 : UInt8).toUInt32 = 0 from rfl, UInt32.or_zero] at whole
  exact whole.trans (Nat.add_zero _)

theorem group_bytes (t : Nat) :
    UInt8.ofNat (4 * (t / 2 ^ 18 % 64) + t / 2 ^ 12 % 64 / 16) = UInt8.ofNat (t / 65536) ∧
    UInt8.ofNat (t / 2 ^ 12 % 64 % 16 * 16 + t / 2 ^ 6 % 64 / 4) = UInt8.ofNat (t / 256) ∧
    UInt8.ofNat (t / 2 ^ 6 % 64 % 4 * 64 + t % 64) = UInt8.ofNat t := by
  refine ⟨?_, ?_, ?_⟩
  all_goals
    apply UInt8.toNat_inj.mp
    rw [UInt8.toNat_ofNat', UInt8.toNat_ofNat']
    omega

theorem byte_of_value {v : Nat} {b : UInt8} (value : v % 256 = b.toNat) : UInt8.ofNat v = b := by
  apply UInt8.toNat_inj.mp
  rw [UInt8.toNat_ofNat']
  exact value

theorem base64Decode_encode (data : List UInt8) : base64Decode (base64Encode data) = some data := by
  induction data using base64Encode.induct with
  | case1 a b c rest ih =>
      have ha := a.toNat_lt
      have hb := b.toNat_lt
      have hc := c.toNat_lt
      obtain ⟨first, second, third⟩ := group_bytes ((a.toNat * 256 + b.toNat) * 256 + c.toNat)
      rw [base64Encode, base64Decode_three (sextet_shifted 18 rfl (by decide)) (sextet_shifted 12 rfl (by decide))
        (sextet_shifted 6 rfl (by decide)) (sextet_base64Char _), ih, toNat_three, Option.map_some, first, second, third,
        @byte_of_value _ a (by omega), @byte_of_value _ b (by omega), @byte_of_value _ c (by omega)]
  | case2 a b =>
      have ha := a.toNat_lt
      have hb := b.toNat_lt
      obtain ⟨first, second, -⟩ := group_bytes ((a.toNat * 256 + b.toNat) * 256)
      rw [base64Encode, base64Decode_two (sextet_shifted 18 rfl (by decide)) (sextet_shifted 12 rfl (by decide))
        (sextet_shifted 6 rfl (by decide)) _, toNat_two_high, first, second]
      · rw [@byte_of_value _ a (by omega), @byte_of_value _ b (by omega)]
      · rw [toNat_two_high]
        omega
  | case3 a =>
      have ha := a.toNat_lt
      obtain ⟨first, -, -⟩ := group_bytes (a.toNat * 65536)
      rw [base64Encode, base64Decode_one (sextet_shifted 18 rfl (by decide)) (sextet_shifted 12 rfl (by decide)) _,
        toNat_one_high, first]
      · rw [@byte_of_value _ a (by omega)]
      · rw [toNat_one_high]
        omega
  | case4 => rfl

/-! ## Nothing else reads back -/

theorem char_of_sextet {c : UInt8} {v : Nat} (value : sextet c = some v) : v < 64 ∧ kB64Alphabet.getD v 0 = c := by
  have all : ((List.range 256).all fun n =>
      (sextet (UInt8.ofNat n)).all fun v => v < 64 ∧ kB64Alphabet.getD v 0 = UInt8.ofNat n) = true := by
    decide +kernel
  have one := List.all_eq_true.mp all c.toNat (List.mem_range.mpr c.toNat_lt)
  rw [UInt8.ofNat_toNat, value, Option.all_some, decide_eq_true_eq] at one
  exact one

theorem base64Char_eq {bits : UInt32} {c : UInt8} {v : Nat} (value : sextet c = some v) (low : bits.toNat % 64 = v) :
    base64Char bits = c := by
  have masked : (bits &&& 0x3F).toNat = v := by
    rw [UInt32.toNat_and, ← low]
    exact Nat.and_two_pow_sub_one_eq_mod bits.toNat 6
  rw [base64Char, masked]
  exact (char_of_sextet value).2

theorem base64Char_shifted {bits n : UInt32} {c : UInt8} {v : Nat} (k : Nat) (amount : n.toNat = k) (short : k < 32)
    (value : sextet c = some v) (low : bits.toNat / 2 ^ k % 64 = v) : base64Char (bits >>> n) = c := by
  apply base64Char_eq value
  rw [UInt32.toNat_shiftRight, amount, Nat.mod_eq_of_lt short, Nat.shiftRight_eq_div_pow, low]

theorem toNat_ofNat_byte {v : Nat} (small : v < 256) : (UInt8.ofNat v).toNat = v := by
  rw [UInt8.toNat_ofNat']
  exact Nat.mod_eq_of_lt small

theorem encode_of_group {a b c d : UInt8} {bytes : List UInt8} (group : base64Group a b c d = some bytes)
    (rest : List UInt8) (last : bytes.length = 3 ∨ rest = []) :
    base64Encode (bytes ++ rest) = a :: b :: c :: d :: base64Encode rest := by
  rw [base64Group] at group
  obtain ⟨p, first, later⟩ := Option.bind_eq_some_iff.mp group
  obtain ⟨q, second, -⟩ := Option.bind_eq_some_iff.mp later
  have hp := (char_of_sextet first).1
  have hq := (char_of_sextet second).1
  have high := toNat_ofNat_byte (show 4 * p + q / 16 < 256 by omega)
  rw [first, second, Option.bind_some, Option.bind_some] at group
  by_cases padded : c = base64Pad ∧ d = base64Pad
  · rw [if_pos padded] at group
    obtain ⟨whole, one⟩ := Option.ite_none_right_eq_some.mp group
    cases one
    obtain rfl : rest = [] := last.resolve_left (by simp)
    rw [List.append_nil, base64Encode, base64Char_shifted 18 rfl (by decide) first,
      base64Char_shifted 12 rfl (by decide) second, padded.1, padded.2]
    · rfl
    all_goals
      rw [toNat_one_high, high]
      omega
  rw [if_neg padded] at group
  obtain ⟨r, third, -⟩ := Option.bind_eq_some_iff.mp group
  have hr := (char_of_sextet third).1
  have middle := toNat_ofNat_byte (show q % 16 * 16 + r / 4 < 256 by omega)
  rw [third, Option.bind_some] at group
  by_cases two : d = base64Pad
  · rw [if_pos two] at group
    obtain ⟨whole, pair⟩ := Option.ite_none_right_eq_some.mp group
    cases pair
    obtain rfl : rest = [] := last.resolve_left (by simp)
    rw [List.append_nil, base64Encode, base64Char_shifted 18 rfl (by decide) first,
      base64Char_shifted 12 rfl (by decide) second, base64Char_shifted 6 rfl (by decide) third, two]
    · rfl
    all_goals
      rw [toNat_two_high, high, middle]
      omega
  rw [if_neg two] at group
  obtain ⟨s, fourth, rfl⟩ := Option.map_eq_some_iff.mp group
  have hs := (char_of_sextet fourth).1
  have low := toNat_ofNat_byte (show r % 4 * 64 + s < 256 by omega)
  simp only [List.cons_append, List.nil_append]
  rw [base64Encode, base64Char_shifted 18 rfl (by decide) first, base64Char_shifted 12 rfl (by decide) second,
    base64Char_shifted 6 rfl (by decide) third, base64Char_eq fourth]
  all_goals
    rw [toNat_three, high, middle, low]
    omega

theorem eq_encode_of_decode {s data : List UInt8} (reads : base64Decode s = some data) : s = base64Encode data := by
  induction s using base64Decode.induct generalizing data with
  | case1 =>
      cases reads
      rfl
  | case2 a b c d rest ih =>
      rw [base64Decode] at reads
      obtain ⟨bytes, group, reads⟩ := Option.bind_eq_some_iff.mp reads
      split at reads
      next last =>
        obtain ⟨tail, later, rfl⟩ := Option.map_eq_some_iff.mp reads
        have same := ih later
        rw [encode_of_group group tail, ← same]
        rcases last with whole | rfl
        · exact .inl whole
        · cases later
          exact .inr rfl
      next => cases reads
  | case3 s short long =>
      rw [base64Decode] at reads
      · cases reads
      · exact short
      · exact long

/-! ## The accept value -/

theorem sha1_eq_digest {data : List UInt8} (short : data.length < 2 ^ 61) : sha1 data = Fips180.digest data :=
  final_eq_digest (init_fed.update data) short

/-- A message fed in any pieces has the digest of FIPS 180-4; base64 has the length of RFC 4648 and is read back by a
strict decoder, and nothing else is read so; the accept value of a key is that of RFC 6455. -/
theorem accept_value_is_standard (pieces : List (List UInt8)) (data key : List UInt8)
    (short : pieces.flatten.length < 2 ^ 61) (fits : key.length + 36 < 2 ^ 61) :
    (pieces.foldl Sha1.update Sha1.init).final = Fips180.digest pieces.flatten ∧
    (base64Encode data).length = 4 * ((data.length + 2) / 3) ∧ base64Decode (base64Encode data) = some data ∧
    (∀ s, base64Decode s = some data → s = base64Encode data) ∧ wsAcceptKey key =
      base64Encode (Fips180.digest (key ++ text "258EAFA5-E914-47DA-95CA-C5AB0DC85B11")) := by
  refine ⟨?_, ?_, base64Decode_encode data, fun _ reads => eq_encode_of_decode reads, ?_⟩
  · exact final_eq_digest (foldl_fed pieces init_fed) short
  · rw [base64Encode_length, Nat.mul_comm]
  · rw [wsAcceptKey, sha1_eq_digest]
    rw [List.length_append]
    exact fits

theorem accept_value_is_standard_abc :
    Fips180.digest (text "abc") = [0xa9, 0x99, 0x3e, 0x36, 0x47, 0x06, 0x81, 0x6a, 0xba, 0x3e, 0x25, 0x71, 0x78, 0x50,
      0xc2, 0x6c, 0x9c, 0xd0, 0xd8, 0x9d] ∧
    base64Encode (Fips180.digest (text "dGhlIHNhbXBsZSBub25jZQ==" ++ text "258EAFA5-E914-47DA-95CA-C5AB0DC85B11")) =
      text "s3pPLMBiTxaQ9kYGzzhZRbK+xOo=" := by
  obtain ⟨fed, -, -, -, accept⟩ := accept_value_is_standard [text "a", [], text "bc"] []
    (text "dGhlIHNhbXBsZSBub25jZQ==") (by decide) (by decide)
  constructor
  · rw [show text "abc" = [text "a", [], text "bc"].flatten by decide, ← fed]
    decide +kernel
  · rw [← accept]
    decide +kernel

end Budyk.Proof
