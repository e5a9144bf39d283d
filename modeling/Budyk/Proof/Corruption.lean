import Budyk.Lib.Crc
import Budyk.Storage.Codec

/-! The CRC of a record tells a damaged record from the one that was written: no change within four
consecutive bytes, and none of the CRC field, gets past the decoder. -/

namespace Budyk.Proof
open Lib Storage

def poly : BitVec 32 := kCrc32cPolyReflected.toBitVec

theorem poly_msb : poly.msb = true := by decide

theorem crc32cBit_toBitVec (c : UInt32) : (crc32cBit c).toBitVec = Crc.bitStep poly c.toBitVec := by
  have masked : (0 - (c &&& 1)).toBitVec = if c.toBitVec.getLsbD 0 then BitVec.allOnes 32 else 0 := by
    rw [UInt32.toBitVec_sub, UInt32.toBitVec_and, UInt32.toBitVec_one,
      BitVec.and_one_eq_setWidth_ofBool_getLsbD]
    cases c.toBitVec.getLsbD 0 <;> rfl
  rw [crc32cBit, UInt32.toBitVec_xor, UInt32.toBitVec_and, masked, Crc.bitStep]
  cases c.toBitVec.getLsbD 0
  · simp
  · rw [if_pos rfl, if_pos rfl, BitVec.and_allOnes]
    rfl

theorem crc32cBit_iterate (n : Nat) (c : UInt32) :
    (crc32cBit^[n] c).toBitVec = (Crc.bitStep poly)^[n] c.toBitVec := by
  induction n generalizing c with
  | zero => rfl
  | succ n ih => rw [Function.iterate_succ_apply, Function.iterate_succ_apply, ih, crc32cBit_toBitVec]

theorem table_toBitVec (i : UInt32) (small : i.toNat < 256) :
    (makeCrc32cTable.getD i.toNat 0).toBitVec = (Crc.bitStep poly)^[8] i.toBitVec := by
  have entry : makeCrc32cTable.getD i.toNat 0 = crc32cBit^[8] i := by
    rw [makeCrc32cTable, Vector.getD, Array.getD_eq_getD_getElem?]
    simp [small]
  rw [entry, crc32cBit_iterate]

theorem crc32cByte_toBitVec (c : UInt32) (b : UInt8) :
    (crc32cByte c b).toBitVec = Crc.absorb poly c.toBitVec b.toBitVec := by
  set x := c ^^^ b.toUInt32
  have masked : (x &&& 0xFF).toNat = x.toNat % 2 ^ 8 := by
    rw [UInt32.toNat_and]
    exact Nat.and_two_pow_sub_one_eq_mod x.toNat 8
  have small : (x &&& 0xFF).toNat < 256 := by
    rw [masked]
    exact Nat.mod_lt _ (by decide)
  have low : (x &&& 0xFF).toBitVec = (x.toBitVec.setWidth 8).setWidth 32 := by
    apply BitVec.eq_of_toNat_eq
    rw [BitVec.toNat_setWidth, BitVec.toNat_setWidth, UInt32.toNat_toBitVec, UInt32.toNat_toBitVec,
      ← masked, Nat.mod_eq_of_lt (by omega)]
  have sum : x.toBitVec = c.toBitVec ^^^ b.toBitVec.setWidth 32 := rfl
  have shifted : (c.toBitVec ^^^ b.toBitVec.setWidth 32) >>> 8 = c.toBitVec >>> 8 := by
    have none : b.toBitVec.setWidth 32 >>> 8 = 0 := by
      ext i inside
      simp
    rw [BitVec.ushiftRight_xor_distrib, none]
    exact BitVec.xor_zero
  rw [Crc.absorb, Crc.steps_split, shifted, ← sum, ← low, ← table_toBitVec _ small]
  rfl

theorem crc32c_toBitVec (data : List UInt8) (c : UInt32) :
    (data.foldl crc32cByte c).toBitVec = Crc.feed poly c.toBitVec (data.map UInt8.toBitVec) := by
  induction data generalizing c with
  | nil => rfl
  | cons b data ih =>
      rw [List.foldl_cons, ih, crc32cByte_toBitVec]
      rfl

theorem crc32c_append (a b : List UInt8) (seed : UInt32) : crc32c b (crc32c a seed) = crc32c (a ++ b) seed := by
  rw [crc32c, crc32c, crc32c, UInt32.not_not, List.foldl_append]

theorem recordCrc_eq (head payload : List UInt8) : recordCrc head payload = crc32c (head ++ payload) :=
  crc32c_append head payload 0

theorem feed_of_crc32c_eq {xs ys : List UInt8} (same : crc32c xs = crc32c ys) :
    Crc.feed poly (~~~(0 : UInt32)).toBitVec (xs.map UInt8.toBitVec) =
      Crc.feed poly (~~~(0 : UInt32)).toBitVec (ys.map UInt8.toBitVec) := by
  rw [← crc32c_toBitVec, ← crc32c_toBitVec]
  exact congrArg UInt32.toBitVec (UInt32.not_inj.mp same)

/-! ## Bit by bit -/

theorem crc32c_bits (data : List UInt8) (seed : UInt32) : (crc32c data seed).toBitVec =
    ~~~Crc.feedBits 0x82F63B78#32 (~~~seed.toBitVec) (data.flatMap fun b => Crc.bitsOf b.toBitVec) := by
  have bytes : (data.flatMap fun b => Crc.bitsOf b.toBitVec) = (data.map UInt8.toBitVec).flatMap Crc.bitsOf := by
    rw [List.flatMap_map]
  rw [bytes, ← Crc.feed_eq_feedBits 0x82F63B78#32 (by decide)]
  change ~~~(data.foldl crc32cByte (~~~seed)).toBitVec = _
  rw [crc32c_toBitVec]
  rfl

theorem recordDecode_crc {buf : Record} (long : kRecordHeaderSize < buf.length) (out : Sample) :
    recordDecode buf out = .error (.rc (-3)) ↔
      crc32c (buf.take 10 ++ buf.drop kRecordHeaderSize) ≠ crcStored buf := by
  rw [recordDecode_of_long long, crcComputed, recordCrc_eq]
  by_cases differs : crc32c (buf.take 10 ++ buf.drop kRecordHeaderSize) = crcStored buf
  · rw [if_neg (not_not.mpr differs)]
    simp only [differs, ne_eq, not_true_eq_false, iff_false]
    cases sampleDecode (buf.drop kRecordHeaderSize) out with
    | error e => cases e <;> simp
    | ok out =>
        simp only [applyFraming]
        split <;> simp
  · simp only [ne_eq, differs, not_false_eq_true, if_true]

/-- The checksum is the reflected CRC, a bit at a time from all ones and complemented; a checksum that seeds another is
that of both strings, as a record's is of its head and payload. -/
theorem crc32c_is_crc (data a b : List UInt8) (s : Sample) (buf : Record) (out : Sample) :
    (crc32c data).toBitVec = ~~~Crc.feedBits 0x82F63B78#32 (BitVec.allOnes 32)
      (data.flatMap fun b => Crc.bitsOf b.toBitVec) ∧
    crc32c b (crc32c a) = crc32c (a ++ b) ∧
    recordEncode s = recordHead s ++ (putU32 (crc32c (recordHead s ++ sampleEncode s)) ++ sampleEncode s) ∧
    (kRecordHeaderSize < buf.length → (recordDecode buf out = .error (.rc (-3)) ↔
      crc32c (buf.take 10 ++ buf.drop kRecordHeaderSize) ≠ crcStored buf)) := by
  refine ⟨crc32c_bits data 0, crc32c_append a b 0, ?_, fun long => recordDecode_crc long out⟩
  rw [recordEncode, recordCrc_eq]

/-! ## Damage -/

def WithinFour (xs ys : List UInt8) : Prop :=
  ∃ k, xs.take k = ys.take k ∧ xs.drop (k + 4) = ys.drop (k + 4)

theorem eq_of_crc32c_eq {xs ys : List UInt8} (size : xs.length = ys.length) (near : WithinFour xs ys)
    (same : crc32c xs = crc32c ys) : xs = ys := by
  obtain ⟨k, before, after⟩ := near
  have split (zs : List UInt8) : zs = zs.take k ++ ((zs.drop k).take 4 ++ zs.drop (k + 4)) := by
    rw [← List.drop_drop, List.take_append_drop, List.take_append_drop]
  have fed := feed_of_crc32c_eq same
  rw [split xs, split ys, before, after] at fed
  simp only [Crc.feed, List.map_append, List.foldl_append] at fed
  have middle := Crc.feed_injective poly_msb (by decide) _ fed
  have four : (((xs.drop k).take 4).map UInt8.toBitVec).length =
      (((ys.drop k).take 4).map UInt8.toBitVec).length := by
    simp [size]
  have few : 8 * (((xs.drop k).take 4).map UInt8.toBitVec).length ≤ 32 := by
    simp only [List.length_map, List.length_take]
    omega
  have bytes := Crc.eq_of_feed_eq poly_msb four few middle
  have inj : Function.Injective UInt8.toBitVec := fun _ _ => UInt8.toBitVec_inj.mp
  rw [split xs, split ys, before, after, List.map_injective_iff.mpr inj bytes]

def crcCovered (buf : Record) : List UInt8 := buf.take 10 ++ buf.drop kRecordHeaderSize

def crcField (buf : Record) : List UInt8 := (buf.drop 10).take 4

/-- A change of a stored record: within four consecutive bytes of what its CRC covers, or of the CRC
field alone. -/
structure Damaged (a b : Record) : Prop where
  ne : a ≠ b
  length_eq : a.length = b.length
  long : kRecordHeaderSize < a.length
  where_ : crcField a = crcField b ∧ WithinFour (crcCovered a) (crcCovered b) ∨ crcCovered a = crcCovered b

theorem eq_of_parts {a b : Record} (long : kRecordHeaderSize < a.length) (size : a.length = b.length)
    (field : crcField a = crcField b) (rest : crcCovered a = crcCovered b) : a = b := by
  have wide : 14 < a.length := long
  have split (buf : Record) : buf = buf.take 10 ++ (crcField buf ++ buf.drop kRecordHeaderSize) := by
    rw [crcField, show kRecordHeaderSize = 10 + 4 from rfl, ← List.drop_drop, List.take_append_drop,
      List.take_append_drop]
  obtain ⟨head, tail⟩ := List.append_inj rest (by simp; omega)
  rw [split a, split b, head, field, tail]

theorem crcField_length {buf : Record} (long : kRecordHeaderSize < buf.length) :
    (crcField buf).length = 4 := by
  have wide : 14 < buf.length := long
  simp only [crcField, List.length_take, List.length_drop]
  omega

theorem crcField_of_stored_eq {a b : Record} (long : kRecordHeaderSize < a.length)
    (long' : kRecordHeaderSize < b.length) (same : crcStored a = crcStored b) : crcField a = crcField b := by
  have low := leValue_lt (crcField a)
  have low' := leValue_lt (crcField b)
  rw [crcField_length long] at low
  rw [crcField_length long'] at low'
  apply leValue_inj ((crcField_length long).trans (crcField_length long').symm)
  have values : (UInt32.ofNat (leValue (crcField a))).toNat = (UInt32.ofNat (leValue (crcField b))).toNat :=
    congrArg UInt32.toNat same
  rwa [UInt32.toNat_ofNat_of_lt' low, UInt32.toNat_ofNat_of_lt' low'] at values

theorem crc_of_recordDecode {buf : Record} (long : kRecordHeaderSize < buf.length) {out s : Sample}
    (decodes : recordDecode buf out = .ok s) : crcComputed buf = crcStored buf := by
  by_contra differs
  rw [recordDecode_of_long long, if_pos differs] at decodes
  cases decodes

/-- At most one of a record and a damaged one passes the CRC check, so a read never returns the
change. -/
theorem damage_detected (a b : Record) (damaged : Damaged a b) :
    ¬(crcComputed a = crcStored a ∧ crcComputed b = crcStored b) ∧
    ∀ out out' s t, ¬(recordDecode a out = .ok s ∧ recordDecode b out' = .ok t) := by
  obtain ⟨ne, size, long, change⟩ := damaged
  have long' : kRecordHeaderSize < b.length := size ▸ long
  have once : ¬(crcComputed a = crcStored a ∧ crcComputed b = crcStored b) := by
    rintro ⟨ok, ok'⟩
    apply ne
    rcases change with ⟨field, near⟩ | rest
    · have stored : crcStored a = crcStored b := congrArg (fun f => UInt32.ofNat (leValue f)) field
      have computed : crc32c (crcCovered a) = crc32c (crcCovered b) := by
        rw [crcCovered, crcCovered, ← recordCrc_eq, ← recordCrc_eq]
        exact ok.trans (stored.trans ok'.symm)
      have wide : (crcCovered a).length = (crcCovered b).length := by simp [crcCovered, size]
      exact eq_of_parts long size field (eq_of_crc32c_eq wide near computed)
    · have computed : crcComputed a = crcComputed b := by
        rw [crcComputed, crcComputed, recordCrc_eq, recordCrc_eq]
        exact congrArg (fun data => crc32c data) rest
      have stored := ok.symm.trans (computed.trans ok')
      exact eq_of_parts long size (crcField_of_stored_eq long long' stored) rest
  refine ⟨once, ?_⟩
  rintro out out' s t ⟨read, read'⟩
  exact once ⟨crc_of_recordDecode long read, crc_of_recordDecode long' read'⟩

theorem damage_detected_flipped :
    let a : Record := List.replicate 15 0
    let b : Record := List.replicate 14 0 ++ [1]
    Damaged a b ∧ ¬(crcComputed a = crcStored a ∧ crcComputed b = crcStored b) := by
  intro a b
  have damaged : Damaged a b := ⟨by decide, by decide, by decide, Or.inl ⟨by decide, 10, by decide, by decide⟩⟩
  exact ⟨damaged, (damage_detected a b damaged).1⟩

end Budyk.Proof
