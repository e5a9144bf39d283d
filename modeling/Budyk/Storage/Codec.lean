import Budyk.Core.Codec

/-! The ring record of `storage/codec.cpp`: the payload framed by a timestamp, a level, flags and
a CRC-32C of all of it but the CRC field. -/

namespace Budyk.Storage
open Lib

abbrev Record := List UInt8

def kRecordHeaderSize : Nat := 14
def kRecordFolded : UInt8 := 0x01
def kCrc32cPolyReflected : UInt32 := 0x82F63B78

/-! ## CRC-32C -/

def crc32cBit (c : UInt32) : UInt32 := (c >>> 1) ^^^ (kCrc32cPolyReflected &&& (0 - (c &&& 1)))

def makeCrc32cTable : Vector UInt32 256 := Vector.ofFn fun i => crc32cBit^[8] (UInt32.ofNat i)

def crc32cByte (c : UInt32) (b : UInt8) : UInt32 :=
  (c >>> 8) ^^^ makeCrc32cTable.getD ((c ^^^ b.toUInt32) &&& 0xFF).toNat 0

def crc32c (data : List UInt8) (seed : UInt32 := 0) : UInt32 := ~~~(data.foldl crc32cByte (~~~seed))

def recordCrc (head payload : List UInt8) : UInt32 := crc32c payload (crc32c head)

/-! ## Framing -/

def recordSizeForSample : Nat := kRecordHeaderSize + sampleMaxEncodedSize

def recordHead (s : Sample) : List UInt8 :=
  putU64 s.timestampNanos ++ putU8 s.level ++ putU8 (if s.folded then kRecordFolded else 0)

/-- `record_encode` into a buffer that is large enough, as every caller's is. -/
def recordEncode (s : Sample) : Record :=
  recordHead s ++ (putU32 (recordCrc (recordHead s) (sampleEncode s)) ++ sampleEncode s)

def bytesAt (buf : Record) (off n : Nat) : Except DecodeError (List UInt8) :=
  if buf.length < off + n then .error .overread else .ok ((buf.drop off).take n)

def recordDecode (buf : Record) (out : Sample) : Except DecodeError Sample :=
  if buf.length ≤ kRecordHeaderSize then .error (.rc (-2))
  else do
    let stored := UInt32.ofNat (leValue (← bytesAt buf 10 4))
    let payload ← bytesAt buf kRecordHeaderSize (buf.length - kRecordHeaderSize)
    if recordCrc (← bytesAt buf 0 10) payload ≠ stored then .error (.rc (-3))
    else match sampleDecode payload out with
      | .error .overread => .error .overread
      | .error (.rc _) => .error (.rc (-4))
      | .ok out => do
          let timestampNanos := UInt64.ofNat (leValue (← bytesAt buf 0 8))
          let lv := UInt8.ofNat (leValue (← bytesAt buf 8 1))
          if lv < 1 || lv > kMaxLevelId then .error (.rc (-5))
          else
            let flags := UInt8.ofNat (leValue (← bytesAt buf 9 1))
            .ok { out with timestampNanos, level := lv, folded := flags &&& kRecordFolded != 0 }

/-- What a reader makes of a slot: the sample, decoded into a `Sample{}`, or nothing. -/
def decodeRecord (buf : Record) : Option Sample := (recordDecode buf 0).toOption

/-- What a record keeps of a sample: all but the baseline mask. -/
def stored (s : Sample) : Sample := { s with baseline := 0 }

@[simp] theorem stored_ts (s : Sample) : (stored s).ts = s.ts := rfl

theorem recordHead_length (s : Sample) : (recordHead s).length = 10 := by simp [recordHead]

theorem recordEncode_length (s : Sample) : (recordEncode s).length = recordSizeForSample := by
  rw [recordEncode, List.length_append, List.length_append, recordHead_length, putU32_length,
    sampleEncode_length]
  exact (Nat.add_assoc 10 4 sampleMaxEncodedSize).symm

theorem bytesAt_ok {buf : Record} {off n : Nat} (inside : off + n ≤ buf.length) :
    bytesAt buf off n = .ok ((buf.drop off).take n) := if_neg (Nat.not_lt.mpr inside)

/-! ## Decoding, read by read -/

def crcStored (buf : Record) : UInt32 := UInt32.ofNat (leValue ((buf.drop 10).take 4))

def crcComputed (buf : Record) : UInt32 := recordCrc (buf.take 10) (buf.drop kRecordHeaderSize)

def applyFraming (buf : Record) (out : Sample) : Except DecodeError Sample :=
  let lv := UInt8.ofNat (leValue ((buf.drop 8).take 1))
  if lv < 1 || lv > kMaxLevelId then .error (.rc (-5))
  else .ok { out with
    timestampNanos := UInt64.ofNat (leValue (buf.take 8)), level := lv
    folded := UInt8.ofNat (leValue ((buf.drop 9).take 1)) &&& kRecordFolded != 0 }

theorem recordDecode_of_long {buf : Record} (long : kRecordHeaderSize < buf.length) (out : Sample) :
    recordDecode buf out =
      if crcComputed buf ≠ crcStored buf then .error (.rc (-3))
      else match sampleDecode (buf.drop kRecordHeaderSize) out with
        | .error .overread => .error .overread
        | .error (.rc _) => .error (.rc (-4))
        | .ok out => applyFraming buf out := by
  have size : 14 < buf.length := long
  have payload : bytesAt buf kRecordHeaderSize (buf.length - kRecordHeaderSize) =
      .ok (buf.drop kRecordHeaderSize) := by
    rw [bytesAt_ok (by omega), List.take_of_length_le (by rw [List.length_drop])]
  rw [recordDecode, if_neg (Nat.not_le.mpr long), payload, bytesAt_ok (by omega), bytesAt_ok (by omega),
    bytesAt_ok (by omega), bytesAt_ok (by omega), bytesAt_ok (by omega)]
  rfl

def frameRecord (s : Sample) (payload : List UInt8) : Record :=
  recordHead s ++ (putU32 (recordCrc (recordHead s) payload) ++ payload)

theorem frameRecord_head (s : Sample) (payload : List UInt8) :
    (frameRecord s payload).take 10 = recordHead s := List.take_left' (recordHead_length s)

theorem frameRecord_tail (s : Sample) (payload : List UInt8) :
    (frameRecord s payload).drop 10 = putU32 (recordCrc (recordHead s) payload) ++ payload :=
  List.drop_left' (recordHead_length s)

theorem frameRecord_payload (s : Sample) (payload : List UInt8) :
    (frameRecord s payload).drop kRecordHeaderSize = payload := by
  rw [show kRecordHeaderSize = 10 + 4 from rfl, ← List.drop_drop, frameRecord_tail]
  exact List.drop_left' (putU32_length _)

theorem frameRecord_crc (s : Sample) (payload : List UInt8) :
    crcComputed (frameRecord s payload) = crcStored (frameRecord s payload) := by
  rw [crcComputed, crcStored, frameRecord_head, frameRecord_payload, frameRecord_tail,
    List.take_left' (putU32_length _), leValue_putU32, UInt32.ofNat_toNat]

theorem applyFraming_frameRecord (s out : Sample) (payload : List UInt8) :
    applyFraming (frameRecord s payload) out =
      if s.level < 1 || s.level > kMaxLevelId then .error (.rc (-5))
      else .ok { out with timestampNanos := s.timestampNanos, level := s.level, folded := s.folded } := by
  have split : frameRecord s payload = putU64 s.timestampNanos ++ (putU8 s.level ++
      (putU8 (if s.folded then kRecordFolded else 0) ++
        (putU32 (recordCrc (recordHead s) payload) ++ payload))) := by
    simp only [frameRecord]
    generalize putU32 (recordCrc (recordHead s) payload) ++ payload = rest
    simp only [recordHead, List.append_assoc]
  have time : leValue ((frameRecord s payload).take 8) = s.timestampNanos.toNat := by
    rw [split, List.take_left' (putU64_length _), leValue_putU64]
  have level : (frameRecord s payload).drop 8 = putU8 s.level ++
      (putU8 (if s.folded then kRecordFolded else 0) ++
        (putU32 (recordCrc (recordHead s) payload) ++ payload)) := by
    rw [split, List.drop_left' (putU64_length _)]
  have flags : (frameRecord s payload).drop 9 = putU8 (if s.folded then kRecordFolded else 0) ++
        (putU32 (recordCrc (recordHead s) payload) ++ payload) := by
    rw [show (9 : Nat) = 8 + 1 from rfl, ← List.drop_drop, level]
    rfl
  have byte (v : UInt8) (rest : List UInt8) : UInt8.ofNat (leValue ((putU8 v ++ rest).take 1)) = v := by
    simp [putU8, leValue]
  have folded : ((if s.folded then kRecordFolded else 0) &&& kRecordFolded != 0) = s.folded := by
    cases s.folded <;> rfl
  simp only [applyFraming, time, level, flags, byte, folded, UInt64.ofNat_toNat]

theorem recordDecode_frameRecord (s out : Sample) {payload : List UInt8} (some : payload ≠ []) :
    recordDecode (frameRecord s payload) out =
      match sampleDecode payload out with
        | .error .overread => .error .overread
        | .error (.rc _) => .error (.rc (-4))
        | .ok out => if s.level < 1 || s.level > kMaxLevelId then .error (.rc (-5))
          else .ok { out with
            timestampNanos := s.timestampNanos, level := s.level, folded := s.folded } := by
  have long : kRecordHeaderSize < (frameRecord s payload).length := by
    have := List.length_pos_iff.mpr some
    rw [frameRecord, List.length_append, List.length_append, recordHead_length, putU32_length,
      kRecordHeaderSize]
    omega
  rw [recordDecode_of_long long, if_neg (not_not.mpr (frameRecord_crc s payload)), frameRecord_payload]
  simp only [applyFraming_frameRecord]

theorem recordEncode_eq (s : Sample) : recordEncode s = frameRecord s (sampleEncode s) := rfl

theorem sampleEncode_ne_nil (s : Sample) : sampleEncode s ≠ [] := by
  apply List.ne_nil_of_length_pos
  rw [sampleEncode_length]
  decide

/-! ## Round trip -/

theorem recordDecode_recordEncode (s out : Sample) (valid : ValidLevel s.level) :
    recordDecode (recordEncode s) out = .ok { s with baseline := out.baseline } := by
  rw [recordEncode_eq, recordDecode_frameRecord s out (sampleEncode_ne_nil s),
    sampleDecode_sampleEncode s out valid]
  simp only [validLevel_check valid, Bool.false_eq_true, if_false]

theorem decodeRecord_recordEncode_invalid (s : Sample) (invalid : ¬ValidLevel s.level) :
    decodeRecord (recordEncode s) = none := by
  have rejected : (decide (s.level < 1) || decide (s.level > kMaxLevelId)) = true := by
    by_contra accepted
    simp only [Bool.or_eq_true, decide_eq_true_eq, not_or, gt_iff_lt, UInt8.not_lt] at accepted
    exact invalid accepted
  rw [decodeRecord, recordEncode_eq, recordDecode_frameRecord s 0 (sampleEncode_ne_nil s)]
  simp only [rejected, if_true]
  split <;> rfl

theorem decodeRecord_recordEncode (s : Sample) (valid : ValidLevel s.level) :
    decodeRecord (recordEncode s) = some (stored s) := by
  rw [decodeRecord, recordDecode_recordEncode s 0 valid]
  rfl

theorem eq_stored_of_decodeRecord {s read : Sample} (decodes : decodeRecord (recordEncode s) = some read) :
    read = stored s := by
  by_cases valid : ValidLevel s.level
  · rw [decodeRecord_recordEncode s valid] at decodes
    exact (Option.some.inj decodes).symm
  · rw [decodeRecord_recordEncode_invalid s valid] at decodes
    cases decodes

theorem decodeRecord_zero : decodeRecord (List.replicate recordSizeForSample 0) = none := by
  have long : kRecordHeaderSize < (List.replicate recordSizeForSample (0 : UInt8)).length := by
    rw [List.length_replicate]; decide
  have payload : (List.replicate recordSizeForSample (0 : UInt8)).drop kRecordHeaderSize =
      List.replicate sampleMaxEncodedSize 0 := by
    rw [List.drop_replicate]; rfl
  have bad : sampleDecode (List.replicate sampleMaxEncodedSize 0) 0 = .error (.rc (-3)) := by
    have long : ¬sampleMaxEncodedSize < kEncodedSizeV1 := by decide
    have magic : (List.replicate sampleMaxEncodedSize (0 : UInt8)).take 8 ≠ kMagic := by
      rw [List.take_replicate]; decide
    rw [sampleDecode, List.length_replicate, if_neg long, if_pos magic]
  rw [decodeRecord, recordDecode_of_long long, payload, bad]
  split <;> rfl

-- Proofs go through the lemmas above; evaluating the codec on a record is never what is wanted.
attribute [irreducible] recordEncode decodeRecord

end Budyk.Storage
