import Budyk.Lib.Incremental
import Budyk.Spec.ClientFrames
import Budyk.Proof.Output

/-! `consume_frames` as a reader of the client's bytes, and the frames it reads. -/

namespace Budyk.Proof
open Lib Web Spec

theorem unmask_unmask (mask payload : Bytes) : unmask mask (unmask mask payload) = payload := by
  apply List.ext_getElem
  · rw [unmask_length, unmask_length]
  · intro i _ _
    simp only [unmask, List.getElem_mapIdx]
    rw [UInt8.xor_assoc, UInt8.xor_self, UInt8.xor_zero]

section Header
variable (h : Header)

theorem firstByte_reserved : h.firstByte &&& 0x70 = 0 := by
  rw [Header.firstByte]
  cases h.fin <;> cases h.opcode <;> decide

theorem firstByte_opcode : h.firstByte &&& 0x0F = h.opcode.value := by
  rw [Header.firstByte]
  cases h.fin <;> cases h.opcode <;> decide

theorem firstByte_final : h.firstByte &&& 0x80 = 0 ↔ h.fin = false := by
  rw [Header.firstByte]
  cases h.fin <;> cases h.opcode <;> decide

end Header

theorem opcode_defined (opcode : Opcode) : ¬(opcode.value > 0x2 ∧ (opcode.value < 0x8 ∨ opcode.value > 0xA)) := by
  cases opcode <;> decide

theorem opcode_control (opcode : Opcode) : opcode.value ≥ 0x8 ↔ opcode.control := by
  cases opcode <;> decide

theorem opcode_close (opcode : Opcode) : opcode.value = kOpClose ↔ opcode = .close := by
  cases opcode <;> decide

theorem lengthForm_bytes {form : LengthForm} {len : Nat} (fits : len < form.limit) : ∃ b1 ext,
    form.bytes len = b1 :: ext ∧ b1 &&& 0x80 ≠ 0 ∧ ext.length = lengthBytes (b1 &&& 0x7F).toNat ∧
    ∀ b0 rest, declaredLength (b1 &&& 0x7F).toNat (b0 :: b1 :: (ext ++ rest)) = len := by
  cases form with
  | short =>
      have byte : ∀ len < 126, (0x80 ||| UInt8.ofNat len) &&& 0x80 ≠ 0 ∧
          ((0x80 ||| UInt8.ofNat len) &&& 0x7F).toNat = len := by decide
      obtain ⟨masked, value⟩ := byte len fits
      have not126 : len ≠ 126 := Nat.ne_of_lt fits
      have not127 : len ≠ 127 := Nat.ne_of_lt (fits.trans (by decide))
      refine ⟨_, [], rfl, masked, ?_, fun b0 rest => ?_⟩
      · rw [value, lengthBytes, if_neg not126, if_neg not127]
        rfl
      · rw [value, declaredLength, if_neg not126, if_neg not127]
  | medium =>
      refine ⟨_, _, rfl, by decide, bigEndian_length 2 len, fun b0 rest => ?_⟩
      rw [declaredLength, if_pos (by decide)]
      exact bigEndianValue_take fits rest
  | long =>
      refine ⟨_, _, rfl, by decide, bigEndian_length 8 len, fun b0 rest => ?_⟩
      rw [declaredLength, if_neg (by decide), if_pos (by decide)]
      exact bigEndianValue_take fits rest

theorem readHeader_bytes (h : Header) (more : Bytes) :
    readHeader (h.bytes ++ more) =
      if h.opcode.control then readControl h.firstByte h.bytes.length h.len h.mask (h.bytes ++ more)
      else .data h.opcode.value h.len more := by
  obtain ⟨b1, ext, length, masked, extLength, declared⟩ := lengthForm_bytes h.fits
  have bytes : h.bytes = h.firstByte :: b1 :: (ext ++ h.mask) := by
    rw [Header.bytes, length]
    rfl
  have size : h.bytes.length = 2 + lengthBytes (b1 &&& 0x7F).toNat + 4 := by
    simp only [bytes, List.length_cons, List.length_append, extLength, h.maskLength]
    omega
  have first : (h.bytes ++ more).getD 0 0 = h.firstByte := by rw [bytes]; rfl
  have second : (h.bytes ++ more).getD 1 0 = b1 := by rw [bytes]; rfl
  have mask : ((h.bytes ++ more).drop (2 + lengthBytes (b1 &&& 0x7F).toNat)).take 4 = h.mask := by
    rw [bytes, ← extLength, Nat.add_comm]
    simp [List.drop_left', List.take_left' h.maskLength]
  have value : declaredLength (b1 &&& 0x7F).toNat (h.bytes ++ more) = h.len := by
    rw [bytes, List.cons_append, List.cons_append, List.append_assoc]
    exact declared _ _
  have enough : h.bytes.length ≤ (h.bytes ++ more).length := by simp
  rw [readHeader, if_neg (by omega)]
  simp only [first, second, firstByte_reserved, firstByte_opcode, value, mask, ← size]
  rw [if_neg (by simp [masked]), if_neg (opcode_defined _), if_neg (by omega), if_neg (by omega)]
  simp only [opcode_control, List.drop_left]

theorem firstByte_exists {b0 : UInt8} (reserved : b0 &&& 0x70 = 0) {opcode : Opcode}
    (defined : opcode.value = b0 &&& 0x0F) : ∃ fin : Bool, b0 = (if fin then 0x80 else 0) ||| opcode.value := by
  have byte : ∀ n : Fin 256, UInt8.ofFin n &&& 0x70 = 0 →
      ∃ fin ∈ [true, false], UInt8.ofFin n = (if fin then 0x80 else 0) ||| (UInt8.ofFin n &&& 0x0F) := by decide +kernel
  obtain ⟨fin, -, same⟩ := byte b0.toFin (by simpa using reserved)
  exact ⟨fin, by simpa [defined] using same⟩

theorem opcode_exists {b0 : UInt8} (defined : ¬(b0 &&& 0x0F > 0x2 ∧ (b0 &&& 0x0F < 0x8 ∨ b0 &&& 0x0F > 0xA))) :
    ∃ opcode : Opcode, opcode.value = b0 &&& 0x0F := by
  have byte : ∀ n : Fin 256, ¬(UInt8.ofFin n &&& 0x0F > 0x2 ∧ (UInt8.ofFin n &&& 0x0F < 0x8 ∨ UInt8.ofFin n &&& 0x0F > 0xA)) →
      ∃ opcode ∈ [Opcode.continuation, .text, .binary, .close, .ping, .pong],
        opcode.value = UInt8.ofFin n &&& 0x0F := by decide +kernel
  obtain ⟨opcode, -, same⟩ := byte b0.toFin (by simpa using defined)
  exact ⟨opcode, by simpa using same⟩

theorem secondByte_eq {b1 : UInt8} (masked : b1 &&& 0x80 ≠ 0) :
    b1 = 0x80 ||| UInt8.ofNat (b1 &&& 0x7F).toNat ∧ (b1 &&& 0x7F).toNat < 128 := by
  have byte : ∀ n : Fin 256, UInt8.ofFin n &&& 0x80 ≠ 0 →
      UInt8.ofFin n = 0x80 ||| UInt8.ofNat (UInt8.ofFin n &&& 0x7F).toNat ∧
        (UInt8.ofFin n &&& 0x7F).toNat < 128 := by decide +kernel
  simpa using byte b1.toFin (by simpa using masked)

theorem lengthForm_exists {b1 : UInt8} {rest : Bytes} (masked : b1 &&& 0x80 ≠ 0)
    (enough : lengthBytes (b1 &&& 0x7F).toNat ≤ rest.length) : ∃ (form : LengthForm) (len : Nat),
    len < form.limit ∧ form.bytes len = b1 :: rest.take (lengthBytes (b1 &&& 0x7F).toNat) := by
  obtain ⟨byte, small⟩ := secondByte_eq masked
  generalize (b1 &&& 0x7F).toNat = len7 at byte small enough ⊢
  have long {count : Nat} (le : count ≤ rest.length) : bigEndianValue (rest.take count) < 256 ^ count ∧
      bigEndian count (bigEndianValue (rest.take count)) = rest.take count := by
    have size : (rest.take count).length = count := List.length_take_of_le le
    have small := bigEndianValue_lt (rest.take count)
    have same := bigEndian_bigEndianValue (rest.take count)
    rw [size] at small same
    exact ⟨small, same⟩
  by_cases medium : len7 = 126
  · subst medium
    obtain ⟨small, same⟩ := long enough
    exact ⟨.medium, _, small, by rw [byte, LengthForm.bytes]; exact congrArg _ same⟩
  by_cases large : len7 = 127
  · subst large
    obtain ⟨small, same⟩ := long enough
    exact ⟨.long, _, small, by rw [byte, LengthForm.bytes]; exact congrArg _ same⟩
  · have short : lengthBytes len7 = 0 := by rw [lengthBytes, if_neg medium, if_neg large]
    exact ⟨.short, len7, show len7 < 126 by omega, by rw [short, LengthForm.bytes, ← byte, List.take_zero]⟩

theorem header_exists {b0 b1 : UInt8} {rest : Bytes} {opcode : Opcode} (reserved : b0 &&& 0x70 = 0)
    (defined : opcode.value = b0 &&& 0x0F) (masked : b1 &&& 0x80 ≠ 0)
    (enough : lengthBytes (b1 &&& 0x7F).toNat + 4 ≤ rest.length) :
    ∃ (h : Header) (more : Bytes), b0 :: b1 :: rest = h.bytes ++ more := by
  obtain ⟨fin, first⟩ := firstByte_exists reserved defined
  obtain ⟨form, len, fits, length⟩ := lengthForm_exists masked (Nat.le_of_add_right_le enough)
  generalize lengthBytes (b1 &&& 0x7F).toNat = at' at enough length
  refine ⟨⟨fin, opcode, form, len, (rest.drop at').take 4, fits, ?_⟩, rest.drop (at' + 4), ?_⟩
  · rw [List.length_take, List.length_drop]
    omega
  · rw [Header.bytes, Header.firstByte, ← first, length, ← List.drop_drop]
    simp only [List.cons_append, List.append_assoc, List.take_append_drop]

/-! ## The reader -/

def nextFrame (skip : Nat) (b : Bytes) : Reading Nat UInt8 InFrame Unit :=
  match readFrame skip b with
  | .wait skip b => .wait skip b
  | .refuse _ => .stop ()
  | .control opcode payload b => if opcode = kOpClose then .stop () else .item (.control opcode payload) 0 b
  | .data opcode len b => .item (.data opcode len) len b

theorem readFrame_skipping {skip : Nat} {b : Bytes} (less : b.length < skip) :
    readFrame skip b = .wait (skip - b.length) [] := by
  rw [readFrame, if_pos less]
  simp only [List.drop_length]
  rw [if_pos (by omega)]

theorem readFrame_skipped {skip : Nat} {b : Bytes} (le : skip ≤ b.length) :
    readFrame skip b = readHeader (b.drop skip) := by
  rw [readFrame, if_neg (Nat.not_lt.mpr le)]
  simp

theorem nextFrame_skipping {skip : Nat} {b : Bytes} (less : b.length < skip) :
    nextFrame skip b = .wait (skip - b.length) [] := by
  rw [nextFrame, readFrame_skipping less]

theorem nextFrame_skipped {skip : Nat} {b : Bytes} (le : skip ≤ b.length) :
    nextFrame skip b = nextFrame 0 (b.drop skip) := by
  rw [nextFrame, nextFrame, readFrame_skipped le, readFrame_skipped (Nat.zero_le _), List.drop_zero]

section Start
variable {h : Header} {f : ClientFrame}

theorem nextFrame_zero (b : Bytes) : nextFrame 0 b =
    match readHeader b with
    | .wait skip b => .wait skip b
    | .refuse _ => .stop ()
    | .control opcode payload b => if opcode = kOpClose then .stop () else .item (.control opcode payload) 0 b
    | .data opcode len b => .item (.data opcode len) len b := by
  rw [nextFrame, readFrame_skipped (Nat.zero_le _), List.drop_zero]

theorem nextFrame_data (data : h.opcode.control = false) (more : Bytes) :
    nextFrame 0 (h.bytes ++ more) = .item (.data h.opcode.value h.len) h.len more := by
  rw [nextFrame_zero, readHeader_bytes, if_neg (by simp [data])]

theorem nextFrame_broken (control : h.opcode.control) (broken : 125 < h.len ∨ h.fin = false) (more : Bytes) :
    nextFrame 0 (h.bytes ++ more) = .stop () := by
  rw [nextFrame_zero, readHeader_bytes, if_pos control, readControl, dif_pos]
  rwa [firstByte_final]

theorem nextFrame_cut (control : h.opcode.control) (sound : ¬(125 < h.len ∨ h.fin = false)) {more : Bytes}
    (cut : more.length < h.len) : nextFrame 0 (h.bytes ++ more) = .wait 0 (h.bytes ++ more) := by
  rw [nextFrame_zero, readHeader_bytes, if_pos control, readControl, dif_neg, if_pos]
  · rw [List.length_append]
    omega
  · rwa [firstByte_final]

theorem nextFrame_control (control : f.opcode.control) (sound : ¬(125 < f.len ∨ f.fin = false)) (more : Bytes) :
    nextFrame 0 (f.bytes ++ more) = if f.opcode = .close then .stop () else .item f.seen 0 more := by
  have size : (unmask f.mask f.payload).length = f.len := by rw [unmask_length, f.payloadLength]
  have payload : ((f.bytes ++ more).drop f.toHeader.bytes.length).take f.len = unmask f.mask f.payload := by
    rw [ClientFrame.bytes, List.append_assoc, List.drop_left, List.take_left' size]
  have rest : (f.bytes ++ more).drop (f.toHeader.bytes.length + f.len) = more := by
    rw [ClientFrame.bytes, ← size, ← List.length_append, List.drop_left]
  have whole : ¬(f.bytes ++ more).length < f.toHeader.bytes.length + f.len := by
    rw [ClientFrame.bytes, List.length_append, List.length_append, size]
    omega
  have short : f.payload.length ≤ 125 := by
    rw [f.payloadLength]
    omega
  rw [nextFrame_zero, ClientFrame.bytes, List.append_assoc, readHeader_bytes, if_pos control, ← List.append_assoc,
    ← ClientFrame.bytes, readControl, dif_neg (by rwa [firstByte_final]), if_neg whole]
  simp only [payload, rest, unmask_unmask, firstByte_opcode, opcode_close]
  rw [ClientFrame.seen, dif_pos ⟨control, short⟩]

theorem nextFrame_refused {b : Bytes} (refused : Refused b) : nextFrame 0 b = .stop () := by
  cases refused with
  | reserved b0 b1 more set =>
      rw [nextFrame_zero, readHeader, if_neg (by simp)]
      simp [set]
  | unmasked b0 b1 more clear =>
      rw [nextFrame_zero, readHeader, if_neg (by simp)]
      simp [clear]
  | undefined b0 b1 more unknown =>
      have undefined : b0 &&& 0x0F > 0x2 ∧ (b0 &&& 0x0F < 0x8 ∨ b0 &&& 0x0F > 0xA) := by
        by_contra defined
        obtain ⟨opcode, same⟩ := opcode_exists defined
        exact unknown opcode same
      rw [nextFrame_zero, readHeader, if_neg (by simp)]
      simp only [List.getD_cons_zero, List.getD_cons_succ, if_pos undefined, ite_self]
  | long h more control tooLong => exact nextFrame_broken control (.inl tooLong) more
  | fragmented h more control cut => exact nextFrame_broken control (.inr cut) more
  | close f more close =>
      have control : f.opcode.control := by rw [close]; rfl
      by_cases broken : 125 < f.len ∨ f.fin = false
      · rw [ClientFrame.bytes, List.append_assoc]
        exact nextFrame_broken control broken _
      · rw [nextFrame_control control broken, if_pos close]

theorem refused_append {b : Bytes} (refused : Refused b) (more : Bytes) : Refused (b ++ more) := by
  cases refused with
  | reserved b0 b1 _ set => exact .reserved b0 b1 _ set
  | unmasked b0 b1 _ clear => exact .unmasked b0 b1 _ clear
  | undefined b0 b1 _ unknown => exact .undefined b0 b1 _ unknown
  | long h _ control tooLong =>
      rw [List.append_assoc]
      exact .long h _ control tooLong
  | fragmented h _ control cut =>
      rw [List.append_assoc]
      exact .fragmented h _ control cut
  | close f _ close =>
      rw [List.append_assoc]
      exact .close f _ close

theorem nextFrame_accepted (accepted : f.Accepted) (control : f.opcode.control) (more : Bytes) :
    nextFrame 0 (f.bytes ++ more) = .item f.seen 0 more := by
  obtain ⟨notClose, final, short⟩ := accepted control
  rw [nextFrame_control control (by simp [final, short]), if_neg notClose]

theorem nextFrame_short {b0 b1 : UInt8} {rest : Bytes} (short : rest.length < lengthBytes (b1 &&& 0x7F).toNat + 4)
    (reserved : b0 &&& 0x70 = 0) (masked : b1 &&& 0x80 ≠ 0)
    (defined : ¬(b0 &&& 0x0F > 0x2 ∧ (b0 &&& 0x0F < 0x8 ∨ b0 &&& 0x0F > 0xA))) :
    nextFrame 0 (b0 :: b1 :: rest) = .wait 0 (b0 :: b1 :: rest) := by
  have read : readHeader (b0 :: b1 :: rest) = .wait 0 (b0 :: b1 :: rest) := by
    rw [readHeader, if_neg (by simp)]
    simp only [List.getD_cons_zero, List.getD_cons_succ, List.length_cons]
    rw [if_neg (by simp [reserved, masked]), if_neg defined]
    split
    · rfl
    · rw [if_pos (by omega)]
  rw [nextFrame_zero, read]

theorem header_length (h : Header) : 6 ≤ h.bytes.length ∧ h.bytes.length ≤ 14 := by
  have length : 1 ≤ (h.form.bytes h.len).length ∧ (h.form.bytes h.len).length ≤ 9 := by
    cases h.form <;> simp [LengthForm.bytes, bigEndian_length]
  simp only [Header.bytes, List.length_append, List.length_cons, h.maskLength]
  omega

theorem frame_exists (h : Header) {more : Bytes} (enough : h.len ≤ more.length) :
    ∃ f : ClientFrame, f.toHeader = h ∧ h.bytes ++ more = f.bytes ++ more.drop h.len := by
  have size : (unmask h.mask (more.take h.len)).length = h.len := by
    rw [unmask_length, List.length_take_of_le enough]
  refine ⟨⟨h, _, size⟩, rfl, ?_⟩
  rw [ClientFrame.bytes, unmask_unmask, List.append_assoc, List.take_append_drop]

inductive Pass : Nat → Bytes → Reading Nat UInt8 InFrame Unit → Prop where
  | skipping {skip : Nat} {b : Bytes} (less : b.length < skip) : Pass skip b (.wait (skip - b.length) [])
  | cut {skip : Nat} {b : Bytes} (le : skip ≤ b.length) (small : (b.drop skip).length < 14 + 125) :
      Pass skip b (.wait 0 (b.drop skip))
  | refused {skip : Nat} {b : Bytes} (le : skip ≤ b.length) (refused : Refused (b.drop skip)) :
      Pass skip b (.stop ())
  | data {skip : Nat} {b : Bytes} (le : skip ≤ b.length) (h : Header) (more : Bytes)
      (data : h.opcode.control = false) (start : b.drop skip = h.bytes ++ more) :
      Pass skip b (.item (.data h.opcode.value h.len) h.len more)
  | control {skip : Nat} {b : Bytes} (le : skip ≤ b.length) (f : ClientFrame) (more : Bytes)
      (accepted : f.Accepted) (control : f.opcode.control) (start : b.drop skip = f.bytes ++ more) :
      Pass skip b (.item f.seen 0 more)

theorem pass_cut {b : Bytes} (wait : nextFrame 0 b = .wait 0 b) (small : b.length < 14 + 125) :
    Pass 0 b (nextFrame 0 b) := by
  rw [wait]
  exact .cut (Nat.zero_le _) small

theorem pass_refused {b : Bytes} (refused : Refused b) : Pass 0 b (nextFrame 0 b) := by
  rw [nextFrame_refused refused]
  exact .refused (Nat.zero_le _) refused

theorem pass_header (h : Header) (more : Bytes) : Pass 0 (h.bytes ++ more) (nextFrame 0 (h.bytes ++ more)) := by
  by_cases control : h.opcode.control
  swap
  · have data : h.opcode.control = false := by simpa using control
    rw [nextFrame_data data]
    exact .data (Nat.zero_le _) h more data rfl
  by_cases broken : 125 < h.len ∨ h.fin = false
  · obtain tooLong | cut := broken
    · exact pass_refused (.long h more control tooLong)
    · exact pass_refused (.fragmented h more control cut)
  by_cases cut : more.length < h.len
  · apply pass_cut (nextFrame_cut control broken cut)
    have := header_length h
    rw [List.length_append]
    omega
  obtain ⟨f, rfl, whole⟩ := frame_exists h (Nat.not_lt.mp cut)
  rw [whole]
  by_cases close : f.opcode = .close
  · exact pass_refused (.close f _ close)
  · have accepted : f.Accepted := fun _ => ⟨close, by simpa using fun cut => broken (.inr cut), by omega⟩
    rw [nextFrame_accepted accepted control]
    exact .control (Nat.zero_le _) f _ accepted control rfl

theorem pass_zero (b : Bytes) : Pass 0 b (nextFrame 0 b) := by
  match b with
  | [] | [_] => exact pass_cut rfl (by simp)
  | b0 :: b1 :: rest =>
      by_cases reserved : b0 &&& 0x70 = 0
      swap
      · exact pass_refused (.reserved b0 b1 rest reserved)
      by_cases masked : b1 &&& 0x80 = 0
      · exact pass_refused (.unmasked b0 b1 rest masked)
      by_cases defined : b0 &&& 0x0F > 0x2 ∧ (b0 &&& 0x0F < 0x8 ∨ b0 &&& 0x0F > 0xA)
      · refine pass_refused (.undefined b0 b1 rest fun opcode same => opcode_defined opcode ?_)
        rwa [same]
      by_cases short : rest.length < lengthBytes (b1 &&& 0x7F).toNat + 4
      · apply pass_cut (nextFrame_short short reserved masked defined)
        have : lengthBytes (b1 &&& 0x7F).toNat ≤ 8 := by
          rw [lengthBytes]
          split_ifs <;> decide
        simp only [List.length_cons]
        omega
      obtain ⟨opcode, value⟩ := opcode_exists defined
      obtain ⟨h, more, same⟩ := header_exists reserved value masked (Nat.not_lt.mp short)
      rw [same]
      exact pass_header h more

theorem nextFrame_pass (skip : Nat) (b : Bytes) : Pass skip b (nextFrame skip b) := by
  by_cases less : b.length < skip
  · rw [nextFrame_skipping less]
    exact .skipping less
  have le := Nat.not_lt.mp less
  rw [nextFrame_skipped le]
  have start := pass_zero (b.drop skip)
  generalize nextFrame 0 (b.drop skip) = read at start
  cases start with
  | skipping less => cases less
  | cut _ small => exact .cut le small
  | refused _ refused => exact .refused le refused
  | data _ h more data start => exact .data le h more data start
  | control _ f more accepted control start => exact .control le f more accepted control start

end Start

section Laws
variable {skip : Nat} {b : Bytes}

theorem nextFrame_skipped_append (le : skip ≤ b.length) (more : Bytes) :
    nextFrame skip (b ++ more) = nextFrame 0 (b.drop skip ++ more) := by
  rw [nextFrame_skipped (by rw [List.length_append]; omega), List.drop_append_of_le_length le]

theorem nextFrame_item {item : InFrame} {s : Nat} {rest : Bytes} (read : nextFrame skip b = .item item s rest) :
    rest.length < b.length ∧ ∀ more, nextFrame skip (b ++ more) = .item item s (rest ++ more) := by
  have pass := nextFrame_pass skip b
  have dropped : (b.drop skip).length ≤ b.length := by simp
  rw [read] at pass
  cases pass with
  | data le h after data start =>
      have := header_length h
      rw [start, List.length_append] at dropped
      refine ⟨by omega, fun more => ?_⟩
      rw [nextFrame_skipped_append le, start, List.append_assoc, nextFrame_data data]
  | control le f after accepted control start =>
      have := header_length f.toHeader
      rw [start, ClientFrame.bytes, List.length_append, List.length_append] at dropped
      refine ⟨by omega, fun more => ?_⟩
      rw [nextFrame_skipped_append le, start, List.append_assoc, nextFrame_accepted accepted control]

theorem nextFrame_stop {e : Unit} (read : nextFrame skip b = .stop e) (more : Bytes) :
    nextFrame skip (b ++ more) = .stop e := by
  have pass := nextFrame_pass skip b
  rw [read] at pass
  cases pass with
  | refused le refused => rw [nextFrame_skipped_append le, nextFrame_refused (refused_append refused more)]

theorem nextFrame_wait {s : Nat} {rest : Bytes} (read : nextFrame skip b = .wait s rest) (more : Bytes) :
    nextFrame skip (b ++ more) = nextFrame s (rest ++ more) := by
  have pass := nextFrame_pass skip b
  rw [read] at pass
  cases pass with
  | skipping less =>
      rw [List.nil_append]
      by_cases still : (b ++ more).length < skip
      · have rest : more.length < skip - b.length := by
          rw [List.length_append] at still
          omega
        rw [nextFrame_skipping still, nextFrame_skipping rest, List.length_append, Nat.sub_sub]
      · have le := Nat.not_lt.mp still
        have rest : skip - b.length ≤ more.length := by
          rw [List.length_append] at le
          omega
        rw [nextFrame_skipped le, nextFrame_skipped rest, List.drop_append,
          List.drop_eq_nil_of_le (Nat.le_of_lt less), List.nil_append]
  | cut le small => exact nextFrame_skipped_append le more

end Laws

def clientReader : Reader Nat UInt8 InFrame Unit where
  next := nextFrame
  shrinks := fun read => (nextFrame_item read).1
  item_append := fun more read => (nextFrame_item read).2 more
  stop_append := fun more read => nextFrame_stop read more
  wait_append := fun more read => nextFrame_wait read more

/-- A client's bytes, read in one piece. -/
def readClient (stream : Bytes) : List InFrame × Ending Nat UInt8 Unit := clientReader.read 0 stream

theorem read_skip {skip : Nat} {b : Bytes} (le : skip ≤ b.length) :
    clientReader.read skip b = readClient (b.drop skip) :=
  Reader.read_congr (nextFrame_skipped le)

theorem readClient_frame {f : ClientFrame} (accepted : f.Accepted) (rest : Bytes) :
    readClient (f.bytes ++ rest) = (f.seen :: (readClient rest).1, (readClient rest).2) := by
  by_cases control : f.opcode.control
  · exact Reader.read_item (nextFrame_accepted accepted control rest)
  · have size : (unmask f.mask f.payload).length = f.len := by rw [unmask_length, f.payloadLength]
    have skipped : clientReader.read f.len (unmask f.mask f.payload ++ rest) = readClient rest := by
      rw [read_skip (by simp [size]), List.drop_left' size]
    have seen : f.seen = .data f.opcode.value f.len := by rw [ClientFrame.seen, dif_neg fun both => control both.1]
    have read : clientReader.next 0 (f.bytes ++ rest) = .item f.seen f.len (unmask f.mask f.payload ++ rest) := by
      rw [seen, ClientFrame.bytes, List.append_assoc]
      exact nextFrame_data (by simpa using control) _
    rw [readClient, Reader.read_item read, skipped]

theorem readClient_frames {sent : List ClientFrame} (accepted : ∀ f ∈ sent, f.Accepted) (rest : Bytes) :
    readClient (sent.flatMap ClientFrame.bytes ++ rest) =
      (sent.map ClientFrame.seen ++ (readClient rest).1, (readClient rest).2) := by
  induction sent with
  | nil => rfl
  | cons f sent ih =>
      rw [List.flatMap_cons, List.append_assoc, readClient_frame (accepted f List.mem_cons_self),
        ih fun g member => accepted g (List.mem_cons_of_mem f member)]
      rfl

theorem broken_frame {f : ClientFrame} (accepted : f.Accepted) {rest : Bytes} (broken : Broken rest) :
    Broken (f.bytes ++ rest) := by
  obtain ⟨sent, rest, all, rfl, refused⟩ := broken
  refine ⟨f :: sent, rest, fun g member => ?_, by rw [List.flatMap_cons, List.append_assoc], refused⟩
  obtain rfl | member := List.mem_cons.mp member
  · exact accepted
  · exact all g member

theorem read_stopped {skip : Nat} {b : Bytes} (stopped : (clientReader.read skip b).2 = .stopped ()) :
    skip ≤ b.length ∧ Broken (b.drop skip) := by
  induction skip, b using clientReader.read_induction with
  | wait skip b s rest read =>
      rw [Reader.read_wait read] at stopped
      cases stopped
  | stop skip b e read =>
      have pass := nextFrame_pass skip b
      rw [show nextFrame skip b = .stop e from read] at pass
      cases pass with
      | refused le refused => exact ⟨le, [], _, by simp, rfl, refused⟩
  | item skip b item s rest read ih =>
      rw [Reader.read_item read] at stopped
      have pass := nextFrame_pass skip b
      rw [show nextFrame skip b = .item item s rest from read] at pass
      cases pass with
      | data le h more data start =>
          obtain ⟨enough, broken⟩ := ih stopped
          obtain ⟨f, rfl, whole⟩ := frame_exists h enough
          rw [start, whole]
          refine ⟨le, broken_frame (fun control => ?_) broken⟩
          rw [data] at control
          cases control
      | control le f more accepted control start =>
          rw [start]
          exact ⟨le, broken_frame accepted (ih stopped).2⟩

theorem readClient_stopped (stream : Bytes) : (readClient stream).2 = .stopped () ↔ Broken stream := by
  constructor
  · exact fun stopped => (read_stopped stopped).2
  · rintro ⟨sent, rest, accepted, rfl, refused⟩
    rw [readClient_frames accepted, readClient, Reader.read_stop (nextFrame_refused refused)]

end Budyk.Proof
