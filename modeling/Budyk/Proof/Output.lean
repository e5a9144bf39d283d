import Mathlib.Tactic.Ring
import Budyk.Lib.Bytes
import Budyk.Spec.ServerFrames
import Budyk.Proof.HubRuns

/-! What the hub sends is a stream of whole frames, in the order they were queued. -/

namespace Budyk.Proof
open Lib Web Spec

theorem bigEndian_eq (count n : Nat) : bigEndian count n = (leBytes count n).reverse := by
  rw [bigEndian, List.map_reverse]
  congr 1
  induction count generalizing n with
  | zero => rfl
  | succ count ih =>
      have next (i : Nat) : n >>> ((i + 1) * 8) = (n / 256) >>> (i * 8) := by
        rw [Nat.add_mul, Nat.one_mul, Nat.add_comm, Nat.shiftRight_add, Nat.shiftRight_eq_div_pow n 8]
      have low : UInt8.ofNat (n &&& 0xFF) = UInt8.ofNat n := by
        rw [← UInt8.toNat_inj, UInt8.toNat_ofNat', UInt8.toNat_ofNat', show (0xFF : Nat) = 2 ^ 8 - 1 from rfl,
          Nat.and_two_pow_sub_one_eq_mod, Nat.mod_mod]
      rw [List.range_succ_eq_map, List.map_cons, List.map_map, leBytes, ← ih]
      simp [Function.comp_def, next, low]

theorem bigEndianValue_eq (bytes : Bytes) : bigEndianValue bytes = leValue bytes.reverse := by
  have value (bytes : Bytes) : leValue bytes = bytes.foldr (fun byte len => len * 256 + byte.toNat) 0 := by
    induction bytes with
    | nil => rfl
    | cons b bytes ih =>
        rw [leValue, List.foldr_cons, ih]
        ring
  rw [value, List.foldr_reverse]
  rfl

theorem bigEndian_length (count n : Nat) : (bigEndian count n).length = count := by
  simp [bigEndian]

theorem bigEndianValue_bigEndian (count n : Nat) : bigEndianValue (bigEndian count n) = n % 256 ^ count := by
  rw [bigEndian_eq, bigEndianValue_eq, List.reverse_reverse, leValue_leBytes]

theorem bigEndianValue_take {count n : Nat} (fits : n < 256 ^ count) (rest : Bytes) :
    bigEndianValue ((bigEndian count n ++ rest).take count) = n := by
  rw [List.take_left' (bigEndian_length count n), bigEndianValue_bigEndian, Nat.mod_eq_of_lt fits]

theorem bigEndianValue_lt (bytes : Bytes) : bigEndianValue bytes < 256 ^ bytes.length := by
  rw [bigEndianValue_eq, ← List.length_reverse]
  exact leValue_lt _

theorem bigEndian_bigEndianValue (bytes : Bytes) : bigEndian bytes.length (bigEndianValue bytes) = bytes := by
  apply List.reverse_injective
  rw [bigEndian_eq, List.reverse_reverse]
  apply leValue_inj (by simp)
  rw [leValue_leBytes, ← bigEndianValue_eq]
  exact Nat.mod_eq_of_lt (bigEndianValue_lt bytes)

theorem serverLength_short {n : Nat} (short : n < 126) (rest : Bytes) :
    serverLength (UInt8.ofNat n :: rest) = some (n, rest) := by
  have value : (UInt8.ofNat n).toNat = n := by
    rw [UInt8.toNat_ofNat']
    omega
  have less : UInt8.ofNat n < 126 := by
    rw [UInt8.lt_iff_toNat_lt, value]
    exact short
  rw [serverLength, if_pos less, value]

theorem serverLength_medium {n : Nat} (long : 126 ≤ n) (medium : n ≤ 0xFFFF) (rest : Bytes) :
    serverLength (UInt8.ofNat 126 :: bigEndian 2 n ++ rest) = some (n, rest) := by
  have value := bigEndianValue_take (show n < 256 ^ 2 by omega) rest
  rw [List.cons_append, serverLength, if_neg (by decide), if_pos (by decide)]
  simp only [value, List.drop_left' (bigEndian_length 2 n), List.length_append, bigEndian_length]
  rw [if_neg (by omega)]

theorem serverLength_long {n : Nat} (long : 0xFFFF < n) (small : n < 2 ^ 63) (rest : Bytes) :
    serverLength (UInt8.ofNat 127 :: bigEndian 8 n ++ rest) = some (n, rest) := by
  have value := bigEndianValue_take (show n < 256 ^ 8 by omega) rest
  rw [List.cons_append, serverLength, if_neg (by decide), if_neg (by decide), if_pos (by decide)]
  simp only [value, List.drop_left' (bigEndian_length 8 n), List.length_append, bigEndian_length]
  rw [if_neg (by omega)]

theorem serverFrame_append {b0 : UInt8} {length payload rest : Bytes} (final : b0 &&& 0xF0 = 0x80)
    (reads : serverLength (length ++ (payload ++ rest)) = some (payload.length, payload ++ rest)) :
    serverFrame (b0 :: length ++ payload ++ rest) = some ((b0 &&& 0x0F, payload), rest) := by
  rw [List.append_assoc, List.cons_append, serverFrame, if_neg (by simp [final]), reads]
  simp

theorem wsControlFrame_eq (opcode : UInt8) {payload : Bytes} (short : payload.length ≤ 125) :
    wsControlFrame opcode payload = (0x80 ||| (opcode &&& 0x0F)) :: [UInt8.ofNat payload.length] ++ payload := by
  have len : (if payload.length < 125 then payload.length else 125) = payload.length := by
    split <;> omega
  rw [wsControlFrame, len, List.take_length]

theorem serverFrame_bytes (frame : OutFrame) (rest : Bytes) :
    serverFrame (frame.bytes ++ rest) = some ((frame.opcode, frame.payload), rest) := by
  cases frame with
  | text payload =>
      apply serverFrame_append (by decide)
      split_ifs with short medium
      · exact serverLength_short short _
      · exact serverLength_medium (by omega) medium _
      · exact serverLength_long (by omega) payload.property _
  | pong payload =>
      rw [OutFrame.bytes, wsControlFrame_eq kOpPong payload.property]
      exact serverFrame_append (by decide) (serverLength_short (by have := payload.property; omega) _)

theorem serverFrames_flatMap (frames : List OutFrame) {bound : Nat} (enough : frames.length ≤ bound) :
    serverFrames bound (frames.flatMap OutFrame.bytes) =
      (frames.map fun frame => (frame.opcode, frame.payload), []) := by
  induction frames generalizing bound with
  | nil => cases bound <;> rfl
  | cons frame frames ih =>
      cases bound with
      | zero => cases enough
      | succ bound =>
          rw [List.flatMap_cons, serverFrames, serverFrame_bytes]
          simp only [ih (Nat.le_of_succ_le_succ enough), List.map_cons]

theorem parseServer_flatMap (frames : List OutFrame) :
    parseServer (frames.flatMap OutFrame.bytes) = (frames.map fun frame => (frame.opcode, frame.payload), []) := by
  apply serverFrames_flatMap
  induction frames with
  | nil => exact Nat.zero_le _
  | cons frame frames ih =>
      have some : 0 < frame.bytes.length := by
        cases frame <;> simp [OutFrame.bytes, wsTextFrame, wsControlFrame]
      rw [List.flatMap_cons, List.length_append, List.length_cons]
      omega

/-! ## Whole frames -/

def Whole (c : Client) : Prop := c.taken ++ c.outbuf = c.queued.flatMap OutFrame.bytes

/-- A close frame after the last whole one, or the part of it that the socket took. -/
def Closing (c : Client) : Prop :=
  c.outbuf = [] ∧ ∃ status part, (status = [] ∨ status.length = 2) ∧ part <+: wsControlFrame kOpClose status ∧
    c.taken = c.queued.flatMap OutFrame.bytes ++ part

def Ended (c : Client) (reason : Reason) : Prop :=
  Whole c ∨ (reason = .refused ∨ reason = .session) ∧ Closing c

theorem Whole.sends {c c' : Client} {frames : List OutFrame} (whole : Whole c) (sends : Sends c c' frames) :
    Whole c' := by
  rw [Whole, sends.stream, sends.queued, whole, List.flatMap_append]

theorem Whole.sendClose {c : Client} (whole : Whole c) {status : Bytes} (length : status = [] ∨ status.length = 2) :
    Whole (c.sendClose status) ∨ Closing (c.sendClose status) := by
  rw [Client.sendClose]
  split
  next nothing =>
    rcases result : c.sendSome (wsControlFrame kOpClose status) with ⟨sent, d⟩
    cases sent with
    | none => exact .inl (whole.sends (sendSome_none result))
    | some n =>
        rw [Whole, nothing, List.append_nil] at whole
        rw [sendSome_some result]
        exact .inr ⟨nothing, status, _, length, List.take_prefix n _, by simp only [whole]⟩
  · exact .inl whole

theorem whole_keptByOutput : KeptByOutput Whole Ended where
  input := fun _ _ _ _ _ whole => whole
  sends := fun sends _ whole => whole.sends sends
  ends := fun _ whole => .inl whole
  close := fun reason length whole => by
    obtain whole | closing := whole.sendClose length
    · exact .inl whole
    · exact .inr ⟨reason, closing⟩

theorem whole_queues (op : WebSocketHub.Op) : Queues Whole op := by
  cases op with
  | add fd session sends recvs first =>
      cases first with
      | none => rfl
      | some first => simp [Queues, Whole, WebSocketHub.newClient]
  | broadcast payload =>
      intro c whole
      obtain sends | ⟨-, sends⟩ := queueOut_sends c (.text payload)
      · exact whole.sends sends
      · exact whole.sends sends
  | service | flushOwed fd | dropSessions gone | closeAll => trivial

end Budyk.Proof
