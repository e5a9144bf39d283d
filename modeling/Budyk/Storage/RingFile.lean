import Budyk.Lib.Circular
import Budyk.Storage.Codec

/-! The on-disk ring of `storage/ring_file.cpp`. A value is an open ring of this version's record
size: the file (`tier`, `capacity`, `writeIdx` of the header, the slots) and the two counters
the process keeps beside it. -/

namespace Budyk.Storage

def kCustomRingTier : UInt8 := 0x80

structure RingFile where
  tier : UInt8
  capacity : Nat
  capacity_pos : 0 < capacity
  /-- The records' bytes by slot; only the slots below `capacity` are in the file. -/
  slots : Nat → Record
  writeIdx : Nat
  widx : Nat
  begun : Nat
  lastErrno : Nat

/-- Bytes that are not a record: what a write cut short is taken to leave in its slot. -/
structure TornRecord where
  bytes : Record
  torn : decodeRecord bytes = none

inductive Pwrite where
  | written
  | failed (errno : Nat)
  | short (left : TornRecord)

def EIO : Nat := 5
def ENOSPC : Nat := 28

namespace RingFile

def create (tier : UInt8) (capacity : Nat) (pos : 0 < capacity) : RingFile :=
  ⟨tier, capacity, pos, fun _ => List.replicate recordSizeForSample 0, 0, 0, 0, 0⟩

/-- `open` of the file that is there: the counters start from the header. -/
def reopen (r : RingFile) : RingFile :=
  { r with widx := r.writeIdx, begun := r.writeIdx, lastErrno := 0 }

def writeIndex (r : RingFile) : Nat := r.widx

def writeBegun (r : RingFile) : Nat := r.begun

def count (r : RingFile) : Nat := min r.widx r.capacity

def readAt (r : RingFile) (index : Nat) : Option Record :=
  if index < r.capacity then some (r.slots index) else none

def advanceWriteIndex (r : RingFile) (n : Nat) : RingFile :=
  { r with writeIdx := r.widx + n, begun := r.widx + n, widx := r.widx + n }

/-! ## The steps of `append` -/

def slot (r : RingFile) : Nat := r.widx % r.capacity

def raiseBegun (r : RingFile) : RingFile := { r with begun := r.widx + 1 }

def putSlot (r : RingFile) (record : Record) : RingFile :=
  { r with slots := Function.update r.slots r.slot record }

def putWriteIdx (r : RingFile) : RingFile := { r with writeIdx := r.widx + 1 }

def storeWidx (r : RingFile) : RingFile := { r with widx := r.widx + 1 }

def append (r : RingFile) (record : Record) (io : Pwrite) : Int × RingFile :=
  if record.length ≠ recordSizeForSample then (-2, r)
  else match io with
    | .written => (0, (((r.raiseBegun).putSlot record).putWriteIdx).storeWidx)
    | .failed errno => (-3, { r with lastErrno := errno, begun := r.widx })
    -- Part of the slot is written: what was there is gone, and the index stays.
    | .short left => (-3, { r.putSlot left.bytes with lastErrno := ENOSPC, begun := r.widx })

/-! ## What a ring holds -/

def oldest (r : RingFile) : Nat := r.widx - r.count

def sampleAt (r : RingFile) (i : Nat) : Option Sample := decodeRecord (r.slots (i % r.capacity))

def liveSamples (r : RingFile) : List Sample := (List.range' r.oldest r.count).filterMap r.sampleAt

def Live (r : RingFile) (i : Nat) (s : Sample) : Prop :=
  r.oldest ≤ i ∧ i < r.widx ∧ r.sampleAt i = some s

def TimeOrdered (r : RingFile) : Prop :=
  ∀ i j s t, r.Live i s → r.Live j t → i < j → s.ts ≤ t.ts

structure Quiescent (r : RingFile) : Prop where
  writeIdx_eq : r.writeIdx = r.widx
  begun_eq : r.begun = r.widx

variable (r : RingFile)

theorem count_le_widx : r.count ≤ r.widx := Nat.min_le_left _ _

theorem count_le_capacity : r.count ≤ r.capacity := Nat.min_le_right _ _

theorem oldest_add_count : r.oldest + r.count = r.widx := Nat.sub_add_cancel r.count_le_widx

theorem widx_le_oldest_add : r.widx ≤ r.oldest + r.capacity := by
  have total := r.oldest_add_count
  have bound := r.count_le_capacity
  omega

theorem readAt_mod (i : Nat) : r.readAt (i % r.capacity) = some (r.slots (i % r.capacity)) := by
  simp [readAt, Nat.mod_lt i r.capacity_pos]

theorem create_quiescent (tier : UInt8) (capacity : Nat) (pos : 0 < capacity) :
    (create tier capacity pos).Quiescent := ⟨rfl, rfl⟩

theorem reopen_quiescent : r.reopen.Quiescent := ⟨rfl, rfl⟩

theorem append_written_quiescent {record : Record} (size : record.length = recordSizeForSample) :
    (r.append record .written).2.Quiescent := by
  rw [append, if_neg (by simpa using size)]
  exact ⟨rfl, rfl⟩

theorem append_written {record : Record} (size : record.length = recordSizeForSample) :
    (r.append record .written).2 = { r with
      slots := Function.update r.slots r.slot record
      writeIdx := r.widx + 1, widx := r.widx + 1, begun := r.widx + 1 } := by
  rw [append, if_neg (by simpa using size)]
  rfl

end RingFile

end Budyk.Storage
