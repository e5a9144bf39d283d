import Budyk.Storage.Query

/-! The thread that appends to a ring, one step of `append` at a time, beside which a reader's
questions are asked. -/

namespace Budyk.Storage
open Lib

inductive Progress where
  | idle
  | begun (record : Record)
  | placed
  | indexed

/-- `log i` is the record appended at logical index `i`, or being appended there. -/
structure Writer where
  ring : RingFile
  progress : Progress
  log : Nat → Record

namespace Writer

def rest (r : RingFile) : Writer := ⟨r, .idle, fun i => r.slots (i % r.capacity)⟩

inductive Step : Writer → Writer → Prop where
  | begin (ring : RingFile) (log : Nat → Record) (record : Record)
      (size : record.length = recordSizeForSample) :
      Step ⟨ring, .idle, log⟩ ⟨ring.raiseBegun, .begun record, Function.update log ring.widx record⟩
  | place (ring : RingFile) (log : Nat → Record) (record : Record) :
      Step ⟨ring, .begun record, log⟩ ⟨ring.putSlot record, .placed, log⟩
  | index (ring : RingFile) (log : Nat → Record) :
      Step ⟨ring, .placed, log⟩ ⟨ring.putWriteIdx, .indexed, log⟩
  | publish (ring : RingFile) (log : Nat → Record) :
      Step ⟨ring, .indexed, log⟩ ⟨ring.storeWidx, .idle, log⟩

abbrev Steps : Writer → Writer → Prop := Relation.ReflTransGen Step

theorem steps_append (ring : RingFile) (log : Nat → Record) {record : Record}
    (size : record.length = recordSizeForSample) :
    Steps ⟨ring, .idle, log⟩
      ⟨(ring.append record .written).2, .idle, Function.update log ring.widx record⟩ := by
  rw [RingFile.append, if_neg (by simpa using size)]
  apply Relation.ReflTransGen.head (.begin ring log record size)
  apply Relation.ReflTransGen.head (.place _ _ record)
  apply Relation.ReflTransGen.head (.index _ _)
  exact .single (.publish _ _)

def answer (w : Writer) : (call : RingCall) → call.Ans := w.ring.answer

def written (w : Writer) : Nat :=
  match w.progress with
  | .idle => w.ring.widx
  | .begun _ => w.ring.widx
  | .placed => w.ring.widx + 1
  | .indexed => w.ring.widx + 1

def started (w : Writer) : Nat :=
  match w.progress with
  | .idle => w.ring.widx
  | .begun _ => w.ring.widx + 1
  | .placed => w.ring.widx + 1
  | .indexed => w.ring.widx + 1

def sampleOf (w : Writer) (i : Nat) : Option Sample := decodeRecord (w.log i)

def intact (w : Writer) : List Nat :=
  List.range' (w.started - w.ring.capacity) (w.ring.widx - (w.started - w.ring.capacity))

/-- What the writer keeps true: the begun counter counts the records begun, and the slots hold the
last lap of those written. -/
structure Consistent (w : Writer) : Prop where
  begun_eq : w.ring.begun = w.started
  holds : Holds w.ring.capacity w.ring.slots w.log (w.written - w.ring.capacity) w.written
  pending : ∀ record, w.progress = .begun record → w.log w.ring.widx = record

end Writer

end Budyk.Storage
