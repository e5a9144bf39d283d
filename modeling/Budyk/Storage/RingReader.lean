import Budyk.Lib.Observer
import Budyk.Storage.RingFile

/-! The reading side of a ring, as programs over the calls a reader makes on a `RingFile` that the
writer's thread may be appending to: the same program runs on a ring at rest and in any
interleaving with the steps of `append`. -/

namespace Budyk.Storage
open Lib

/-- Which loop makes a read, and for which logical index; the ring is asked for the slot only. -/
inductive Caller where
  | search (logical : Nat)
  | walk (logical : Nat)

inductive RingCall where
  | writeIndex
  | readAt (caller : Caller) (index : Nat)
  | writeBegun

abbrev RingCall.Ans : RingCall → Type
  | .writeIndex => Nat
  | .readAt _ _ => Option Record
  | .writeBegun => Nat

abbrev RingM := Observer RingCall RingCall.Ans

def RingFile.answer (r : RingFile) : (call : RingCall) → call.Ans
  | .writeIndex => r.writeIndex
  | .readAt _ index => r.readAt index
  | .writeBegun => r.writeBegun

def writeIndex : RingM Nat := Observer.query RingCall.writeIndex
def readAt (caller : Caller) (index : Nat) : RingM (Option Record) :=
  Observer.query (RingCall.readAt caller index)
def writeBegun : RingM Nat := Observer.query RingCall.writeBegun

structure RingReader where
  cap : Nat
  oldest : Nat
  stop : Nat

namespace RingReader

def make (cap : Nat) : RingM RingReader := do
  let widx ← writeIndex
  let valid := if widx < cap then widx else cap
  return ⟨cap, widx - valid, widx⟩

def empty (r : RingReader) : Bool := r.cap == 0 || r.stop == r.oldest

def read (r : RingReader) (logical : Nat) : RingM (Option Sample) := do
  let buf ← readAt (.search logical) (logical % r.cap)
  return buf.bind decodeRecord

def tsFromLoop (r : RingReader) : (left k : Nat) → RingM (Option Nat)
  | 0, _ => return none
  | left + 1, k => do
      match ← r.read k with
      | some s => return some s.ts
      | none => r.tsFromLoop left (k + 1)

def tsFrom (r : RingReader) (logical : Nat) : RingM (Option Nat) :=
  r.tsFromLoop (r.stop - logical) logical

def lowerBoundLoop (r : RingReader) (ts lo hi : Nat) : RingM Nat :=
  if lo < hi then do
    let mid := lo + (hi - lo) / 2
    match ← r.tsFrom mid with
    | none => r.lowerBoundLoop ts lo mid
    | some t => if t ≥ ts then r.lowerBoundLoop ts lo mid else r.lowerBoundLoop ts (mid + 1) hi
  else return lo
termination_by hi - lo

def lowerBound (r : RingReader) (ts : Nat) : RingM Nat := r.lowerBoundLoop ts r.oldest r.stop

def anyIn (r : RingReader) (lo hi : Nat) : RingM Bool := do
  if r.empty || hi ≤ lo then return false
  match ← r.tsFrom (← r.lowerBound (lo + 1)) with
  | some ts => return decide (ts ≤ hi)
  | none => return false

end RingReader

end Budyk.Storage
