import Budyk.Core.Sample
import Mathlib.Data.List.Basic

/-! The totals of the devices' counters (`budyk_counted_add` of `collector/detail.c`), and the disk collector's use of
them (`collector/linux/disk.c`). A name is a C string: the bytes before its NUL. -/

namespace Budyk.Collector

abbrev BUDYK_MAX_COUNTED : Nat := 1024

structure Counted where
  name : List UInt8
  a : UInt64
  b : UInt64
  deriving DecidableEq

/-- What the calls of one read pass on: `*pos`, the list for the next read, and what has moved. -/
structure CountedRead where
  pos : UInt32
  next : List Counted
  movedA : UInt64
  movedB : UInt64

/-- The `k`-th place looked at. -/
def countedIndex (nprev : Nat) (pos : UInt32) (k : Nat) : Nat :=
  ((pos + UInt32.ofNat k) % UInt32.ofNat nprev).toNat

/-- The loop: from the cursor, round the list. -/
def findCounted (prev : List Counted) (pos : UInt32) (name : List UInt8) : Option (Nat × Counted) :=
  (List.range prev.length).findSome? fun k =>
    let i := countedIndex prev.length pos k
    match prev[i]? with
    | some p => if p.name = name then some (i, p) else none
    | none => none

def countedAdd (prev : List Counted) (read : CountedRead) (device : Counted) : CountedRead :=
  let next :=
    if read.next.length < BUDYK_MAX_COUNTED then read.next ++ [{ device with name := device.name.take 31 }] else read.next
  match findCounted prev read.pos device.name with
  | none => { read with next }
  | some (i, p) =>
      { pos := UInt32.ofNat i + 1
        next
        movedA := if device.a ≥ p.a then read.movedA + (device.a - p.a) else read.movedA
        movedB := if device.b ≥ p.b then read.movedB + (device.b - p.b) else read.movedB }

def countedRead (prev : List Counted) (devices : List Counted) : CountedRead :=
  devices.foldl (countedAdd prev) ⟨0, [], 0, 0⟩

structure DiskCtx where
  dev : List Counted
  prevNs : UInt64
  hasPrev : Bool

/-- A tick: its time, and the whole disks listed with the bytes read and written; none when the list can not be opened. -/
structure DiskTick where
  timestampNanos : UInt64
  devices : Option (List Counted)

/-- `rateU64 moved dns` is the rate that `budyk_rate_u64` computes in double. -/
def collectDisk (rateU64 : UInt64 → UInt64 → UInt64) (ctx : DiskCtx) (tick : DiskTick) : Option DiskStats × DiskCtx :=
  match tick.devices with
  | none => (none, ctx)
  | some devices =>
      let read := countedRead ctx.dev devices
      let deviceCount := UInt32.ofNat devices.length
      let stats : DiskStats :=
        if !ctx.hasPrev || tick.timestampNanos ≤ ctx.prevNs then ⟨0, 0, deviceCount⟩
        else
          let dns := tick.timestampNanos - ctx.prevNs
          ⟨rateU64 read.movedA dns, rateU64 read.movedB dns, deviceCount⟩
      (some stats, ⟨read.next, tick.timestampNanos, true⟩)

end Budyk.Collector
