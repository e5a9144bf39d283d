import Budyk.Storage.RingFile

/-! `count_unindexed` of `storage/ring_check.cpp` and the recovery at start that uses it. -/

namespace Budyk.Storage

def levelFitsRing (tier level : UInt8) : Bool :=
  if tier = 1 then level == Level.L3
  else if tier = 2 then level == Level.L2
  else if tier = 3 then level == Level.L1
  else if tier = kCustomRingTier then kFirstCustomLevel ≤ level && level ≤ kMaxLevelId
  else false

namespace RingFile

/-- The lambda `read` of `count_unindexed`: a record at a logical index that decodes and is of
the ring's level. -/
def readFitting (r : RingFile) (logical : Nat) : Option Sample := do
  let buf ← r.readAt (logical % r.capacity)
  let s ← decodeRecord buf
  if levelFitsRing r.tier s.level then some s else none

def newestIndexedTs (r : RingFile) : Nat :=
  ((List.range r.count).findSome? fun k => r.readFitting (r.widx - 1 - k)).elim 0 SampleOf.ts

def unindexedRun (r : RingFile) (now : Nat) : (left n prevTs : Nat) → Nat
  | 0, n, _ => n
  | left + 1, n, prevTs =>
      match r.readFitting (r.widx + n) with
      | none => n
      | some s => if s.ts ≤ prevTs ∨ s.ts > now then n else unindexedRun r now left (n + 1) s.ts

end RingFile

/-- `clock` is what `now_realtime_ns()` returns, used where `nowNs` is 0. -/
def countUnindexed (clock : Nat) (ring : RingFile) (nowNs : Nat := 0) : Nat :=
  ring.unindexedRun (if nowNs = 0 then clock else nowNs) ring.capacity 0 ring.newestIndexedTs

/-- `TierManager::recover`: the ring, and the number of records reported as recovered. -/
def recover (clock : Nat) (ring : RingFile) : RingFile × Option Nat :=
  let n := countUnindexed clock ring
  if n > 0 then (ring.advanceWriteIndex n, some n) else (ring, none)

end Budyk.Storage
