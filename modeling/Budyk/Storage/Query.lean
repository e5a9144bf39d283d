import Budyk.Storage.RingReader

/-! `TierManager::query_ring`: the window walk over one ring, newest to oldest. -/

namespace Budyk.Storage
open Lib

def UINT64_MAX : Nat := 2 ^ 64 - 1

def kDisorderLookback : Nat := 1024

/-- Samples of a custom ring carry the level's current id (`override_level` above 0). -/
def relabel (overrideLevel : Option Level) (s : Sample) : Sample :=
  match overrideLevel with
  | none => s
  | some level => { s with level }

structure Window where
  sinceNs : Nat
  untilNs : Nat
  maxRecords : Nat

namespace Window

def past (w : Window) (s : Sample) : Prop := w.untilNs ≠ 0 ∧ s.ts > w.untilNs

instance (w : Window) (s : Sample) : Decidable (w.past s) := inferInstanceAs (Decidable (_ ∧ _))

def has (w : Window) (s : Sample) : Bool := w.sinceNs ≤ s.ts && !w.past s

end Window

/-- The walk: `left` more records from the `k`-th newest on. Each sample is kept with the logical
index it was read at. -/
def walk (w : Window) (cap widx : Nat) :
    (left k olderRun : Nat) → (newestFirst : List (Nat × Sample)) → RingM (List (Nat × Sample))
  | 0, _, _, newestFirst => return newestFirst
  | left + 1, k, olderRun, newestFirst =>
      if newestFirst.length < w.maxRecords then do
        let logical := widx - 1 - k
        match ← readAt (.walk logical) (logical % cap) with
        | none => walk w cap widx left (k + 1) olderRun newestFirst
        | some buf =>
            -- The writer has begun to write over this slot, and over every older one.
            if (← writeBegun) > logical + cap then return newestFirst
            else match decodeRecord buf with
              | none => walk w cap widx left (k + 1) olderRun newestFirst
              | some s =>
                  if s.ts < w.sinceNs then
                    if olderRun + 1 > kDisorderLookback then return newestFirst
                    else walk w cap widx left (k + 1) (olderRun + 1) newestFirst
                  else if w.past s then walk w cap widx left (k + 1) 0 newestFirst
                  else walk w cap widx left (k + 1) 0 (newestFirst ++ [(logical, s)])
      else return newestFirst

def walkStart (w : Window) (cap widx : Nat) : RingM Nat := do
  let valid := if widx < cap then widx else cap
  if w.untilNs ≠ 0 ∧ w.untilNs ≠ UINT64_MAX then
    let reader ← RingReader.make cap
    let start ← reader.lowerBound (w.untilNs + 1)
    return max (min start widx) (widx - valid)
  else return widx

def queryRingFrom (cap : Nat) (w : Window) (widx : Nat) : RingM (List (Nat × Sample)) := do
  if cap = 0 ∨ widx = 0 then return []
  let valid := if widx < cap then widx else cap
  if w.untilNs ≠ 0 ∧ w.sinceNs > w.untilNs then return []
  let start ← walkStart w cap widx
  let k := widx - start
  let newestFirst ← walk w cap widx (valid - k) k 0 []
  return newestFirst.reverse

def queryRingAt (cap : Nat) (w : Window) : RingM (List (Nat × Sample)) := do
  let widx ← writeIndex
  queryRingFrom cap w widx

def queryRing (cap : Nat) (overrideLevel : Option Level) (w : Window) : RingM (List Sample) := do
  return (← queryRingAt cap w).map fun read => relabel overrideLevel read.2

end Budyk.Storage
