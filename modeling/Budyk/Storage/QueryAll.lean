import Budyk.Storage.TierManager

/-! `TierManager::query_all`: the rings' shares of a window, less the folded records a finer ring
covers, merged and thinned by time. -/

namespace Budyk.Storage
open Lib

/-- A sample of the result, with the ring and the logical index it was read at. -/
structure Pick where
  leaf : Leaf
  idx : Nat
  sample : Sample

def Pick.ts (p : Pick) : Nat := p.sample.ts

/-! ## One ring's share -/

/-- The `k`-th of `take` indices spread evenly over the `count` from `first` on, in 64 bits. -/
def spreadIdx (first count take k : Nat) : Nat :=
  if take = 1 then first + count - 1 else first + (k * (count - 1)) % 2 ^ 64 / (take - 1)

def spreadLoop (r : RingReader) (overrideLevel : Option Level) (w : Window) (first count take : Nat) :
    (left k : Nat) → (prev : Option Nat) → (out : List (Nat × Sample)) → RingM (List (Nat × Sample))
  | 0, _, _, out => return out
  | left + 1, k, prev, out =>
      let idx := spreadIdx first count take k
      -- No index is `UINT64_MAX`, which the source starts `prev` from.
      if prev = some idx then spreadLoop r overrideLevel w first count take left (k + 1) prev out
      else do
        match ← r.read idx with
        | none => spreadLoop r overrideLevel w first count take left (k + 1) (some idx) out
        | some s =>
            if s.ts < w.sinceNs then
              spreadLoop r overrideLevel w first count take left (k + 1) (some idx) out
            else if w.past s then
              spreadLoop r overrideLevel w first count take left (k + 1) (some idx) out
            else
              spreadLoop r overrideLevel w first count take left (k + 1) (some idx)
                (out ++ [(idx, relabel overrideLevel s)])

def spreadRange (r : RingReader) (w : Window) : RingM (Nat × Nat) := do
  let first ← r.lowerBound w.sinceNs
  let stop ← if w.untilNs ≠ 0 ∧ w.untilNs ≠ UINT64_MAX then r.lowerBound (w.untilNs + 1) else pure r.stop
  return (first, stop)

def queryRingSpread (cap : Nat) (overrideLevel : Option Level) (w : Window) : RingM (List (Nat × Sample)) := do
  let r ← RingReader.make cap
  if r.empty then return []
  let (first, stop) ← spreadRange r w
  if first ≥ stop then return []
  let count := stop - first
  let take := if count < w.maxRecords then count else w.maxRecords
  spreadLoop r overrideLevel w first count take take 0 none []

/-! ## Cover -/

/-- `std::upper_bound` of a sorted list: its first item above `lo`; is it at most `hi`? -/
def seenIn (seenTs : List Nat) (lo hi : Nat) : Bool := (seenTs.find? fun t => lo < t).any (· ≤ hi)

def anyIn (ring : Option RingFile) (lo hi : Nat) : Bool :=
  (do let r ← RingReader.make (TierManager.capacity ring); r.anyIn lo hi : RingM Bool).run
    (TierManager.answer ring)

/-- The window of `window_ns` up to the record's stamp has a sample in `seen` or in a ring. -/
def covered (windowNs : Nat) (seenTs : List Nat) (rings : List (Option RingFile)) (s : Sample) : Bool :=
  let hi := s.ts
  let lo := if hi > windowNs then hi - windowNs else 0
  s.folded && (seenIn seenTs lo hi || rings.any fun ring => anyIn ring lo hi)

def dropCovered (recs : List Pick) (windowNs : Nat) (seen : List (List Pick))
    (rings : List (Option RingFile)) : List Pick :=
  if windowNs = 0 then recs
  else
    let seenTs := (seen.flatten.map Pick.ts).mergeSort (· ≤ ·)
    recs.filter fun p => !covered windowNs seenTs rings p.sample

/-! ## Thinning -/

/-- The slice of a stamp: `max_records` slices over `span`, the quotient exact. -/
def sliceOf (lo span maxRecords ts : Nat) : Nat := (ts - lo) * maxRecords / span

def thinLoop (slice : Nat → Nat) : List Pick → (lastSlice : Nat) → (thinned : List Pick) → List Pick
  | [], _, thinned => thinned
  | p :: merged, lastSlice, thinned =>
      if slice p.ts = lastSlice then thinLoop slice merged lastSlice (thinned.dropLast ++ [p])
      else thinLoop slice merged (slice p.ts) (thinned ++ [p])

def thin (maxRecords : Nat) (merged : List Pick) : List Pick :=
  if merged.length > maxRecords then
    match merged.head?, merged.getLast? with
    | some front, some back =>
        let span := (back.ts - front.ts + 1) % 2 ^ 64
        thinLoop (sliceOf front.ts span maxRecords) merged UINT64_MAX []
    | _, _ => merged
  else merged

/-- `std::sort` by time: which of two samples with one stamp comes first is left open. -/
structure TimeSort where
  sort : List Pick → List Pick
  perm : ∀ picks, (sort picks).Perm picks
  sorted : ∀ picks, (sort picks).Pairwise fun p q => p.ts ≤ q.ts

def TimeSort.stable : TimeSort where
  sort := fun picks => picks.mergeSort fun p q => p.ts ≤ q.ts
  perm := fun picks => List.mergeSort_perm picks _
  sorted := fun picks => (List.pairwise_mergeSort (fun _ _ _ => by simp only [decide_eq_true_eq]; omega)
    (fun _ _ => by simp only [Bool.or_eq_true, decide_eq_true_eq]; omega) picks).imp of_decide_eq_true

namespace TierManager

/-! ## The query -/

def spread (m : TierManager) (w : Window) (leaf : Leaf) (overrideLevel : Option Level) : List Pick :=
  ((queryRingSpread (capacity (m.rings leaf)) overrideLevel w).run (answer (m.rings leaf))).map
    fun read => ⟨leaf, read.1, read.2⟩

def fine (m : TierManager) (w : Window) : List Pick :=
  m.spread w .tier1 none ++ m.custom.flatMap fun c => m.spread w (.level c.name) (some c.levelId)

def finer (m : TierManager) : Coarse → List Leaf
  | .l2 => .tier1 :: m.custom.map fun c => .level c.name
  | .l1 => (.tier1 :: m.custom.map fun c => .level c.name) ++ [.tier2]

def leaves (m : TierManager) : List Leaf := m.finer .l1 ++ [.tier3]

def seen (m : TierManager) (w : Window) : Coarse → List (List Pick)
  | .l2 => [m.fine w]
  | .l1 => [m.fine w, m.spread w .tier2 none]

def uncovered (m : TierManager) (w : Window) (c : Coarse) : List Pick :=
  dropCovered (m.spread w c.leaf none) (m.foldNs c) (m.seen w c) ((m.finer c).map m.rings)

def picks (m : TierManager) (w : Window) : List Pick :=
  m.fine w ++ m.uncovered w .l2 ++ m.uncovered w .l1

def queryAll (std : TimeSort) (m : TierManager) (w : Window) : Option (List Pick) :=
  if !m.ready || w.maxRecords == 0 then none
  else some (thin w.maxRecords (std.sort (m.picks w)))

end TierManager

end Budyk.Storage
