import Budyk.Storage.Query
import Budyk.Storage.RingCheck
import Budyk.Storage.TierAggregator

/-! `TierManager` of `storage/tier_manager.cpp`. A `RingFile` object of the source and the file it
has open are one value here, kept by the file's name: opening forgets the counters of the process
before, and closing leaves the file as it is. -/

namespace Budyk.Storage

inductive Leaf where
  | tier1
  | tier2
  | tier3
  | level (name : String)
  deriving DecidableEq

def Leaf.text : Leaf → String
  | .tier1 => "tier1.ring"
  | .tier2 => "tier2.ring"
  | .tier3 => "tier3.ring"
  | .level name => "level-" ++ name ++ ".ring"

/-- The rings with a fold window: tier2 with `fold_l2_`, tier3 with `fold_l1_`. -/
inductive Coarse where
  | l2
  | l1
  deriving DecidableEq

namespace Coarse

def leaf : Coarse → Leaf
  | .l2 => .tier2
  | .l1 => .tier3

def level : Coarse → Level
  | .l2 => Level.L2
  | .l1 => Level.L1

end Coarse

structure CustomRing where
  levelId : UInt8
  name : String
  id_ge : kFirstCustomLevel ≤ levelId
  id_le : levelId ≤ kMaxLevelId

structure StoreError where
  leaf : Leaf
  errno : Nat

def StoreError.text (strerror : Nat → String) (e : StoreError) : String :=
  e.leaf.text ++ ": writing a record failed: " ++ strerror e.errno

inductive InitError where
  | alreadyInitialised
  | ringFailed (leaf : Leaf) (rc : Int) (errno : Nat)

def RingFile.describe (rc : Int) : String :=
  if rc = 0 then "ok"
  else if rc = -1 then "already open"
  else if rc = -2 then "record size or capacity is zero"
  else if rc = -3 then "open failed"
  else if rc = -4 then "fstat failed"
  else if rc = -5 then "ftruncate failed"
  else if rc = -6 then "file size does not match record size x capacity"
  else if rc = -7 then "mmap failed"
  else if rc = -8 then "not a budyk ring file (bad magic)"
  else if rc = -9 then "ring format version mismatch"
  else if rc = -10 then "ring was written for another tier"
  else if rc = -11 then "record size in the header differs"
  else if rc = -12 then "capacity in the header differs"
  else if rc = -13 then "file is shorter than a ring header"
  else if rc = -14 then "writing the header failed"
  else if rc = -15 then "empty file"
  else if rc = -16 then "blank header (all zero bytes)"
  else "unknown error"

def InitError.text (strerror : Nat → String) : InitError → String
  | .alreadyInitialised => "already initialised"
  | .ringFailed leaf rc errno =>
      leaf.text ++ ": " ++ RingFile.describe rc ++
        (if errno ≠ 0 then ": " ++ strerror errno else "") ++
        (if rc = -6 ∨ rc = -11 ∨ rc = -12 then
          " (storage_mb / tierN_max_mb changed? move the file aside or restore the old size)" else "")

structure TierManager where
  ready : Bool
  /-- The ring files that exist; those of a manager that is ready are open. -/
  rings : Leaf → Option RingFile
  custom : List CustomRing
  storeError : Option StoreError
  lastError : Option InitError
  recovered : List (Leaf × Nat)
  foldNs : Coarse → Nat
  fold : Coarse → TierAggregator

namespace TierManager

def foldWindows (foldL2Ns foldL1Ns : Nat) : Coarse → Nat
  | .l2 => foldL2Ns
  | .l1 => foldL1Ns

def onDirectory (rings : Leaf → Option RingFile) (foldL2Ns foldL1Ns : Nat) : TierManager where
  ready := false
  rings := rings
  custom := []
  storeError := none
  lastError := none
  recovered := []
  foldNs := foldWindows foldL2Ns foldL1Ns
  fold := fun c => .empty c.level

def fresh (foldL2Ns foldL1Ns : Nat) : TierManager := onDirectory (fun _ => none) foldL2Ns foldL1Ns

/-! ## Storing -/

def ringFor (custom : List CustomRing) (level : Level) : Option Leaf :=
  if level = Level.L3 then some .tier1
  else if level = Level.L2 then some .tier2
  else if level = Level.L1 then some .tier3
  else (custom.find? fun c => c.levelId == level).map fun c => .level c.name

/-- `io` is how the `pwrite` of the record ends, if one is made. -/
def append (m : TierManager) (leaf : Leaf) (s : Sample) (io : Pwrite) : Int × TierManager :=
  match m.rings leaf with
  | none => (-4, { m with storeError := some ⟨leaf, EIO⟩ })
  | some ring =>
      let (rc, ring) := ring.append (recordEncode s) io
      let m := { m with rings := Function.update m.rings leaf (some ring) }
      if rc ≠ 0 then
        (-4, { m with storeError := some ⟨leaf, if ring.lastErrno ≠ 0 then ring.lastErrno else EIO⟩ })
      else (0, m)

def flush (m : TierManager) (c : Coarse) (io : Pwrite) : Int × TierManager :=
  let (out, agg) := (m.fold c).fold
  let m := { m with fold := Function.update m.fold c agg }
  match out with
  | none => (0, m)
  | some folded => m.append c.leaf folded io

def outside (m : TierManager) (c : Coarse) (s : Sample) : Prop :=
  (m.fold c).size > 0 ∧
    (s.ts < (m.fold c).firstTimestamp ∨ s.ts - (m.fold c).firstTimestamp ≥ m.foldNs c)

instance (m : TierManager) (c : Coarse) (s : Sample) : Decidable (m.outside c s) :=
  inferInstanceAs (Decidable (_ ∧ _))

def addTo (m : TierManager) (c : Coarse) (s : Sample) : TierManager :=
  { m with fold := Function.update m.fold c ((m.fold c).add s) }

def feed (m : TierManager) (c : Coarse) (s : Sample) (io : Pwrite) : Int × TierManager :=
  if m.foldNs c = 0 then (0, m)
  else if m.outside c s then
    let (rc, m) := m.flush c io
    (rc, m.addTo c s)
  else (0, m.addTo c s)

/-- The `pwrite`s a `store` may make: of the two folded records, then of the sample. -/
structure StoreIo where
  fold : Coarse → Pwrite
  direct : Pwrite

def StoreIo.ok : StoreIo := ⟨fun _ => .written, .written⟩

/-- A sample of a coarse ring's own level, or a coarser one, ends the ring's window; a finer one is
folded into it. -/
def endsWindow (level : Level) : Coarse → Bool
  | .l2 => level == Level.L1 || level == Level.L2
  | .l1 => level == Level.L1

def foldWindow (m : TierManager) (c : Coarse) (s : Sample) (io : Pwrite) : Int × TierManager :=
  if endsWindow s.level c then m.flush c io else m.feed c s io

def store (m : TierManager) (s : Sample) (io : StoreIo) : Int × TierManager :=
  if !m.ready then (-1, m)
  else match ringFor m.custom s.level with
    | none => (-2, m)
    | some target =>
        let (rcL2, m) := m.foldWindow .l2 s (io.fold .l2)
        let (rcL1, m) := m.foldWindow .l1 s (io.fold .l1)
        let rc := if rcL2 = 0 then rcL1 else rcL2
        let (direct, m) := m.append target s io.direct
        (if direct ≠ 0 then direct else rc, m)

/-! ## Opening and closing -/

def close (m : TierManager) (io : Coarse → Pwrite) : TierManager :=
  if !m.ready then m
  else
    let m := (m.flush .l2 (io .l2)).2
    let m := (m.flush .l1 (io .l1)).2
    { m with custom := [], ready := false }

def recordsFromMb (mb : Int) (recordSize : Nat) : Nat :=
  if mb ≤ 0 ∨ recordSize = 0 then 1
  else
    let cap := mb.toNat * (1024 * 1024) / recordSize
    if cap = 0 then 1 else cap

theorem recordsFromMb_pos (mb : Int) (recordSize : Nat) : 0 < recordsFromMb mb recordSize := by
  simp only [recordsFromMb]
  split
  · exact Nat.one_pos
  · split
    · exact Nat.one_pos
    · rename_i nonzero
      exact Nat.pos_of_ne_zero nonzero

/-- A size in MiB: the configuration lets none above 100000 through. -/
abbrev MaxMb := { mb : Int // mb ≤ 100000 }

def maxCapacity : Nat := recordsFromMb 100000 recordSizeForSample

theorem recordsFromMb_le (maxMb : MaxMb) : recordsFromMb maxMb recordSizeForSample ≤ maxCapacity := by
  have most : maxCapacity = 100000 * (1024 * 1024) / recordSizeForSample := by decide
  obtain ⟨mb, le⟩ := maxMb
  simp only [recordsFromMb]
  split
  · exact recordsFromMb_pos _ _
  · split
    · exact recordsFromMb_pos _ _
    · rw [most]
      exact Nat.div_le_div_right (Nat.mul_le_mul_right _ (by omega))

structure LevelRingSpec extends CustomRing where
  maxMb : MaxMb

/-- The arguments of `init`, as the configuration makes them: no two levels have one name. -/
structure InitArgs where
  tier1MaxMb : MaxMb
  tier2MaxMb : MaxMb
  tier3MaxMb : MaxMb
  custom : List LevelRingSpec
  distinct : (custom.map fun spec => spec.name).Nodup

/-- A system call of `RingFile::open` that fails: what `open` returns, and `errno`. -/
structure OpenFault where
  rc : Int
  errno : Nat

/-- `RingFile::open`, on files of this version's record size. -/
def openRing (m : TierManager) (leaf : Leaf) (tier : UInt8) (maxMb : Int) (fault : Option OpenFault) :
    Except OpenFault RingFile :=
  let capacity := recordsFromMb maxMb recordSizeForSample
  match fault, m.rings leaf with
  | some fault, _ => .error fault
  | none, none => .ok (RingFile.create tier capacity (recordsFromMb_pos _ _))
  | none, some ring =>
      if ring.capacity ≠ capacity then .error ⟨-6, 0⟩
      else if ring.tier ≠ tier then .error ⟨-10, 0⟩
      else .ok ring.reopen

def initRing (m : TierManager) (clock : Nat) (leaf : Leaf) (tier : UInt8) (maxMb : Int)
    (fault : Option OpenFault) : Except TierManager TierManager :=
  match m.openRing leaf tier maxMb fault with
  | .error e => .error { m with lastError := some (.ringFailed leaf e.rc e.errno) }
  | .ok ring =>
      -- The clock is read when the ring is recovered.
      let (ring, n) := recover clock ring
      .ok { m with
        rings := Function.update m.rings leaf (some ring)
        recovered := m.recovered ++ n.toList.map fun n => (leaf, n) }

def initCustom (m : TierManager) (clock : Nat) (faults : Leaf → Option OpenFault) :
    List LevelRingSpec → Except TierManager TierManager
  | [] => .ok m
  | spec :: specs =>
      let leaf := Leaf.level spec.name
      match m.initRing clock leaf kCustomRingTier spec.maxMb (faults leaf) with
      | .error m => .error { m with custom := [] }
      | .ok m => initCustom { m with custom := m.custom ++ [spec.toCustomRing] } clock faults specs

def init (m : TierManager) (args : InitArgs) (clock : Nat) (faults : Leaf → Option OpenFault) :
    Int × TierManager :=
  let m := { m with lastError := none, recovered := [] }
  if m.ready then (-2, { m with lastError := some .alreadyInitialised })
  else match m.initRing clock .tier1 1 args.tier1MaxMb (faults .tier1) with
    | .error m => (-4, m)
    | .ok m => match m.initRing clock .tier2 2 args.tier2MaxMb (faults .tier2) with
      | .error m => (-6, m)
      | .ok m => match m.initRing clock .tier3 3 args.tier3MaxMb (faults .tier3) with
        | .error m => (-8, m)
        | .ok m => match m.initCustom clock faults args.custom with
          | .error m => (-9, m)
          | .ok m => (0, { m with ready := true })

/-! ## Runs -/

inductive Op where
  | store (s : Sample) (io : StoreIo)
  | close (io : Coarse → Pwrite)
  | init (args : InitArgs) (clock : Nat) (faults : Leaf → Option OpenFault)

def step (m : TierManager) : Op → TierManager
  | .store s io => (m.store s io).2
  | .close io => m.close io
  | .init args clock faults => (m.init args clock faults).2

def run (m : TierManager) (ops : List Op) : TierManager := ops.foldl step m

/-- A ring that is not open answers as one of no capacity. -/
def answer (ring : Option RingFile) : (call : RingCall) → call.Ans :=
  match ring with
  | some r => r.answer
  | none => fun
    | .writeIndex => 0
    | .readAt _ _ => none
    | .writeBegun => 0

def capacity (ring : Option RingFile) : Nat := ring.elim 0 RingFile.capacity

def tierLeaf (tier : Int) : Option Leaf :=
  if tier = 1 then some .tier1
  else if tier = 2 then some .tier2
  else if tier = 3 then some .tier3
  else none

def overrideLevel (level : Level) : Option Level := if level ≥ kFirstCustomLevel then some level else none

def queryLeaf (m : TierManager) (leaf : Option Leaf) (override : Option Level) (w : Window) :
    Option (List Sample) := do
  if !m.ready || w.maxRecords == 0 then none
  let ring := m.rings (← leaf)
  return (queryRing (capacity ring) override w).run (answer ring)

def query (m : TierManager) (tier : Int) (w : Window) : Option (List Sample) :=
  m.queryLeaf (tierLeaf tier) none w

def queryLevel (m : TierManager) (level : Level) (w : Window) : Option (List Sample) :=
  m.queryLeaf (ringFor m.custom level) (overrideLevel level) w

end TierManager

end Budyk.Storage
