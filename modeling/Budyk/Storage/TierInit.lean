import Mathlib.Algebra.Order.Group.Multiset
import Budyk.Storage.Convert
import Budyk.Storage.TierManager

/-! `TierManager::init` with its `RingFile` objects, the files of the data directory and the descriptors held open apart
from each other, as far as `init` and `close` change them. -/

namespace Budyk.Storage

/-! ## Files -/

def kHeaderSize : Nat := 64

structure Header where
  tier : UInt8
  recordSize : Nat
  capacity : Nat
  writeIdx : Nat

/-- A file, as `read_header` and `open` find it. The slots are cut by the header's record size, those of a blank header by
this version's. -/
inductive DiskFile
  | empty
  | blank (size : Nat) (slots : Nat → Record)
  | badMagic (size : Nat)
  | badVersion (size : Nat)
  | ring (size : Nat) (header : Header) (slots : Nat → Record)

namespace DiskFile

def size : DiskFile → Nat
  | .empty => 0
  | .blank size _ | .badMagic size | .badVersion size | .ring size _ _ => size

def fileBytes (recordSize capacity : Nat) : Nat := kHeaderSize + recordSize * capacity

def ofRing (r : RingFile) : DiskFile :=
  .ring (fileBytes recordSizeForSample r.capacity) ⟨r.tier, recordSizeForSample, r.capacity, r.writeIdx⟩ r.slots

end DiskFile

/-- A ring file whose header can be read, with its record size. -/
structure OldRing where
  recordSize : Nat
  file : RingFile

/-- `RingFile::read_header`; none for a code other than 0. -/
def readHeader (io : Option Errno) (file : Option DiskFile) : Option OldRing :=
  match io, file with
  | none, some (.ring size h slots) =>
      if sized : h.recordSize ≠ 0 ∧ 0 < h.capacity ∧ size = DiskFile.fileBytes h.recordSize h.capacity then
        some ⟨h.recordSize, h.tier, h.capacity, sized.2.1, slots, h.writeIdx, h.writeIdx, h.writeIdx, 0⟩
      else none
  | _, _ => none

/-! ## Opening one -/

/-- How the system calls of one `open` end. -/
structure OpenIo where
  opened : Option Errno
  fstat : Option Errno
  ftruncate : Option Errno
  -- The header's: why it failed, and the file left where that is not undone.
  pwrite : Option (Errno × Option DiskFile)
  mmap : Option Errno

/-- An object of class `RingFile`: the path and the ring it has open, and what closing leaves. -/
structure RingObject where
  opened : Option (String × RingFile)
  lastErrno : Nat
  reads : Nat

namespace RingObject

def new : RingObject := ⟨none, 0, 0⟩

def close (o : RingObject) : RingObject := { o with opened := none }

abbrev Opening := Except TierManager.OpenFault RingFile × Option DiskFile

def mapHeader (io : OpenIo) (file : DiskFile) (ring : Except Int RingFile) : Opening :=
  match io.mmap with
  | some errno => (.error ⟨-7, errno⟩, file)
  | none => (ring.mapError fun rc => ⟨rc, 0⟩, file)

def writeHeader (io : OpenIo) (tier : UInt8) (capacity : Nat) (pos : 0 < capacity) (slots : Nat → Record) : Opening :=
  match io.pwrite with
  | some (errno, left) => (.error ⟨-14, errno⟩, left.getD .empty)
  | none =>
      let made := { RingFile.create tier capacity pos with slots := slots }
      mapHeader io (.ofRing made) (.ok made)

def checkHeader (tier : UInt8) (capacity : Nat) (pos : 0 < capacity) (h : Header) (slots : Nat → Record) :
    Except Int RingFile :=
  if h.tier ≠ tier then .error (-10)
  else if h.recordSize ≠ recordSizeForSample then .error (-11)
  else if h.capacity ≠ capacity then .error (-12)
  else .ok ⟨tier, capacity, pos, slots, h.writeIdx, h.writeIdx, h.writeIdx, 0⟩

/-- `open_impl`, for writing and with this version's record size: the code and `errno` or the ring, and the file after. -/
def openImpl (o : RingObject) (io : OpenIo) (file : Option DiskFile) (tier : UInt8) (capacity : Nat) (pos : 0 < capacity) :
    Opening :=
  if o.opened.isSome then (.error ⟨-1, 0⟩, file)
  else
    match io.opened with
    | some errno => (.error ⟨-3, errno⟩, file)
    | none =>
        -- `O_CREAT`
        let found := file.getD .empty
        match io.fstat with
        | some errno => (.error ⟨-4, errno⟩, found)
        | none =>
            match found, io.ftruncate with
            | .empty, some errno => (.error ⟨-5, errno⟩, found)
            | .empty, none => writeHeader io tier capacity pos (RingFile.create tier capacity pos).slots
            | found, _ =>
                if found.size ≠ DiskFile.fileBytes recordSizeForSample capacity then (.error ⟨-6, 0⟩, found)
                else
                  match found with
                  -- sized, but never given its header
                  | .blank _ slots => writeHeader io tier capacity pos slots
                  | .badVersion _ => mapHeader io found (.error (-9))
                  | .ring _ h slots => mapHeader io found (checkHeader tier capacity pos h slots)
                  | _ => mapHeader io found (.error (-8))

end RingObject

/-- The `read_at`s of `count_unindexed`: down to the newest indexed record that reads, and up to the first past the index
that does not count. -/
def unindexedReads (clock : Nat) (ring : RingFile) : Nat :=
  min (((List.range ring.count).takeWhile fun k => (ring.readFitting (ring.widx - 1 - k)).isNone).length + 1) ring.count +
    min (countUnindexed clock ring + 1) ring.capacity

/-! ## The manager -/

inductive StartError
  | noDataDir
  | alreadyInitialised
  | pathTooLong (leaf : Leaf)
  | newerRecords (leaf : Leaf) (recordSize : Nat)
  | conversion (leaf : Leaf) (recordSize errno : Nat)
  | ringFailed (leaf : Leaf) (rc : Int) (errno : Nat)

def StartError.text (strerror : Nat → String) : StartError → String
  | .noDataDir => "data_dir is null"
  | .alreadyInitialised => InitError.alreadyInitialised.text strerror
  | .pathTooLong leaf => leaf.text ++ ": data_dir path too long"
  | .newerRecords leaf recordSize =>
      leaf.text ++ ": " ++ toString recordSize ++ "-byte records, written by a newer budyk (this one writes " ++
        toString recordSizeForSample ++ "): move the file aside, or run the newer budyk"
  | .conversion leaf recordSize errno =>
      leaf.text ++ ": converting it from " ++ toString recordSize ++ "-byte records (an older budyk) failed: " ++
        strerror errno
  | .ringFailed leaf rc errno => (InitError.ringFailed leaf rc errno).text strerror

structure Converted where
  ring : Leaf
  fromRecordSize : Nat
  kept : Nat
  dropped : Nat

/-- What `init` works on beside the objects: the files, the paths that the process has rings open at, and its report. -/
structure Startup where
  files : String → Option DiskFile
  descriptors : Multiset String
  lastError : Option StartError
  recovered : List (Leaf × Nat)
  converted : List Converted

structure CustomObject where
  levelId : UInt8
  ring : RingObject
  leaf : Leaf

structure Manager extends Startup where
  tier1 : RingObject
  tier2 : RingObject
  tier3 : RingObject
  custom : List CustomObject
  ready : Bool

/-- How the system calls made for one ring end, and the clock it is recovered by. -/
structure RingIo where
  readHeader : Option Errno
  convert : ConvertIo
  opening : OpenIo
  clock : Nat

def joinPath (dir : String) (leaf : Leaf) : Option String :=
  let path := dir ++ "/" ++ leaf.text
  if path.utf8ByteSize < 1024 then some path else none

namespace Startup
variable (s : Startup)

/-- What `init` clears. -/
def cleared : Startup := { s with lastError := none, recovered := [], converted := [] }

def putFile (path : String) (file : Option DiskFile) : Startup :=
  { s with files := Function.update s.files path file }

def failed (error : StartError) : Startup := { s with lastError := some error }

/-- The file under the path after a conversion: the new ring once it is renamed. -/
def convertedFile (io : ConvertIo) (path : String) (old : OldRing) (tier : UInt8) (capacity : Nat) (pos : 0 < capacity) :
    Option DiskFile :=
  let r := convertAndRename io (Function.update (fun _ => none) path (some (.ring old.file))) path tier capacity pos
  match decide (r.rc = 0), r.dir path with
  | true, some (.ring new) => some (.ofRing new)
  | _, _ => s.files path

/-- `convert_if_older`. `convert_ring` closes what it opens, on every way out. -/
def convertIfOlder (io : RingIo) (path : String) (leaf : Leaf) (tier : UInt8) (capacity : Nat) (pos : 0 < capacity) :
    Except Startup Startup :=
  match readHeader io.readHeader (s.files path) with
  | none => .ok s
  | some old =>
      if old.file.tier ≠ tier ∨ old.recordSize = recordSizeForSample then .ok s
      else if old.recordSize > recordSizeForSample then .error (s.failed (.newerRecords leaf old.recordSize))
      else
        let dir := Function.update (fun _ => none) path (some (.ring old.file))
        let r := convertRing io.convert dir path tier capacity pos
        let s := s.putFile path (s.convertedFile io.convert path old tier capacity pos)
        if r.rc ≠ 0 then .error (s.failed (.conversion leaf old.recordSize (-r.rc).toNat))
        else .ok { s with converted := s.converted ++ [⟨leaf, old.recordSize, r.kept, r.dropped⟩] }

/-- `recover`, of the ring just opened at the path. -/
def recoverRing (clock : Nat) (leaf : Leaf) (path : String) (o : RingObject) (ring : RingFile) : RingObject × Startup :=
  let counted := recover clock ring
  (⟨some (path, counted.1), 0, o.reads + unindexedReads clock ring⟩,
    { s.putFile path (some (.ofRing counted.1)) with
      descriptors := path ::ₘ s.descriptors
      recovered := s.recovered ++ counted.2.toList.map fun n => (leaf, n) })

inductive Raised
  | tooLong (s : Startup)
  | failed (o : RingObject) (s : Startup)
  | up (o : RingObject) (s : Startup)

/-- What `init` does for one ring, up to the unwinding. -/
def raise (o : RingObject) (dir : String) (leaf : Leaf) (tier : UInt8) (maxMb : Int) (io : RingIo) : Raised :=
  let pos := TierManager.recordsFromMb_pos maxMb recordSizeForSample
  match joinPath dir leaf with
  | none => .tooLong (s.failed (.pathTooLong leaf))
  | some path =>
      match s.convertIfOlder io path leaf tier _ pos with
      | .error s => .failed o s
      | .ok s =>
          let (opening, file) := o.openImpl io.opening (s.files path) tier _ pos
          let s := s.putFile path file
          match opening with
          | .error e => .failed { o with lastErrno := e.errno } (s.failed (.ringFailed leaf e.rc e.errno))
          | .ok ring =>
              let recovered := s.recoverRing io.clock leaf path o ring
              .up recovered.1 recovered.2

/-- `close` of an object gives its descriptor back. -/
def release (o : RingObject) : Startup :=
  match o.opened with
  | none => s
  | some (path, _) => { s with descriptors := s.descriptors.erase path }

end Startup

structure RingSpec where
  levelId : UInt8
  name : String
  maxMb : Int

structure StartArgs where
  dataDir : Option String
  tier1MaxMb : Int
  tier2MaxMb : Int
  tier3MaxMb : Int
  custom : List RingSpec

namespace Manager
variable (m : Manager)

def new (files : String → Option DiskFile) : Manager :=
  { files, descriptors := 0, lastError := none, recovered := [], converted := [], tier1 := .new, tier2 := .new,
    tier3 := .new, custom := [], ready := false }

def closeTier1 : Manager := { m with toStartup := m.release m.tier1, tier1 := m.tier1.close }

def closeTier2 : Manager := { m with toStartup := m.release m.tier2, tier2 := m.tier2.close }

def closeTier3 : Manager := { m with toStartup := m.release m.tier3, tier3 := m.tier3.close }

def closeCustom : Manager :=
  { m with toStartup := m.custom.foldl (fun s c => s.release c.ring) m.toStartup, custom := [] }

def closeAll : Manager := m.closeCustom.closeTier3.closeTier2.closeTier1

/-- The loop over the custom levels, from the attempt numbered `k`. -/
def initCustom (dir : String) (io : Nat → RingIo) : (k : Nat) → (m : Manager) → List RingSpec → Int × Manager
  | _, m, [] => (0, { m with ready := true })
  | k, m, spec :: specs =>
      let leaf := Leaf.level spec.name
      match m.raise .new dir leaf kCustomRingTier spec.maxMb (io k) with
      | .tooLong s | .failed _ s => (-9, { m with toStartup := s }.closeAll)
      | .up ring s =>
          initCustom dir io (k + 1) { m with toStartup := s, custom := m.custom ++ [⟨spec.levelId, ring, leaf⟩] } specs

def initTier3 (args : StartArgs) (dir : String) (io : Nat → RingIo) : Int × Manager :=
  match m.raise m.tier3 dir .tier3 3 args.tier3MaxMb (io 2) with
  | .tooLong s => (-7, { m with toStartup := s }.closeTier2.closeTier1)
  | .failed ring s => (-8, { m with toStartup := s, tier3 := ring }.closeTier2.closeTier1)
  | .up ring s => initCustom dir io 3 { m with toStartup := s, tier3 := ring } args.custom

def initTier2 (args : StartArgs) (dir : String) (io : Nat → RingIo) : Int × Manager :=
  match m.raise m.tier2 dir .tier2 2 args.tier2MaxMb (io 1) with
  | .tooLong s => (-5, { m with toStartup := s }.closeTier1)
  | .failed ring s => (-6, { m with toStartup := s, tier2 := ring }.closeTier1)
  | .up ring s => { m with toStartup := s, tier2 := ring }.initTier3 args dir io

def initTier1 (args : StartArgs) (dir : String) (io : Nat → RingIo) : Int × Manager :=
  match m.raise m.tier1 dir .tier1 1 args.tier1MaxMb (io 0) with
  | .tooLong s => (-3, { m with toStartup := s })
  | .failed ring s => (-4, { m with toStartup := s, tier1 := ring })
  | .up ring s => { m with toStartup := s, tier1 := ring }.initTier2 args dir io

/-- `io` is for the rings in the order they are tried. -/
def init (args : StartArgs) (io : Nat → RingIo) : Int × Manager :=
  let m := { m with toStartup := m.cleared }
  match args.dataDir with
  | none => (-1, { m with lastError := some .noDataDir })
  | some dir =>
      if m.ready then (-2, { m with lastError := some .alreadyInitialised })
      else m.initTier1 args dir io

/-- The rings have been written by then: a change of their files. -/
def close : Manager := if !m.ready then m else { m.closeAll with ready := false }

/-! ## Runs -/

/-- Between the calls the files change, and while the manager is ready the rings are written and read. -/
inductive Call
  | init (args : StartArgs) (io : Nat → RingIo)
  | close
  | change (files : String → Option DiskFile)
  | use (change : Leaf → RingFile → RingFile) (reads : Leaf → Nat)

def useRing (change : Leaf → RingFile → RingFile) (reads : Leaf → Nat) (leaf : Leaf) (o : RingObject) : RingObject :=
  { o with opened := o.opened.map fun held => (held.1, change leaf held.2), reads := o.reads + reads leaf }

def step (m : Manager) : Call → Manager
  | .init args io => (m.init args io).2
  | .close => m.close
  | .change files => { m with files }
  | .use change reads =>
      if m.ready then
        { m with
          tier1 := useRing change reads .tier1 m.tier1
          tier2 := useRing change reads .tier2 m.tier2
          tier3 := useRing change reads .tier3 m.tier3
          custom := m.custom.map fun c => { c with ring := useRing change reads c.leaf c.ring } }
      else m

def run (files : String → Option DiskFile) (calls : List Call) : Manager := calls.foldl step (new files)

end Manager

end Budyk.Storage
