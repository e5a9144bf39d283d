import Budyk.Storage.RingCheck

/-! `convert_ring` of `storage/ring_check.cpp`: a ring of an older record size rewritten with this
version's records under another name, and renamed over the old one. A value of `RingFile` is the file
of either: the slots of an older ring hold its shorter records. -/

namespace Budyk.Storage

abbrev Errno := { errno : Nat // 0 < errno }

def EINVAL : Nat := 22
def ENOENT : Nat := 2

/-- What stands under a name: a ring with a readable header, or something else. -/
inductive DirEntry where
  | ring (file : RingFile)
  | other

abbrev Directory := String → Option DirEntry

structure ConvertIo where
  -- `now_realtime_ns()`
  clock : Nat
  readHeader : Option Errno
  openOld : Option (Option Errno)
  -- `RingFile::open` of the new ring may fail after it has made the file.
  openNew : Option (Option Errno × Option DirEntry)
  pwrite : Nat → Pwrite
  sync : Option Errno
  rename : Option Errno
  syncDir : Option Errno

structure Conversion where
  rc : Int
  out : RingFile
  kept : Nat
  dropped : Nat

def convertLoop (pwrite : Nat → Pwrite) (old : RingFile) : (left logical : Nat) → Conversion → Conversion
  | 0, _, c => c
  | left + 1, logical, c =>
      match (old.readAt (logical % old.capacity)).bind decodeRecord with
      | none => convertLoop pwrite old left (logical + 1) { c with dropped := c.dropped + 1 }
      | some s =>
          -- `uint8_t enc[1024]`
          if 1024 < recordSizeForSample then { c with rc := - EIO }
          else
            let (rc, out) := c.out.append (recordEncode s) (pwrite c.kept)
            if rc ≠ 0 then
              { c with out, rc := if out.lastErrno ≠ 0 then -out.lastErrno else - EIO }
            else convertLoop pwrite old left (logical + 1) { c with out, kept := c.kept + 1 }

/-- The indices of the old ring that are copied: the first, and how many there are before those
that the new capacity leaves out are skipped. -/
def convertRange (old : RingFile) (unidx : Nat) : Nat × Nat :=
  let widx := old.writeIndex
  let count := if widx < old.capacity then widx else old.capacity
  let first := widx - count
  let (first, count) := if count + unidx > old.capacity
    then (first + (count + unidx - old.capacity), old.capacity - unidx)
    else (first, count)
  (first, count + unidx)

structure ConvertResult where
  rc : Int
  kept : Nat
  dropped : Nat
  dir : Directory

def convertName (path : String) : String := path ++ ".convert"

def errnoOf (fault : Option Errno) : Int := fault.elim 0 fun errno => -errno.val

def convertRecords (io : ConvertIo) (old : RingFile) (tier : UInt8) (capacity : Nat) (pos : 0 < capacity) :
    Conversion :=
  let unidx := countUnindexed io.clock old
  let (first, total) := convertRange old unidx
  let skip := if total > capacity then total - capacity else 0
  let c := convertLoop io.pwrite old (old.writeIndex + unidx - (first + skip)) (first + skip)
    ⟨0, RingFile.create tier capacity pos, 0, 0⟩
  { c with dropped := c.dropped + skip }

def renameConverted (io : ConvertIo) (dir : Directory) (path : String) (c : Conversion) : ConvertResult :=
  let tmp := convertName path
  let dir := Function.update dir tmp (some (.ring c.out))
  let rc := if c.rc = 0 then errnoOf io.sync else c.rc
  let rc := if rc = 0 then errnoOf io.rename else rc
  if rc = 0 then ⟨0, c.kept, c.dropped, Function.update (Function.update dir path (dir tmp)) tmp none⟩
  else ⟨rc, c.kept, c.dropped, Function.update dir tmp none⟩

def convertAndRename (io : ConvertIo) (dir : Directory) (path : String) (tier : UInt8) (capacity : Nat)
    (pos : 0 < capacity) : ConvertResult :=
  let fails (rc : Int) : ConvertResult := ⟨rc, 0, 0, dir⟩
  match io.readHeader, dir path with
  | some errno, _ => fails (-errno.val)
  | none, none => fails (-ENOENT)
  | none, some .other => fails (-EINVAL)
  | none, some (.ring file) =>
      match io.openOld with
      | some errno => fails (errno.elim (-EINVAL) fun errno => -errno.val)
      | none =>
          let tmp := convertName path
          let dir := Function.update dir tmp none
          match io.openNew with
          | some (errno, left) =>
              ⟨errno.elim (- EIO) fun errno => -errno.val, 0, 0, Function.update dir tmp left⟩
          | none => renameConverted io dir path (convertRecords io file.reopen tier capacity pos)

def convertRing (io : ConvertIo) (dir : Directory) (path : String) (tier : UInt8) (capacity : Nat)
    (pos : 0 < capacity) : ConvertResult :=
  let r := convertAndRename io dir path tier capacity pos
  -- Renamed: the old ring is gone either way.
  if r.rc = 0 then { r with rc := errnoOf io.syncDir } else r

end Budyk.Storage
