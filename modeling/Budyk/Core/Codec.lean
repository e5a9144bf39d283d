import Budyk.Lib.Bytes
import Budyk.Core.Sample

/-! The sample payload of `core/codec.cpp`: nine cumulative layouts, of which the newest is
written and all are read. The encoder and the decoder are cut at the layout boundaries. -/

namespace Budyk
open Lib

/-! ## Fields -/

def putU8 (v : UInt8) : List UInt8 := [v]
def putU32 (v : UInt32) : List UInt8 := leBytes 4 v.toNat
def putU64 (v : UInt64) : List UInt8 := leBytes 8 v.toNat
def putF64 (v : Double) : List UInt8 := putU64 v.bits
def putPad (n : Nat) : List UInt8 := List.replicate n 0
def putBool (v : Bool) : List UInt8 := putU8 (if v then 1 else 0)

inductive DecodeError where
  | rc (code : Int)
  -- A read past the end of the buffer, undefined behaviour in the source.
  | overread
  deriving DecidableEq

abbrev Cursor := StateT (List UInt8) (Except DecodeError)

def take (n : Nat) : Cursor (List UInt8) := fun p =>
  if p.length < n then .error .overread else .ok (p.take n, p.drop n)

def getU8 : Cursor UInt8 := do return UInt8.ofNat (leValue (← take 1))
def getU32 : Cursor UInt32 := do return UInt32.ofNat (leValue (← take 4))
def getU64 : Cursor UInt64 := do return UInt64.ofNat (leValue (← take 8))
def getF64 : Cursor Double := do return ⟨← getU64⟩
def getBool : Cursor Bool := do return (← getU8) != 0
def skip (n : Nat) : Cursor Unit := do let _ ← take n

/-! ## Layout -/

def kMagic : List UInt8 := [0x42, 0x44, 0x59, 0x4B, 0x53, 0x4D, 0x50, 0x4C]

abbrev kVersionWrite : UInt32 := 9

abbrev kEncodedSizeV1 : Nat :=
  8 + 4 + 4 + (8 + 1 + 7) + (8 + 4 + 4) + (8 + 8 + 8) + (8 + 8 + 8) + (8 + 8 + 8) + 8
abbrev kEncodedSizeV2 : Nat := kEncodedSizeV1 + (8 + 8 + 4 + 4) + (8 + 8 + 4 + 4)
abbrev kEncodedSizeV3 : Nat := kEncodedSizeV2 + (4 + 4)
abbrev kEncodedSizeV4 : Nat := kEncodedSizeV3 + (4 + 1 + 3)
abbrev kEncodedSizeV5 : Nat := kEncodedSizeV4 + (8 + 8 + 8 + 8)
abbrev kEncodedSizeV6 : Nat := kEncodedSizeV5 + (8 + 4 + 1 + 3)
abbrev kEncodedSizeV7 : Nat := kEncodedSizeV6 + (4 + 4 + 1 + 7)
abbrev kEncodedSizeV8 : Nat :=
  kEncodedSizeV7 + 6 * 8 + (5 * 4 + 4) + (4 + 4 + 6 * 8 + 1 + 7) + (4 * 8 + 1 + 7) +
    (4 + 1 + 3 + 2 * 8) + (2 * 8 + 1 + 1 + 6) + (4 + 4)
abbrev kEncodedSizeV9 : Nat := kEncodedSizeV8 + (4 * 8 + 1 + 7)

def kMinSize : List Nat :=
  [0, kEncodedSizeV1, kEncodedSizeV2, kEncodedSizeV3, kEncodedSizeV4, kEncodedSizeV5,
    kEncodedSizeV6, kEncodedSizeV7, kEncodedSizeV8, kEncodedSizeV9]

abbrev sampleMaxEncodedSize : Nat := kEncodedSizeV9

/-! ## Encoding -/

def encodeV1 (s : Sample) : List UInt8 :=
  putU64 s.timestampNanos ++ putU8 s.level ++ putPad 7 ++
  putF64 s.cpu.totalPercent ++ putU32 s.cpu.count ++ putPad 4 ++
  putU64 s.mem.total ++ putU64 s.mem.available ++ putF64 s.mem.availablePercent ++
  putU64 s.swap.total ++ putU64 s.swap.used ++ putF64 s.swap.usedPercent ++
  putF64 s.load.avg1m ++ putF64 s.load.avg5m ++ putF64 s.load.avg15m ++
  putF64 s.uptimeSeconds

def encodeV2 (s : Sample) : List UInt8 :=
  putU64 s.disk.readBytesPerSec ++ putU64 s.disk.writeBytesPerSec ++
  putU32 s.disk.deviceCount ++ putPad 4 ++
  putU64 s.net.rxBytesPerSec ++ putU64 s.net.txBytesPerSec ++
  putU32 s.net.interfaceCount ++ putPad 4

def encodeV3 (s : Sample) : List UInt8 := putU32 s.proc.total ++ putU32 s.proc.running

def encodeV4 (s : Sample) : List UInt8 :=
  putU32 s.entropy.availableBits ++ putBool s.entropy.present ++ putPad 3

def encodeV5 (s : Sample) : List UInt8 :=
  putU64 s.self.rssBytes ++ putU64 s.self.peakRssBytes ++
  putF64 s.self.cpuUserSeconds ++ putF64 s.self.cpuSystemSeconds

def encodeV6 (s : Sample) : List UInt8 :=
  putF64 s.thermal.maxCelsius ++ putU32 s.thermal.sensorCount ++
  putBool s.thermal.present ++ putPad 3

def encodeV7 (s : Sample) : List UInt8 :=
  putU32 s.fileWatch.eventsThisTick ++ putU32 s.fileWatch.watchedCount ++
  putBool s.fileWatch.present ++ putPad 7

def encodeV8Cpu (s : Sample) : List UInt8 :=
  putF64 s.cpu.userPercent ++ putF64 s.cpu.systemPercent ++ putF64 s.cpu.iowaitPercent ++
  putF64 s.cpu.irqPercent ++ putF64 s.cpu.stealPercent ++ putF64 s.cpu.idlePercent ++
  putU32 s.proc.sleeping ++ putU32 s.proc.blocked ++ putU32 s.proc.stopped ++
  putU32 s.proc.zombie ++ putU32 s.proc.threads ++ putPad 4

def encodeV8Net (s : Sample) : List UInt8 :=
  putU32 s.tcp.established ++ putU32 s.tcp.timeWait ++
  putF64 s.tcp.activeOpensPerSec ++ putF64 s.tcp.passiveOpensPerSec ++
  putF64 s.tcp.retransmitsPerSec ++ putF64 s.tcp.inSegmentsPerSec ++
  putF64 s.tcp.outSegmentsPerSec ++ putF64 s.tcp.inErrorsPerSec ++
  putBool s.tcp.present ++ putPad 7 ++
  putF64 s.udp.inDatagramsPerSec ++ putF64 s.udp.outDatagramsPerSec ++
  putF64 s.udp.noPortPerSec ++ putF64 s.udp.inErrorsPerSec ++
  putBool s.udp.present ++ putPad 7

def encodeV8Fs (s : Sample) : List UInt8 :=
  putU32 s.fs.count ++ putBool s.fs.present ++ putPad 3 ++
  putF64 s.fs.maxUsedPercent ++ putF64 s.fs.maxInodesUsedPercent ++
  putF64 s.clock.offsetMs ++ putF64 s.clock.maxErrorMs ++
  putBool s.clock.synced ++ putBool s.clock.present ++ putPad 6 ++
  putU32 s.groups ++ putPad 4

def encodeV8 (s : Sample) : List UInt8 := encodeV8Cpu s ++ (encodeV8Net s ++ encodeV8Fs s)

def encodeV9 (s : Sample) : List UInt8 :=
  putF64 s.icmp.inMsgsPerSec ++ putF64 s.icmp.outMsgsPerSec ++
  putF64 s.icmp.inErrorsPerSec ++ putF64 s.icmp.inDestUnreachsPerSec ++
  putBool s.icmp.present ++ putPad 7

/-- The encoder, given a buffer of at least `sampleMaxEncodedSize` bytes. -/
def sampleEncode (s : Sample) : List UInt8 :=
  kMagic ++ (putU32 kVersionWrite ++ (putU32 0 ++ (encodeV1 s ++ (encodeV2 s ++ (encodeV3 s ++
    (encodeV4 s ++ (encodeV5 s ++ (encodeV6 s ++ (encodeV7 s ++ (encodeV8 s ++ encodeV9 s))))))))))

/-! ## Decoding -/

def decodeV1 (out : Sample) : Cursor Sample := do
  let timestampNanos ← getU64
  let lv ← getU8
  if lv < 1 || lv > kMaxLevelId then throw (.rc (-5))
  skip 7
  let totalPercent ← getF64
  let count ← getU32
  skip 4
  let mem : MemStats Double := ⟨← getU64, ← getU64, ← getF64⟩
  let swap : SwapStats Double := ⟨← getU64, ← getU64, ← getF64⟩
  let load : LoadStats Double := ⟨← getF64, ← getF64, ← getF64⟩
  let uptimeSeconds ← getF64
  return { out with
    timestampNanos, level := lv, cpu := { out.cpu with totalPercent, count }, mem, swap, load,
    uptimeSeconds }

def decodeV2 (out : Sample) : Cursor Sample := do
  let disk : DiskStats := ⟨← getU64, ← getU64, ← getU32⟩
  skip 4
  let net : NetStats := ⟨← getU64, ← getU64, ← getU32⟩
  skip 4
  return { out with disk, net }

def decodeV3 (out : Sample) : Cursor Sample := do
  let total ← getU32
  let running ← getU32
  return { out with proc := { out.proc with total, running } }

def decodeV4 (out : Sample) : Cursor Sample := do
  let entropy : EntropyStats := ⟨← getU32, ← getBool⟩
  skip 3
  return { out with entropy }

def decodeV5 (out : Sample) : Cursor Sample := do
  let self : SelfStats Double := ⟨← getU64, ← getU64, ← getF64, ← getF64⟩
  return { out with self }

def decodeV6 (out : Sample) : Cursor Sample := do
  let thermal : ThermalStats Double := ⟨← getF64, ← getU32, ← getBool⟩
  skip 3
  return { out with thermal }

def decodeV7 (out : Sample) : Cursor Sample := do
  let fileWatch : FileWatchSample := ⟨← getU32, ← getU32, ← getBool⟩
  skip 7
  return { out with fileWatch }

/-- What the source resets before the version 8 fields, so that an older record leaves none of
the previous contents of `*out`. -/
def clearV8 (out : Sample) : Sample :=
  { out with
    tcp := 0, udp := 0, fs := 0, clock := 0, icmp := 0
    proc := { out.proc with sleeping := 0, blocked := 0, stopped := 0, zombie := 0, threads := 0 }
    cpu := { out.cpu with
      userPercent := 0, systemPercent := 0, iowaitPercent := 0, irqPercent := 0,
      stealPercent := 0, idlePercent := 0 } }

def groupsBeforeV8 (version : UInt32) : UInt32 :=
  let g := kGroupCpu ||| kGroupMem ||| kGroupSwap ||| kGroupLoad ||| kGroupUptime
  let g := if version ≥ 2 then g ||| (kGroupDisk ||| kGroupNet) else g
  let g := if version ≥ 3 then g ||| kGroupProc else g
  let g := if version ≥ 4 then g ||| kGroupEntropy else g
  let g := if version ≥ 5 then g ||| kGroupSelf else g
  let g := if version ≥ 6 then g ||| kGroupThermal else g
  if version ≥ 7 then g ||| kGroupFileWatch else g

def decodeV8Cpu (out : Sample) : Cursor Sample := do
  let userPercent ← getF64
  let systemPercent ← getF64
  let iowaitPercent ← getF64
  let irqPercent ← getF64
  let stealPercent ← getF64
  let idlePercent ← getF64
  let sleeping ← getU32
  let blocked ← getU32
  let stopped ← getU32
  let zombie ← getU32
  let threads ← getU32
  skip 4
  return { out with
    cpu := { out.cpu with
      userPercent, systemPercent, iowaitPercent, irqPercent, stealPercent, idlePercent }
    proc := { out.proc with sleeping, blocked, stopped, zombie, threads } }

def decodeV8Net (out : Sample) : Cursor Sample := do
  let tcp : TcpStats Double :=
    ⟨← getU32, ← getU32, ← getF64, ← getF64, ← getF64, ← getF64, ← getF64, ← getF64, ← getBool⟩
  skip 7
  let udp : UdpStats Double := ⟨← getF64, ← getF64, ← getF64, ← getF64, ← getBool⟩
  skip 7
  return { out with tcp, udp }

def decodeV8Fs (out : Sample) : Cursor Sample := do
  let count ← getU32
  let present ← getBool
  skip 3
  let fs : FsStats Double := ⟨count, ← getF64, ← getF64, present⟩
  let clock : ClockStats Double := ⟨← getF64, ← getF64, ← getBool, ← getBool⟩
  skip 6
  let groups ← getU32
  skip 4
  return { out with fs, clock, groups }

def decodeV8 (out : Sample) : Cursor Sample := do
  let out ← decodeV8Cpu out
  let out ← decodeV8Net out
  decodeV8Fs out

def decodeV9 (out : Sample) : Cursor Sample := do
  let icmp : IcmpStats Double := ⟨← getF64, ← getF64, ← getF64, ← getF64, ← getBool⟩
  skip 7
  return { out with icmp }

def sinceVersion (first : UInt32) (decode : Sample → Cursor Sample) (reset : Sample → Sample)
    (version : UInt32) (out : Sample) : Cursor Sample :=
  if version ≥ first then decode out else pure (reset out)

def decodeBody (version : UInt32) (out : Sample) : Cursor Sample := do
  let _ ← getU32
  let out ← decodeV1 out
  let out ← sinceVersion 2 decodeV2 (fun out => { out with disk := 0, net := 0 }) version out
  let out ← sinceVersion 3 decodeV3 (fun out => { out with proc := 0 }) version out
  let out ← sinceVersion 4 decodeV4 (fun out => { out with entropy := 0 }) version out
  let out ← sinceVersion 5 decodeV5 (fun out => { out with self := 0 }) version out
  let out ← sinceVersion 6 decodeV6 (fun out => { out with thermal := 0 }) version out
  let out ← sinceVersion 7 decodeV7 (fun out => { out with fileWatch := 0 }) version out
  let out := clearV8 out
  if version < 8 then return { out with groups := groupsBeforeV8 version }
  let out ← decodeV8 out
  if version < 9 then return out
  decodeV9 out

def decodeVersioned (len : Nat) (out : Sample) : Cursor Sample := do
  skip 8
  let version ← getU32
  if version < 1 || version > 9 then throw (.rc (-4))
  if len < kMinSize.getD version.toNat 0 then throw (.rc (-2))
  decodeBody version out

def sampleDecode (buf : List UInt8) (out : Sample) : Except DecodeError Sample :=
  if buf.length < kEncodedSizeV1 then .error (.rc (-2))
  else if buf.take 8 ≠ kMagic then .error (.rc (-3))
  else (decodeVersioned buf.length out buf).map Prod.fst

/-! ## Round trip -/

@[simp] theorem putU32_length (v : UInt32) : (putU32 v).length = 4 := leBytes_length _ _
@[simp] theorem putU64_length (v : UInt64) : (putU64 v).length = 8 := leBytes_length _ _
@[simp] theorem putF64_length (v : Double) : (putF64 v).length = 8 := putU64_length _
@[simp] theorem putU8_length (v : UInt8) : (putU8 v).length = 1 := rfl
@[simp] theorem putBool_length (v : Bool) : (putBool v).length = 1 := rfl
@[simp] theorem putPad_length (n : Nat) : (putPad n).length = n := List.length_replicate

theorem leValue_putU32 (v : UInt32) : leValue (putU32 v) = v.toNat := by
  rw [putU32, leValue_leBytes]
  exact Nat.mod_eq_of_lt v.toNat_lt

theorem leValue_putU64 (v : UInt64) : leValue (putU64 v) = v.toNat := by
  rw [putU64, leValue_leBytes]
  exact Nat.mod_eq_of_lt v.toNat_lt

theorem Cursor.bind_apply {α β : Type} (p : Cursor α) (f : α → Cursor β) (bytes : List UInt8) :
    (p >>= f) bytes = match p bytes with
      | .error e => .error e
      | .ok (a, rest) => f a rest := by
  simp only [bind, StateT.bind, Except.bind]
  cases p bytes <;> rfl

theorem Cursor.pure_apply {α : Type} (a : α) (bytes : List UInt8) :
    (pure a : Cursor α) bytes = .ok (a, bytes) := rfl

theorem take_append {n : Nat} {bytes : List UInt8} (size : bytes.length = n) (rest : List UInt8) :
    take n (bytes ++ rest) = .ok (bytes, rest) := by
  subst size
  simp [take]

theorem getU8_put (v : UInt8) (rest : List UInt8) :
    getU8 (putU8 v ++ rest) = .ok (v, rest) := by
  have value : leValue (putU8 v) = v.toNat := by simp [putU8, leValue]
  simp [getU8, Cursor.bind_apply, Cursor.pure_apply, take_append (putU8_length v), value]

theorem getU32_put (v : UInt32) (rest : List UInt8) :
    getU32 (putU32 v ++ rest) = .ok (v, rest) := by
  simp [getU32, Cursor.bind_apply, Cursor.pure_apply, take_append (putU32_length v), leValue_putU32]

theorem getU64_put (v : UInt64) (rest : List UInt8) :
    getU64 (putU64 v ++ rest) = .ok (v, rest) := by
  simp [getU64, Cursor.bind_apply, Cursor.pure_apply, take_append (putU64_length v), leValue_putU64]

theorem getF64_put (v : Double) (rest : List UInt8) :
    getF64 (putF64 v ++ rest) = .ok (v, rest) := by
  simp [getF64, putF64, Cursor.bind_apply, Cursor.pure_apply, getU64_put]

theorem getBool_put (v : Bool) (rest : List UInt8) :
    getBool (putBool v ++ rest) = .ok (v, rest) := by
  cases v <;> simp [getBool, putBool, Cursor.bind_apply, Cursor.pure_apply, getU8_put]

theorem skip_append {n : Nat} {bytes : List UInt8} (size : bytes.length = n) (rest : List UInt8) :
    skip n (bytes ++ rest) = .ok ((), rest) := by
  simp [skip, Cursor.bind_apply, Cursor.pure_apply, take_append size]

theorem skip_pad (n : Nat) (rest : List UInt8) : skip n (putPad n ++ rest) = .ok ((), rest) :=
  skip_append (putPad_length n) rest

def ValidLevel (level : Level) : Prop := 1 ≤ level ∧ level ≤ kMaxLevelId

instance (level : Level) : Decidable (ValidLevel level) := inferInstanceAs (Decidable (_ ∧ _))

theorem validLevel_check {level : Level} (valid : ValidLevel level) :
    (decide (level < 1) || decide (level > kMaxLevelId)) = false := by
  obtain ⟨low, high⟩ := valid
  simp only [Bool.or_eq_false_iff, decide_eq_false_iff_not, UInt8.not_lt, gt_iff_lt]
  exact ⟨low, high⟩

theorem decodeV1_encodeV1 (s out : Sample) (valid : ValidLevel s.level) (rest : List UInt8) :
    decodeV1 out (encodeV1 s ++ rest) = .ok ({ out with
      timestampNanos := s.timestampNanos, level := s.level
      cpu := { out.cpu with totalPercent := s.cpu.totalPercent, count := s.cpu.count }
      mem := s.mem, swap := s.swap, load := s.load, uptimeSeconds := s.uptimeSeconds }, rest) := by
  simp only [decodeV1, encodeV1, List.append_assoc, Cursor.bind_apply, Cursor.pure_apply, getU64_put,
    getU8_put, validLevel_check valid, getU32_put, getF64_put, skip_pad, Bool.false_eq_true, ite_false]

theorem decodeV2_encodeV2 (s out : Sample) (rest : List UInt8) :
    decodeV2 out (encodeV2 s ++ rest) = .ok ({ out with disk := s.disk, net := s.net }, rest) := by
  simp only [decodeV2, encodeV2, List.append_assoc, Cursor.bind_apply, Cursor.pure_apply, getU64_put,
    getU32_put, skip_pad]

theorem decodeV3_encodeV3 (s out : Sample) (rest : List UInt8) :
    decodeV3 out (encodeV3 s ++ rest) = .ok ({ out with
      proc := { out.proc with total := s.proc.total, running := s.proc.running } }, rest) := by
  simp only [decodeV3, encodeV3, List.append_assoc, Cursor.bind_apply, Cursor.pure_apply, getU32_put]

theorem decodeV4_encodeV4 (s out : Sample) (rest : List UInt8) :
    decodeV4 out (encodeV4 s ++ rest) = .ok ({ out with entropy := s.entropy }, rest) := by
  simp only [decodeV4, encodeV4, List.append_assoc, Cursor.bind_apply, Cursor.pure_apply, getU32_put,
    getBool_put, skip_pad]

theorem decodeV5_encodeV5 (s out : Sample) (rest : List UInt8) :
    decodeV5 out (encodeV5 s ++ rest) = .ok ({ out with self := s.self }, rest) := by
  simp only [decodeV5, encodeV5, List.append_assoc, Cursor.bind_apply, Cursor.pure_apply, getU64_put,
    getF64_put]

theorem decodeV6_encodeV6 (s out : Sample) (rest : List UInt8) :
    decodeV6 out (encodeV6 s ++ rest) = .ok ({ out with thermal := s.thermal }, rest) := by
  simp only [decodeV6, encodeV6, List.append_assoc, Cursor.bind_apply, Cursor.pure_apply, getU32_put,
    getF64_put, getBool_put, skip_pad]

theorem decodeV7_encodeV7 (s out : Sample) (rest : List UInt8) :
    decodeV7 out (encodeV7 s ++ rest) = .ok ({ out with fileWatch := s.fileWatch }, rest) := by
  simp only [decodeV7, encodeV7, List.append_assoc, Cursor.bind_apply, Cursor.pure_apply, getU32_put,
    getBool_put, skip_pad]

theorem decodeV8Cpu_encodeV8Cpu (s out : Sample) (rest : List UInt8) :
    decodeV8Cpu out (encodeV8Cpu s ++ rest) = .ok ({ out with
      cpu := { s.cpu with totalPercent := out.cpu.totalPercent, count := out.cpu.count }
      proc := { s.proc with total := out.proc.total, running := out.proc.running } }, rest) := by
  simp only [decodeV8Cpu, encodeV8Cpu, List.append_assoc, Cursor.bind_apply, Cursor.pure_apply,
    getU32_put, getF64_put, skip_pad]

theorem decodeV8Net_encodeV8Net (s out : Sample) (rest : List UInt8) :
    decodeV8Net out (encodeV8Net s ++ rest) = .ok ({ out with tcp := s.tcp, udp := s.udp }, rest) := by
  simp only [decodeV8Net, encodeV8Net, List.append_assoc, Cursor.bind_apply, Cursor.pure_apply,
    getU32_put, getF64_put, getBool_put, skip_pad]

theorem decodeV8Fs_encodeV8Fs (s out : Sample) (rest : List UInt8) :
    decodeV8Fs out (encodeV8Fs s ++ rest) =
      .ok ({ out with fs := s.fs, clock := s.clock, groups := s.groups }, rest) := by
  simp only [decodeV8Fs, encodeV8Fs, List.append_assoc, Cursor.bind_apply, Cursor.pure_apply,
    getU32_put, getF64_put, getBool_put, skip_pad]

theorem decodeV8_encodeV8 (s out : Sample) (rest : List UInt8) :
    decodeV8 out (encodeV8 s ++ rest) = .ok ({ out with
      cpu := { s.cpu with totalPercent := out.cpu.totalPercent, count := out.cpu.count }
      proc := { s.proc with total := out.proc.total, running := out.proc.running }
      tcp := s.tcp, udp := s.udp, fs := s.fs, clock := s.clock, groups := s.groups }, rest) := by
  simp only [decodeV8, encodeV8, List.append_assoc, Cursor.bind_apply, decodeV8Cpu_encodeV8Cpu,
    decodeV8Net_encodeV8Net, decodeV8Fs_encodeV8Fs]

theorem decodeV9_encodeV9 (s out : Sample) (rest : List UInt8) :
    decodeV9 out (encodeV9 s ++ rest) = .ok ({ out with icmp := s.icmp }, rest) := by
  simp only [decodeV9, encodeV9, List.append_assoc, Cursor.bind_apply, Cursor.pure_apply, getF64_put,
    getBool_put, skip_pad]

theorem encodeV1_length (s : Sample) : (encodeV1 s).length = 112 := by simp [encodeV1]
theorem encodeV2_length (s : Sample) : (encodeV2 s).length = 48 := by simp [encodeV2]
theorem encodeV3_length (s : Sample) : (encodeV3 s).length = 8 := by simp [encodeV3]
theorem encodeV4_length (s : Sample) : (encodeV4 s).length = 8 := by simp [encodeV4]
theorem encodeV5_length (s : Sample) : (encodeV5 s).length = 32 := by simp [encodeV5]
theorem encodeV6_length (s : Sample) : (encodeV6 s).length = 16 := by simp [encodeV6]
theorem encodeV7_length (s : Sample) : (encodeV7 s).length = 16 := by simp [encodeV7]

theorem encodeV8_length (s : Sample) : (encodeV8 s).length = 232 := by
  have cpu : (encodeV8Cpu s).length = 72 := by simp [encodeV8Cpu]
  have net : (encodeV8Net s).length = 104 := by simp [encodeV8Net]
  have fs : (encodeV8Fs s).length = 56 := by simp [encodeV8Fs]
  simp only [encodeV8, List.length_append, cpu, net, fs]

theorem encodeV9_length (s : Sample) : (encodeV9 s).length = 40 := by simp [encodeV9]

theorem sampleEncode_length (s : Sample) : (sampleEncode s).length = sampleMaxEncodedSize := by
  have magic : kMagic.length = 8 := rfl
  simp only [sampleEncode, List.length_append, magic, putU32_length, encodeV1_length, encodeV2_length,
    encodeV3_length, encodeV4_length, encodeV5_length, encodeV6_length, encodeV7_length,
    encodeV8_length, encodeV9_length, Nat.reduceAdd]

theorem decodeBody_encode (s out : Sample) (valid : ValidLevel s.level) :
    decodeBody 9 out (putU32 0 ++ (encodeV1 s ++ (encodeV2 s ++ (encodeV3 s ++ (encodeV4 s ++
      (encodeV5 s ++ (encodeV6 s ++ (encodeV7 s ++ (encodeV8 s ++ encodeV9 s))))))))) =
      .ok ({ s with baseline := out.baseline, folded := out.folded }, []) := by
  have last (out : Sample) : decodeV9 out (encodeV9 s) = .ok ({ out with icmp := s.icmp }, []) := by
    simpa using decodeV9_encodeV9 s out []
  simp only [decodeBody, Cursor.bind_apply, sinceVersion, getU32_put, decodeV1_encodeV1 s _ valid,
    decodeV2_encodeV2, decodeV3_encodeV3, decodeV4_encodeV4, decodeV5_encodeV5, decodeV6_encodeV6,
    decodeV7_encodeV7, decodeV8_encodeV8, last, clearV8, ge_iff_le, UInt32.reduceLE,
    UInt32.reduceLT, ite_true, ite_false]

theorem sampleDecode_sampleEncode (s out : Sample) (valid : ValidLevel s.level) :
    sampleDecode (sampleEncode s) out =
      .ok { s with baseline := out.baseline, folded := out.folded } := by
  have long : ¬sampleMaxEncodedSize < kEncodedSizeV1 := by decide
  have magic : (sampleEncode s).take 8 = kMagic := rfl
  have skipped (rest : List UInt8) : skip 8 (kMagic ++ rest) = .ok ((), rest) := skip_append rfl rest
  have run : decodeVersioned sampleMaxEncodedSize out (sampleEncode s) =
      .ok ({ s with baseline := out.baseline, folded := out.folded }, []) := by
    have version : (decide ((9 : UInt32) < 1) || decide ((9 : UInt32) > 9)) = false := by decide
    have size9 : ¬sampleMaxEncodedSize < kMinSize.getD (UInt32.toNat 9) 0 := by decide
    simp only [sampleEncode, decodeVersioned, Cursor.bind_apply, skipped, getU32_put, kVersionWrite,
      version, size9, Bool.false_eq_true, if_false, decodeBody_encode s out valid]
  rw [sampleDecode, sampleEncode_length, if_neg long, if_neg (not_not.mpr magic), run]
  rfl

end Budyk
