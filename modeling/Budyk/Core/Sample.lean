import Mathlib.Algebra.Group.Nat.Defs

/-! The sample of `core/sample.h`. A structure of the source is generic in its type of
doubles: the codec stores their bits, the aggregator computes with them. The zero of each
structure is the value-initialised one of the source (`CpuStats{}`). -/

namespace Budyk

/-- A `double` of the source, by its 64-bit pattern. -/
structure Double where
  bits : UInt64
  deriving DecidableEq, Repr

instance : Zero Double := ⟨⟨0⟩⟩

/-- `enum class Level : uint8_t`. Custom levels are cast in from their ids, so every byte is one. -/
abbrev Level := UInt8

abbrev Level.L1 : Level := 1
abbrev Level.L2 : Level := 2
abbrev Level.L3 : Level := 3

abbrev kFirstCustomLevel : UInt8 := 4
abbrev kMaxCustomLevels : UInt8 := 16
abbrev kMaxLevelId : UInt8 := kFirstCustomLevel + kMaxCustomLevels - 1

structure CpuStats (F : Type) where
  totalPercent : F
  count : UInt32
  userPercent : F
  systemPercent : F
  iowaitPercent : F
  irqPercent : F
  stealPercent : F
  idlePercent : F
  deriving DecidableEq

structure MemStats (F : Type) where
  total : UInt64
  available : UInt64
  availablePercent : F
  deriving DecidableEq

structure SwapStats (F : Type) where
  total : UInt64
  used : UInt64
  usedPercent : F
  deriving DecidableEq

structure LoadStats (F : Type) where
  avg1m : F
  avg5m : F
  avg15m : F
  deriving DecidableEq

structure DiskStats where
  readBytesPerSec : UInt64
  writeBytesPerSec : UInt64
  deviceCount : UInt32
  deriving DecidableEq

structure NetStats where
  rxBytesPerSec : UInt64
  txBytesPerSec : UInt64
  interfaceCount : UInt32
  deriving DecidableEq

structure ProcessStats where
  total : UInt32
  running : UInt32
  sleeping : UInt32
  blocked : UInt32
  stopped : UInt32
  zombie : UInt32
  threads : UInt32
  deriving DecidableEq

structure TcpStats (F : Type) where
  established : UInt32
  timeWait : UInt32
  activeOpensPerSec : F
  passiveOpensPerSec : F
  retransmitsPerSec : F
  inSegmentsPerSec : F
  outSegmentsPerSec : F
  inErrorsPerSec : F
  present : Bool
  deriving DecidableEq

structure UdpStats (F : Type) where
  inDatagramsPerSec : F
  outDatagramsPerSec : F
  noPortPerSec : F
  inErrorsPerSec : F
  present : Bool
  deriving DecidableEq

structure IcmpStats (F : Type) where
  inMsgsPerSec : F
  outMsgsPerSec : F
  inErrorsPerSec : F
  inDestUnreachsPerSec : F
  present : Bool
  deriving DecidableEq

structure FsStats (F : Type) where
  count : UInt32
  maxUsedPercent : F
  maxInodesUsedPercent : F
  present : Bool
  deriving DecidableEq

structure ClockStats (F : Type) where
  offsetMs : F
  maxErrorMs : F
  synced : Bool
  present : Bool
  deriving DecidableEq

structure EntropyStats where
  availableBits : UInt32
  present : Bool
  deriving DecidableEq

structure SelfStats (F : Type) where
  rssBytes : UInt64
  peakRssBytes : UInt64
  cpuUserSeconds : F
  cpuSystemSeconds : F
  deriving DecidableEq

structure ThermalStats (F : Type) where
  maxCelsius : F
  sensorCount : UInt32
  present : Bool
  deriving DecidableEq

structure FileWatchSample where
  eventsThisTick : UInt32
  watchedCount : UInt32
  present : Bool
  deriving DecidableEq

structure SampleOf (F : Type) where
  timestampNanos : UInt64
  level : Level
  cpu : CpuStats F
  mem : MemStats F
  swap : SwapStats F
  load : LoadStats F
  disk : DiskStats
  net : NetStats
  proc : ProcessStats
  entropy : EntropyStats
  self : SelfStats F
  thermal : ThermalStats F
  fileWatch : FileWatchSample
  tcp : TcpStats F
  udp : UdpStats F
  icmp : IcmpStats F
  fs : FsStats F
  clock : ClockStats F
  groups : UInt32
  baseline : UInt32
  uptimeSeconds : F
  folded : Bool
  deriving DecidableEq

abbrev Sample := SampleOf Double

def SampleOf.ts {F : Type} (s : SampleOf F) : Nat := s.timestampNanos.toNat

theorem SampleOf.ts_lt {F : Type} (s : SampleOf F) : s.ts < 2 ^ 64 := s.timestampNanos.toNat_lt

section Zeros
variable {F : Type} [Zero F]

instance : Zero (CpuStats F) := ⟨⟨0, 0, 0, 0, 0, 0, 0, 0⟩⟩
instance : Zero (MemStats F) := ⟨⟨0, 0, 0⟩⟩
instance : Zero (SwapStats F) := ⟨⟨0, 0, 0⟩⟩
instance : Zero (LoadStats F) := ⟨⟨0, 0, 0⟩⟩
instance : Zero DiskStats := ⟨⟨0, 0, 0⟩⟩
instance : Zero NetStats := ⟨⟨0, 0, 0⟩⟩
instance : Zero ProcessStats := ⟨⟨0, 0, 0, 0, 0, 0, 0⟩⟩
instance : Zero (TcpStats F) := ⟨⟨0, 0, 0, 0, 0, 0, 0, 0, false⟩⟩
instance : Zero (UdpStats F) := ⟨⟨0, 0, 0, 0, false⟩⟩
instance : Zero (IcmpStats F) := ⟨⟨0, 0, 0, 0, false⟩⟩
instance : Zero (FsStats F) := ⟨⟨0, 0, 0, false⟩⟩
instance : Zero (ClockStats F) := ⟨⟨0, 0, false, false⟩⟩
instance : Zero EntropyStats := ⟨⟨0, false⟩⟩
instance : Zero (SelfStats F) := ⟨⟨0, 0, 0, 0⟩⟩
instance : Zero (ThermalStats F) := ⟨⟨0, 0, false⟩⟩
instance : Zero FileWatchSample := ⟨⟨0, 0, false⟩⟩

instance : Zero (SampleOf F) :=
  ⟨⟨0, 0, 0, 0, 0, 0, 0, 0, 0, 0, 0, 0, 0, 0, 0, 0, 0, 0, 0, 0, 0, false⟩⟩

end Zeros

def mkSample (level : Level) (timestampNanos : UInt64) : Sample :=
  { (0 : Sample) with timestampNanos, level }

/-! ## Metric groups -/

abbrev kGroupCpu : UInt32 := (1 : UInt32) <<< 0
abbrev kGroupMem : UInt32 := (1 : UInt32) <<< 1
abbrev kGroupSwap : UInt32 := (1 : UInt32) <<< 2
abbrev kGroupLoad : UInt32 := (1 : UInt32) <<< 3
abbrev kGroupDisk : UInt32 := (1 : UInt32) <<< 4
abbrev kGroupNet : UInt32 := (1 : UInt32) <<< 5
abbrev kGroupProc : UInt32 := (1 : UInt32) <<< 6
abbrev kGroupEntropy : UInt32 := (1 : UInt32) <<< 7
abbrev kGroupSelf : UInt32 := (1 : UInt32) <<< 8
abbrev kGroupThermal : UInt32 := (1 : UInt32) <<< 9
abbrev kGroupFileWatch : UInt32 := (1 : UInt32) <<< 10
abbrev kGroupUptime : UInt32 := (1 : UInt32) <<< 11
abbrev kGroupTcp : UInt32 := (1 : UInt32) <<< 12
abbrev kGroupUdp : UInt32 := (1 : UInt32) <<< 13
abbrev kGroupFs : UInt32 := (1 : UInt32) <<< 14
abbrev kGroupClock : UInt32 := (1 : UInt32) <<< 15
abbrev kGroupIcmp : UInt32 := (1 : UInt32) <<< 16

abbrev kGroupsAll : UInt32 := ((1 : UInt32) <<< 17) - 1

def hasGroup (groups bit : UInt32) : Bool := groups &&& bit != 0

def clearGroups {F : Type} [Zero F] (s : SampleOf F) (groups : UInt32) : SampleOf F :=
  { s with
    cpu := if hasGroup groups kGroupCpu then 0 else s.cpu
    mem := if hasGroup groups kGroupMem then 0 else s.mem
    swap := if hasGroup groups kGroupSwap then 0 else s.swap
    load := if hasGroup groups kGroupLoad then 0 else s.load
    disk := if hasGroup groups kGroupDisk then 0 else s.disk
    net := if hasGroup groups kGroupNet then 0 else s.net
    proc := if hasGroup groups kGroupProc then 0 else s.proc
    entropy := if hasGroup groups kGroupEntropy then 0 else s.entropy
    self := if hasGroup groups kGroupSelf then 0 else s.self
    thermal := if hasGroup groups kGroupThermal then 0 else s.thermal
    fileWatch := if hasGroup groups kGroupFileWatch then 0 else s.fileWatch
    uptimeSeconds := if hasGroup groups kGroupUptime then 0 else s.uptimeSeconds
    tcp := if hasGroup groups kGroupTcp then 0 else s.tcp
    udp := if hasGroup groups kGroupUdp then 0 else s.udp
    icmp := if hasGroup groups kGroupIcmp then 0 else s.icmp
    fs := if hasGroup groups kGroupFs then 0 else s.fs
    clock := if hasGroup groups kGroupClock then 0 else s.clock
    groups := s.groups &&& ~~~groups }

end Budyk
