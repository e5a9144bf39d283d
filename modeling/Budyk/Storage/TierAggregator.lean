import Budyk.Core.Sample
import Mathlib.Data.List.DropRight
import Mathlib.Data.List.Induction

/-! `TierAggregator` of `storage/tier_aggregator.cpp`: a window of finer samples folded into one
record. -/

namespace Budyk.Storage

/-- What the aggregator computes with doubles. -/
class DoubleArith (F : Type) extends Zero F where
  add : F → F → F
  mul : F → F → F
  -- `1.0 / static_cast<double>(n)`
  recip : UInt32 → F
  ofU64 : UInt64 → F
  -- `a < b`
  less : F → F → Bool
  fabs : F → F
  -- `static_cast<uint64_t>(std::llround(x))`
  llround : F → UInt64

namespace DoubleArith

def max {F : Type} [DoubleArith F] (a b : F) : F := if less a b then b else a

end DoubleArith

instance : DoubleArith Double where
  add a b := ⟨(Float.ofBits a.bits + Float.ofBits b.bits).toBits⟩
  mul a b := ⟨(Float.ofBits a.bits * Float.ofBits b.bits).toBits⟩
  recip n := ⟨(1.0 / n.toFloat).toBits⟩
  ofU64 n := ⟨n.toFloat.toBits⟩
  less a b := Float.ofBits a.bits < Float.ofBits b.bits
  fabs a := ⟨(Float.ofBits a.bits).abs.toBits⟩
  llround a := (Float.ofBits a.bits).round.toInt64.toUInt64

abbrev kGroupCount : Nat := 17

structure AggregatorOf (F : Type) where
  outLevel : Level
  n : Nat
  firstTs : UInt64
  groupN : Vector UInt32 kGroupCount
  cpuTotalPercentSum : F
  memAvailableSum : F
  memAvailablePercentSum : F
  swapUsedSum : F
  swapUsedPercentSum : F
  load1mSum : F
  load5mSum : F
  load15mSum : F
  diskReadSum : F
  diskWriteSum : F
  netRxSum : F
  netTxSum : F
  cpuPartSum : Vector F 6
  tcpRateSum : Vector F 6
  udpRateSum : Vector F 4
  icmpRateSum : Vector F 4
  procTotalMax : UInt32
  procRunningMax : UInt32
  thermalMax : F
  rssMax : UInt64
  entropyMin : UInt32
  fileEventsSum : UInt64
  entropyPresent : Bool
  thermalPresent : Bool
  fileWatchPresent : Bool
  procMax : ProcessStats
  tcp : TcpStats F
  udpPresent : Bool
  icmpPresent : Bool
  fsMax : FsStats F
  clock : ClockStats F
  last : SampleOf F

abbrev TierAggregator := AggregatorOf Double

namespace AggregatorOf
variable {F : Type} [DoubleArith F]
open DoubleArith

def empty (outLevel : Level) : AggregatorOf F where
  outLevel := outLevel
  n := 0
  firstTs := 0
  groupN := .replicate kGroupCount 0
  cpuTotalPercentSum := 0
  memAvailableSum := 0
  memAvailablePercentSum := 0
  swapUsedSum := 0
  swapUsedPercentSum := 0
  load1mSum := 0
  load5mSum := 0
  load15mSum := 0
  diskReadSum := 0
  diskWriteSum := 0
  netRxSum := 0
  netTxSum := 0
  cpuPartSum := .replicate 6 0
  tcpRateSum := .replicate 6 0
  udpRateSum := .replicate 4 0
  icmpRateSum := .replicate 4 0
  procTotalMax := 0
  procRunningMax := 0
  thermalMax := 0
  rssMax := 0
  entropyMin := 0xFFFFFFFF
  fileEventsSum := 0
  entropyPresent := false
  thermalPresent := false
  fileWatchPresent := false
  procMax := 0
  tcp := 0
  udpPresent := false
  icmpPresent := false
  fsMax := 0
  -- Until a sample that read the clock says not.
  clock := { (0 : ClockStats F) with synced := true }
  last := 0

def reset (a : AggregatorOf F) : AggregatorOf F := empty a.outLevel

/-! ## `add`, group by group -/

def addCpu (a : AggregatorOf F) (s : SampleOf F) : AggregatorOf F :=
  { a with
    cpuTotalPercentSum := add a.cpuTotalPercentSum s.cpu.totalPercent
    cpuPartSum := a.cpuPartSum.zipWith DoubleArith.add
      (#v[s.cpu.userPercent, s.cpu.systemPercent, s.cpu.iowaitPercent, s.cpu.irqPercent,
        s.cpu.stealPercent, s.cpu.idlePercent])
    last := { a.last with cpu := s.cpu } }

def addMem (a : AggregatorOf F) (s : SampleOf F) : AggregatorOf F :=
  { a with
    memAvailableSum := add a.memAvailableSum (ofU64 s.mem.available)
    memAvailablePercentSum := add a.memAvailablePercentSum s.mem.availablePercent
    last := { a.last with mem := s.mem } }

def addSwap (a : AggregatorOf F) (s : SampleOf F) : AggregatorOf F :=
  { a with
    swapUsedSum := add a.swapUsedSum (ofU64 s.swap.used)
    swapUsedPercentSum := add a.swapUsedPercentSum s.swap.usedPercent
    last := { a.last with swap := s.swap } }

def addLoad (a : AggregatorOf F) (s : SampleOf F) : AggregatorOf F :=
  { a with
    load1mSum := add a.load1mSum s.load.avg1m
    load5mSum := add a.load5mSum s.load.avg5m
    load15mSum := add a.load15mSum s.load.avg15m }

def addDisk (a : AggregatorOf F) (s : SampleOf F) : AggregatorOf F :=
  { a with
    diskReadSum := add a.diskReadSum (ofU64 s.disk.readBytesPerSec)
    diskWriteSum := add a.diskWriteSum (ofU64 s.disk.writeBytesPerSec)
    last := { a.last with disk := s.disk } }

def addNet (a : AggregatorOf F) (s : SampleOf F) : AggregatorOf F :=
  { a with
    netRxSum := add a.netRxSum (ofU64 s.net.rxBytesPerSec)
    netTxSum := add a.netTxSum (ofU64 s.net.txBytesPerSec)
    last := { a.last with net := s.net } }

def addProc (a : AggregatorOf F) (s : SampleOf F) : AggregatorOf F :=
  { a with
    procTotalMax := Max.max a.procTotalMax s.proc.total
    procRunningMax := Max.max a.procRunningMax s.proc.running
    procMax := { a.procMax with
      sleeping := Max.max a.procMax.sleeping s.proc.sleeping
      blocked := Max.max a.procMax.blocked s.proc.blocked
      stopped := Max.max a.procMax.stopped s.proc.stopped
      zombie := Max.max a.procMax.zombie s.proc.zombie
      threads := Max.max a.procMax.threads s.proc.threads } }

def addSelf (a : AggregatorOf F) (s : SampleOf F) : AggregatorOf F :=
  { a with rssMax := Max.max a.rssMax s.self.rssBytes, last := { a.last with self := s.self } }

def addThermal (a : AggregatorOf F) (s : SampleOf F) : AggregatorOf F :=
  { a with
    thermalMax :=
      if s.thermal.present then
        if a.thermalPresent then max a.thermalMax s.thermal.maxCelsius else s.thermal.maxCelsius
      else a.thermalMax
    thermalPresent := a.thermalPresent || s.thermal.present
    last := { a.last with thermal := s.thermal } }

def addEntropy (a : AggregatorOf F) (s : SampleOf F) : AggregatorOf F :=
  if s.entropy.present then
    { a with entropyMin := Min.min a.entropyMin s.entropy.availableBits, entropyPresent := true }
  else a

def addFileWatch (a : AggregatorOf F) (s : SampleOf F) : AggregatorOf F :=
  { a with
    fileEventsSum := a.fileEventsSum + s.fileWatch.eventsThisTick.toUInt64
    fileWatchPresent := a.fileWatchPresent || s.fileWatch.present
    last := { a.last with fileWatch := s.fileWatch } }

def addUptime (a : AggregatorOf F) (s : SampleOf F) : AggregatorOf F :=
  { a with last := { a.last with uptimeSeconds := s.uptimeSeconds } }

def addTcp (a : AggregatorOf F) (s : SampleOf F) : AggregatorOf F :=
  { a with
    tcpRateSum := a.tcpRateSum.zipWith DoubleArith.add
      (#v[s.tcp.activeOpensPerSec, s.tcp.passiveOpensPerSec, s.tcp.retransmitsPerSec,
        s.tcp.inSegmentsPerSec, s.tcp.outSegmentsPerSec, s.tcp.inErrorsPerSec])
    tcp := { a.tcp with
      established := Max.max a.tcp.established s.tcp.established
      timeWait := Max.max a.tcp.timeWait s.tcp.timeWait
      present := a.tcp.present || s.tcp.present } }

def addUdp (a : AggregatorOf F) (s : SampleOf F) : AggregatorOf F :=
  { a with
    udpRateSum := a.udpRateSum.zipWith DoubleArith.add
      (#v[s.udp.inDatagramsPerSec, s.udp.outDatagramsPerSec, s.udp.noPortPerSec,
        s.udp.inErrorsPerSec])
    udpPresent := a.udpPresent || s.udp.present }

def addIcmp (a : AggregatorOf F) (s : SampleOf F) : AggregatorOf F :=
  { a with
    icmpRateSum := a.icmpRateSum.zipWith DoubleArith.add
      (#v[s.icmp.inMsgsPerSec, s.icmp.outMsgsPerSec, s.icmp.inErrorsPerSec,
        s.icmp.inDestUnreachsPerSec])
    icmpPresent := a.icmpPresent || s.icmp.present }

def addFs (a : AggregatorOf F) (s : SampleOf F) : AggregatorOf F :=
  { a with
    fsMax := { a.fsMax with
      maxUsedPercent := max a.fsMax.maxUsedPercent s.fs.maxUsedPercent
      maxInodesUsedPercent := max a.fsMax.maxInodesUsedPercent s.fs.maxInodesUsedPercent
      present := a.fsMax.present || s.fs.present }
    last := { a.last with fs := s.fs } }

def addClock (a : AggregatorOf F) (s : SampleOf F) : AggregatorOf F :=
  if s.clock.present then
    { a with clock :=
      { offsetMs := if !a.clock.present || less (fabs a.clock.offsetMs) (fabs s.clock.offsetMs)
          then s.clock.offsetMs else a.clock.offsetMs
        maxErrorMs := max a.clock.maxErrorMs s.clock.maxErrorMs
        synced := a.clock.synced && s.clock.synced
        present := true } }
  else a

def groupAdders : List (UInt32 × (AggregatorOf F → SampleOf F → AggregatorOf F)) :=
  [(kGroupCpu, addCpu), (kGroupMem, addMem), (kGroupSwap, addSwap), (kGroupLoad, addLoad),
   (kGroupDisk, addDisk), (kGroupNet, addNet), (kGroupProc, addProc), (kGroupSelf, addSelf),
   (kGroupThermal, addThermal), (kGroupEntropy, addEntropy), (kGroupFileWatch, addFileWatch),
   (kGroupUptime, addUptime), (kGroupTcp, addTcp), (kGroupUdp, addUdp), (kGroupIcmp, addIcmp),
   (kGroupFs, addFs), (kGroupClock, addClock)]

def addGroups (a : AggregatorOf F) (s : SampleOf F) : AggregatorOf F :=
  groupAdders.foldl (fun a (bit, adder) => if hasGroup s.groups bit then adder a s else a) a

def add (a : AggregatorOf F) (s : SampleOf F) : AggregatorOf F :=
  addGroups { a with
    firstTs := if a.n = 0 then s.timestampNanos else a.firstTs
    n := a.n + 1
    last := { a.last with timestampNanos := s.timestampNanos }
    groupN := a.groupN.mapIdx fun i n =>
      if hasGroup s.groups ((1 : UInt32) <<< UInt32.ofNat i) then n + 1 else n } s

def size (a : AggregatorOf F) : Nat := a.n

def firstTimestamp (a : AggregatorOf F) : Nat := a.firstTs.toNat

/-! ## `fold` -/

def groups (a : AggregatorOf F) : UInt32 :=
  a.groupN.toList.zipIdx.foldl
    (fun groups (n, i) => if n > 0 then groups ||| (1 : UInt32) <<< UInt32.ofNat i else groups) 0

def invN (a : AggregatorOf F) (bit : UInt32) : F :=
  match a.groupN[bit.toNat.log2]? with
  | some n => if n > 0 then recip n else 0
  | none => 0

def meanU64 (sum inv : F) : UInt64 := llround (mul sum inv)

def folded (a : AggregatorOf F) : SampleOf F :=
  let cpu := a.invN kGroupCpu
  let mem := a.invN kGroupMem
  let swap := a.invN kGroupSwap
  let load := a.invN kGroupLoad
  let disk := a.invN kGroupDisk
  let net := a.invN kGroupNet
  let tcp := a.invN kGroupTcp
  let udp := a.invN kGroupUdp
  let icmp := a.invN kGroupIcmp
  { timestampNanos := a.last.timestampNanos
    level := a.outLevel
    folded := true
    cpu := { a.last.cpu with
      totalPercent := mul a.cpuTotalPercentSum cpu
      userPercent := mul a.cpuPartSum[0] cpu
      systemPercent := mul a.cpuPartSum[1] cpu
      iowaitPercent := mul a.cpuPartSum[2] cpu
      irqPercent := mul a.cpuPartSum[3] cpu
      stealPercent := mul a.cpuPartSum[4] cpu
      idlePercent := mul a.cpuPartSum[5] cpu }
    mem := { a.last.mem with
      available := meanU64 a.memAvailableSum mem
      availablePercent := mul a.memAvailablePercentSum mem }
    swap := { a.last.swap with
      used := meanU64 a.swapUsedSum swap
      usedPercent := mul a.swapUsedPercentSum swap }
    load :=
      { avg1m := mul a.load1mSum load, avg5m := mul a.load5mSum load, avg15m := mul a.load15mSum load }
    disk := { a.last.disk with
      readBytesPerSec := meanU64 a.diskReadSum disk
      writeBytesPerSec := meanU64 a.diskWriteSum disk }
    net := { a.last.net with
      rxBytesPerSec := meanU64 a.netRxSum net
      txBytesPerSec := meanU64 a.netTxSum net }
    proc := { a.procMax with total := a.procTotalMax, running := a.procRunningMax }
    entropy :=
      { present := a.entropyPresent, availableBits := if a.entropyPresent then a.entropyMin else 0 }
    self := { a.last.self with rssBytes := a.rssMax }
    thermal := { a.last.thermal with
      present := a.thermalPresent
      maxCelsius := if a.thermalPresent then a.thermalMax else 0 }
    fileWatch := { a.last.fileWatch with
      present := a.fileWatchPresent
      eventsThisTick := (Min.min a.fileEventsSum 0xFFFFFFFF).toUInt32 }
    tcp :=
      { established := a.tcp.established
        timeWait := a.tcp.timeWait
        activeOpensPerSec := mul a.tcpRateSum[0] tcp
        passiveOpensPerSec := mul a.tcpRateSum[1] tcp
        retransmitsPerSec := mul a.tcpRateSum[2] tcp
        inSegmentsPerSec := mul a.tcpRateSum[3] tcp
        outSegmentsPerSec := mul a.tcpRateSum[4] tcp
        inErrorsPerSec := mul a.tcpRateSum[5] tcp
        present := a.tcp.present }
    udp :=
      { inDatagramsPerSec := mul a.udpRateSum[0] udp
        outDatagramsPerSec := mul a.udpRateSum[1] udp
        noPortPerSec := mul a.udpRateSum[2] udp
        inErrorsPerSec := mul a.udpRateSum[3] udp
        present := a.udpPresent }
    icmp :=
      { inMsgsPerSec := mul a.icmpRateSum[0] icmp
        outMsgsPerSec := mul a.icmpRateSum[1] icmp
        inErrorsPerSec := mul a.icmpRateSum[2] icmp
        inDestUnreachsPerSec := mul a.icmpRateSum[3] icmp
        present := a.icmpPresent }
    fs := { a.fsMax with count := a.last.fs.count }
    clock := if a.clock.present then a.clock else { a.clock with synced := false }
    groups := a.groups
    baseline := a.last.baseline
    uptimeSeconds := a.last.uptimeSeconds }

def fold (a : AggregatorOf F) : Option (SampleOf F) × AggregatorOf F :=
  if a.n = 0 then (none, a.reset) else (some a.folded, a.reset)

/-! ## Windows -/

structure SameWindow (a b : AggregatorOf F) : Prop where
  outLevel : a.outLevel = b.outLevel
  n : a.n = b.n
  firstTs : a.firstTs = b.firstTs
  lastTs : a.last.timestampNanos = b.last.timestampNanos

theorem groupAdders_same : ∀ adder ∈ groupAdders (F := F), ∀ a s, SameWindow (adder.2 a s) a := by
  intro adder member a s
  simp only [groupAdders, List.mem_cons, List.not_mem_nil, or_false] at member
  rcases member with rfl | rfl | rfl | rfl | rfl | rfl | rfl | rfl | rfl | rfl | rfl | rfl | rfl | rfl |
    rfl | rfl | rfl
  case inr.inr.inr.inr.inr.inr.inr.inr.inr.inl =>
    simp only [addEntropy]
    split <;> exact ⟨rfl, rfl, rfl, rfl⟩
  case inr.inr.inr.inr.inr.inr.inr.inr.inr.inr.inr.inr.inr.inr.inr.inr =>
    simp only [addClock]
    split <;> exact ⟨rfl, rfl, rfl, rfl⟩
  all_goals exact ⟨rfl, rfl, rfl, rfl⟩

theorem addGroups_same (a : AggregatorOf F) (s : SampleOf F) : SameWindow (a.addGroups s) a := by
  have all : ∀ adders : List (UInt32 × (AggregatorOf F → SampleOf F → AggregatorOf F)),
      (∀ adder ∈ adders, ∀ a s, SameWindow (adder.2 a s) a) → ∀ a,
        SameWindow (adders.foldl (fun a (bit, adder) =>
          if hasGroup s.groups bit then adder a s else a) a) a := by
    intro adders
    induction adders with
    | nil => exact fun _ a => ⟨rfl, rfl, rfl, rfl⟩
    | cons head rest ih =>
        intro same a
        have tail := ih (fun adder member => same adder (List.mem_cons_of_mem _ member))
          (if hasGroup s.groups head.1 then head.2 a s else a)
        have first : SameWindow (if hasGroup s.groups head.1 then head.2 a s else a) a := by
          split
          · exact same head List.mem_cons_self a s
          · exact ⟨rfl, rfl, rfl, rfl⟩
        exact ⟨tail.outLevel.trans first.outLevel, tail.n.trans first.n, tail.firstTs.trans first.firstTs,
          tail.lastTs.trans first.lastTs⟩
  exact all groupAdders groupAdders_same a

theorem add_outLevel (a : AggregatorOf F) (s : SampleOf F) : (a.add s).outLevel = a.outLevel :=
  (addGroups_same _ s).outLevel

theorem add_n (a : AggregatorOf F) (s : SampleOf F) : (a.add s).n = a.n + 1 := (addGroups_same _ s).n

theorem add_firstTs (a : AggregatorOf F) (s : SampleOf F) :
    (a.add s).firstTs = if a.n = 0 then s.timestampNanos else a.firstTs :=
  (addGroups_same _ s).firstTs

theorem add_lastTs (a : AggregatorOf F) (s : SampleOf F) :
    (a.add s).last.timestampNanos = s.timestampNanos :=
  (addGroups_same _ s).lastTs

def ofWindow (outLevel : Level) (window : List (SampleOf F)) : AggregatorOf F :=
  window.foldl add (empty outLevel)

theorem ofWindow_append (outLevel : Level) (window : List (SampleOf F)) (s : SampleOf F) :
    ofWindow outLevel (window ++ [s]) = (ofWindow outLevel window).add s := by
  simp [ofWindow]

theorem ofWindow_outLevel (outLevel : Level) (window : List (SampleOf F)) :
    (ofWindow outLevel window).outLevel = outLevel := by
  induction window using List.reverseRecOn with
  | nil => rfl
  | append_singleton window s ih => rw [ofWindow_append, add_outLevel, ih]

theorem ofWindow_n (outLevel : Level) (window : List (SampleOf F)) :
    (ofWindow outLevel window).n = window.length := by
  induction window using List.reverseRecOn with
  | nil => rfl
  | append_singleton window s ih => rw [ofWindow_append, add_n, ih, List.length_append]; rfl

theorem ofWindow_firstTs (outLevel : Level) (first : SampleOf F) (rest : List (SampleOf F)) :
    (ofWindow outLevel (first :: rest)).firstTs = first.timestampNanos := by
  induction rest using List.reverseRecOn with
  | nil => exact add_firstTs (empty outLevel) first
  | append_singleton rest s ih =>
      rw [← List.cons_append, ofWindow_append, add_firstTs, ofWindow_n, ih]
      simp

theorem ofWindow_lastTs (outLevel : Level) {window : List (SampleOf F)} {last : SampleOf F}
    (ends : window.getLast? = some last) :
    (ofWindow outLevel window).last.timestampNanos = last.timestampNanos := by
  obtain ⟨front, rfl⟩ := List.getLast?_eq_some_iff.mp ends
  rw [ofWindow_append, add_lastTs]

theorem folded_level (a : AggregatorOf F) : a.folded.level = a.outLevel := rfl

theorem folded_ts (outLevel : Level) {window : List (SampleOf F)} {last : SampleOf F}
    (ends : window.getLast? = some last) : (ofWindow outLevel window).folded.ts = last.ts :=
  congrArg UInt64.toNat (ofWindow_lastTs outLevel ends)

theorem fold_ofWindow (outLevel : Level) (window : List (SampleOf F)) :
    (ofWindow outLevel window).fold =
      (if window = [] then none else some (ofWindow outLevel window).folded, empty outLevel) := by
  rw [fold, ofWindow_n, reset, ofWindow_outLevel]
  cases window with
  | nil => rfl
  | cons first rest => rfl

/-! ## Calls -/

/-- A call of the aggregator; `fold(nullptr)` is a `reset`. -/
inductive Call (F : Type)
  | add (s : SampleOf F)
  | fold
  | reset

def call (a : AggregatorOf F) : Call F → AggregatorOf F
  | .add s => a.add s
  | .fold => a.fold.2
  | .reset => a.reset

def Call.added : Call F → Option (SampleOf F)
  | .add s => some s
  | _ => none

/-- The samples added since the last call that began a window. -/
def since (calls : List (Call F)) : List (SampleOf F) :=
  (calls.rtakeWhile fun call => call.added.isSome).filterMap Call.added

theorem calls_window (outLevel : Level) (calls : List (Call F)) :
    calls.foldl call (empty outLevel) = ofWindow outLevel (since calls) := by
  induction calls using List.reverseRecOn with
  | nil => rfl
  | append_singleton calls c ih =>
      rw [List.foldl_append, List.foldl_cons, List.foldl_nil, ih]
      cases c with
      | add s =>
          have more : since (calls ++ [.add s]) = since calls ++ [s] := by
            rw [since, List.rtakeWhile_concat_pos _ _ _ rfl, List.filterMap_append]
            rfl
          rw [more, ofWindow_append]
          rfl
      | fold =>
          have absent : since (calls ++ [.fold]) = [] := by
            rw [since, List.rtakeWhile_concat_neg _ _ _ (by simp [Call.added])]
            rfl
          rw [absent, call, fold_ofWindow]
          rfl
      | reset =>
          have absent : since (calls ++ [.reset]) = [] := by
            rw [since, List.rtakeWhile_concat_neg _ _ _ (by simp [Call.added])]
            rfl
          rw [absent, call, reset, ofWindow_outLevel]
          rfl

end AggregatorOf

end Budyk.Storage
