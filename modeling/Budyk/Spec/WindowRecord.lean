import Budyk.Core.MetricSet
import Mathlib.Algebra.BigOperators.Group.List.Basic
import Mathlib.Data.List.MinMax
import Mathlib.Data.Rat.Floor

/-! The record of a window: what it says of each field, over the samples of the window, in exact arithmetic. -/

namespace Budyk.Spec

/-- The values of a field in the samples that have its group. -/
def readings {α : Type} (window : List (SampleOf ℚ)) (g : MetricGroup) (field : SampleOf ℚ → α) : List α :=
  (window.filter fun s => hasGroup s.groups g.bit).map field

def mean (values : List ℚ) : ℚ := values.sum / values.length

/-- To the nearest, halves away from zero. -/
def roundAway (x : ℚ) : Int := if 0 ≤ x then ⌊x + 1 / 2⌋ else -⌊-x + 1 / 2⌋

/-- What `llround` gives of a number that no `long long` holds. -/
class Unspecified where
  llround : ℚ → UInt64

def llround [Unspecified] (x : ℚ) : UInt64 :=
  if -2 ^ 63 ≤ roundAway x ∧ roundAway x < 2 ^ 63 then UInt64.ofInt (roundAway x) else Unspecified.llround x

section
variable {α : Type} [Zero α]

def lastOf (values : List α) : α := values.getLast?.getD 0

/-- The largest of the values and zero. -/
def greatest [Max α] (values : List α) : α := values.foldl max 0

end

def u64 (x : UInt64) : ℚ := x.toNat

def allGroups (window : List (SampleOf ℚ)) : UInt32 := window.foldl (fun groups s => groups ||| s.groups) 0

def windowRecord [Unspecified] (outLevel : Level) (window : List (SampleOf ℚ)) : SampleOf ℚ :=
  let rounded (values : List ℚ) : UInt64 := llround (mean values)
  let thermal := readings window .thermal fun s => s.thermal
  let clock := (readings window .clock fun s => s.clock).filter fun c => c.present
  let entropy := (readings window .entropy fun s => s.entropy).filter fun e => e.present
  let fileWatch := readings window .fileWatch fun s => s.fileWatch
  { timestampNanos := lastOf (window.map fun s => s.timestampNanos)
    level := outLevel
    folded := true
    groups := allGroups window &&& kGroupsAll
    baseline := 0
    cpu :=
      { totalPercent := mean (readings window .cpu fun s => s.cpu.totalPercent)
        count := (lastOf (readings window .cpu fun s => s.cpu)).count
        userPercent := mean (readings window .cpu fun s => s.cpu.userPercent)
        systemPercent := mean (readings window .cpu fun s => s.cpu.systemPercent)
        iowaitPercent := mean (readings window .cpu fun s => s.cpu.iowaitPercent)
        irqPercent := mean (readings window .cpu fun s => s.cpu.irqPercent)
        stealPercent := mean (readings window .cpu fun s => s.cpu.stealPercent)
        idlePercent := mean (readings window .cpu fun s => s.cpu.idlePercent) }
    mem :=
      { total := (lastOf (readings window .mem fun s => s.mem)).total
        available := rounded (readings window .mem fun s => u64 s.mem.available)
        availablePercent := mean (readings window .mem fun s => s.mem.availablePercent) }
    swap :=
      { total := (lastOf (readings window .swap fun s => s.swap)).total
        used := rounded (readings window .swap fun s => u64 s.swap.used)
        usedPercent := mean (readings window .swap fun s => s.swap.usedPercent) }
    load :=
      { avg1m := mean (readings window .load fun s => s.load.avg1m)
        avg5m := mean (readings window .load fun s => s.load.avg5m)
        avg15m := mean (readings window .load fun s => s.load.avg15m) }
    disk :=
      { readBytesPerSec := rounded (readings window .disk fun s => u64 s.disk.readBytesPerSec)
        writeBytesPerSec := rounded (readings window .disk fun s => u64 s.disk.writeBytesPerSec)
        deviceCount := (lastOf (readings window .disk fun s => s.disk)).deviceCount }
    net :=
      { rxBytesPerSec := rounded (readings window .net fun s => u64 s.net.rxBytesPerSec)
        txBytesPerSec := rounded (readings window .net fun s => u64 s.net.txBytesPerSec)
        interfaceCount := (lastOf (readings window .net fun s => s.net)).interfaceCount }
    proc :=
      { total := greatest (readings window .proc fun s => s.proc.total)
        running := greatest (readings window .proc fun s => s.proc.running)
        sleeping := greatest (readings window .proc fun s => s.proc.sleeping)
        blocked := greatest (readings window .proc fun s => s.proc.blocked)
        stopped := greatest (readings window .proc fun s => s.proc.stopped)
        zombie := greatest (readings window .proc fun s => s.proc.zombie)
        threads := greatest (readings window .proc fun s => s.proc.threads) }
    entropy :=
      { availableBits := (entropy.map fun e => e.availableBits).min?.getD 0
        present := !entropy.isEmpty }
    self :=
      { lastOf (readings window .self fun s => s.self) with
        rssBytes := greatest (readings window .self fun s => s.self.rssBytes) }
    thermal :=
      { maxCelsius := (((thermal.filter fun t => t.present).map fun t => t.maxCelsius).argmax id).getD 0
        sensorCount := (lastOf thermal).sensorCount
        present := thermal.any fun t => t.present }
    fileWatch :=
      { eventsThisTick := UInt32.ofNat (min (fileWatch.map fun f => f.eventsThisTick.toNat).sum (2 ^ 32 - 1))
        watchedCount := (lastOf fileWatch).watchedCount
        present := fileWatch.any fun f => f.present }
    uptimeSeconds := lastOf (readings window .uptime fun s => s.uptimeSeconds)
    tcp :=
      { established := greatest (readings window .tcp fun s => s.tcp.established)
        timeWait := greatest (readings window .tcp fun s => s.tcp.timeWait)
        activeOpensPerSec := mean (readings window .tcp fun s => s.tcp.activeOpensPerSec)
        passiveOpensPerSec := mean (readings window .tcp fun s => s.tcp.passiveOpensPerSec)
        retransmitsPerSec := mean (readings window .tcp fun s => s.tcp.retransmitsPerSec)
        inSegmentsPerSec := mean (readings window .tcp fun s => s.tcp.inSegmentsPerSec)
        outSegmentsPerSec := mean (readings window .tcp fun s => s.tcp.outSegmentsPerSec)
        inErrorsPerSec := mean (readings window .tcp fun s => s.tcp.inErrorsPerSec)
        present := (readings window .tcp fun s => s.tcp.present).any id }
    udp :=
      { inDatagramsPerSec := mean (readings window .udp fun s => s.udp.inDatagramsPerSec)
        outDatagramsPerSec := mean (readings window .udp fun s => s.udp.outDatagramsPerSec)
        noPortPerSec := mean (readings window .udp fun s => s.udp.noPortPerSec)
        inErrorsPerSec := mean (readings window .udp fun s => s.udp.inErrorsPerSec)
        present := (readings window .udp fun s => s.udp.present).any id }
    icmp :=
      { inMsgsPerSec := mean (readings window .icmp fun s => s.icmp.inMsgsPerSec)
        outMsgsPerSec := mean (readings window .icmp fun s => s.icmp.outMsgsPerSec)
        inErrorsPerSec := mean (readings window .icmp fun s => s.icmp.inErrorsPerSec)
        inDestUnreachsPerSec := mean (readings window .icmp fun s => s.icmp.inDestUnreachsPerSec)
        present := (readings window .icmp fun s => s.icmp.present).any id }
    fs :=
      { count := (lastOf (readings window .fs fun s => s.fs)).count
        maxUsedPercent := greatest (readings window .fs fun s => s.fs.maxUsedPercent)
        maxInodesUsedPercent := greatest (readings window .fs fun s => s.fs.maxInodesUsedPercent)
        present := (readings window .fs fun s => s.fs.present).any id }
    clock :=
      { offsetMs := ((clock.map fun c => c.offsetMs).argmax fun offset => |offset|).getD 0
        maxErrorMs := greatest (clock.map fun c => c.maxErrorMs)
        synced := !clock.isEmpty && clock.all fun c => c.synced
        present := !clock.isEmpty } }

/-- What a record says of a group, when it is all zero. -/
def SaysNothing (r : SampleOf ℚ) : MetricGroup → Prop
  | .cpu => r.cpu = 0
  | .mem => r.mem = 0
  | .swap => r.swap = 0
  | .load => r.load = 0
  | .disk => r.disk = 0
  | .net => r.net = 0
  | .proc => r.proc = 0
  | .entropy => r.entropy = 0
  | .self => r.self = 0
  | .thermal => r.thermal = 0
  | .fileWatch => r.fileWatch = 0
  | .uptime => r.uptimeSeconds = 0
  | .tcp => r.tcp = 0
  | .udp => r.udp = 0
  | .fs => r.fs = 0
  | .clock => r.clock = 0
  | .icmp => r.icmp = 0

@[simp] theorem mean_nil : mean [] = 0 := by
  simp [mean]

theorem readings_absent {window : List (SampleOf ℚ)} {g : MetricGroup}
    (absent : ∀ s ∈ window, hasGroup s.groups g.bit = false) {α : Type} (field : SampleOf ℚ → α) :
    readings window g field = [] := by
  simp only [readings, List.map_eq_nil_iff, List.filter_eq_nil_iff, Bool.not_eq_true]
  exact absent

section Absent
variable [Unspecified] {outLevel : Level} {window : List (SampleOf ℚ)}

@[simp] theorem llround_zero : llround 0 = 0 := by
  have nearest : roundAway 0 = 0 := by decide +kernel
  rw [llround, nearest, if_pos (by decide)]
  rfl

theorem saysNothing_of_absent {g : MetricGroup} (absent : ∀ s ∈ window, hasGroup s.groups g.bit = false) :
    SaysNothing (windowRecord outLevel window) g := by
  have lacking {α : Type} := readings_absent absent (α := α)
  cases g <;> simp only [SaysNothing, windowRecord, lacking, mean_nil, llround_zero, List.filter_nil, List.map_nil] <;> rfl

end Absent

end Budyk.Spec
