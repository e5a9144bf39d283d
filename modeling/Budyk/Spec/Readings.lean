import Budyk.Daemon.Collect

/-! What a tick should show: a group or a list it read, and a rate only against the tick right before it. -/

namespace Budyk.Spec
open Lib Daemon

def group : MetricDetail → MetricGroup
  | .cores => .cpu
  | .disks => .disk
  | .interfaces => .net
  | .mounts => .fs
  | .processes => .proc

def minimal : List MetricGroup := [.cpu, .mem, .swap, .load, .uptime]

def netstat : List MetricGroup := [.tcp, .udp, .icmp]

def rates : List MetricGroup := [.cpu, .disk, .net] ++ netstat

def rateLists : List MetricDetail := [.cores, .disks, .interfaces, .processes]

/-- Asked for, by name or for one of its lists or, for the three that are read as one, for another of them. -/
def Wanted (set : MetricSet) (g : MetricGroup) : Prop :=
  g ∈ minimal ∨ hasGroup set.groups g.bit ∨ (∃ l, hasGroup set.detail l.bit ∧ group l = g) ∨
    g ∈ netstat ∧ ∃ h ∈ netstat, hasGroup set.groups h.bit

variable {F : Type}

/-- Its collector fails. The watched files are read by the serve loop. -/
def Failed (k : Collectors F) : MetricGroup → Prop
  | .cpu => k.cpu.rc < 0
  | .mem | .swap => k.memory.rc < 0
  | .load => k.load.rc < 0
  | .disk => k.disk.rc < 0
  | .net => k.network.rc < 0
  | .proc => k.proc.rc < 0
  | .entropy => k.entropy.rc < 0
  | .self => k.self.rc < 0
  | .thermal => k.thermal.rc < 0
  | .fileWatch => False
  | .uptime => k.uptime.rc < 0
  | .tcp | .udp | .icmp => k.netstat.rc < 0
  | .fs => k.fs.rc < 0
  | .clock => k.clock.rc < 0

def Reads (t : CollectTick F) (g : MetricGroup) : Prop := Wanted t.set g ∧ ¬Failed t.collectors g

def ReadsList (t : CollectTick F) (l : MetricDetail) : Prop := hasGroup t.set.detail l.bit ∧ ¬Failed t.collectors (group l)

def wall (t : CollectTick F) : Int := t.sample.timestampNanos.toNat

def mono (t : CollectTick F) : Int := t.mono.toNat

/-- The wall clock moved on, and as far as the monotonic clock to within a second. -/
def ClocksAgree (p t : CollectTick F) : Prop :=
  wall p < wall t ∧ |(wall t - wall p) - (mono t - mono p)| ≤ 1000000000

/-- Where the clocks of the two ticks are known, they agree about the time between them. -/
def ClockCheck (p t : CollectTick F) : Prop :=
  wall p ≠ 0 → mono p ≠ 0 → mono t ≠ 0 → mono p < mono t → ClocksAgree p t

def previous (before : List (ServeTick F)) : Option (CollectTick F) :=
  match before.getLast? with
  | some (.collect p) => some p
  | _ => none

def GroupZero [Zero F] (s : SampleOf F) : MetricGroup → Prop
  | .cpu => s.cpu = 0
  | .mem => s.mem = 0
  | .swap => s.swap = 0
  | .load => s.load = 0
  | .disk => s.disk = 0
  | .net => s.net = 0
  | .proc => s.proc = 0
  | .entropy => s.entropy = 0
  | .self => s.self = 0
  | .thermal => s.thermal = 0
  | .fileWatch => s.fileWatch = 0
  | .uptime => s.uptimeSeconds = 0
  | .tcp => s.tcp = 0
  | .udp => s.udp = 0
  | .fs => s.fs = 0
  | .clock => s.clock = 0
  | .icmp => s.icmp = 0

/-- A tick after the one `p`, if that one read anything, and what it shows. -/
structure ShowsReadings [Zero F] (p : Option (CollectTick F)) (t : CollectTick F) (s : SampleOf F) (d : DetailC) : Prop where
  rate : ∀ g ∈ rates, hasGroup s.groups g.bit ↔ Reads t g ∧ ∃ last, p = some last ∧ Reads last g ∧ ClockCheck last t
  other : ∀ g ∉ rates, hasGroup s.groups g.bit ↔ Reads t g
  disjoint : s.groups &&& s.baseline = 0
  union : ∀ g : MetricGroup, hasGroup (s.groups ||| s.baseline) g.bit ↔ Reads t g
  mask : ∀ bit, IsBit bit →
    (hasGroup ((s.groups ||| s.baseline) &&& kGroupsAll) bit ↔ ∃ g : MetricGroup, g.bit = bit ∧ Reads t g)
  within : s.groups &&& ~~~kGroupsAll = 0
  zero : ∀ g : MetricGroup, ¬hasGroup s.groups g.bit → GroupZero s g
  rateList : ∀ l ∈ rateLists,
    hasGroup d.collected l.bit ↔ ReadsList t l ∧ ∃ last, p = some last ∧ ReadsList last l ∧ ClockCheck last t
  otherList : ∀ l ∉ rateLists, hasGroup d.collected l.bit ↔ ReadsList t l
  disjointList : d.collected &&& d.baseline = 0
  unionList : ∀ l : MetricDetail, hasGroup (d.collected ||| d.baseline) l.bit ↔ ReadsList t l
  maskList : ∀ bit, IsBit bit →
    (hasGroup (d.collected ||| d.baseline) bit ↔ ∃ l : MetricDetail, l.bit = bit ∧ ReadsList t l)
  empty : ∀ l : MetricDetail, ¬hasGroup d.collected l.bit → d.length l = 0

end Budyk.Spec
