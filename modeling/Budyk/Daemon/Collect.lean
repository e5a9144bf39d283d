import Budyk.Core.MetricSet

/-! One collection tick, from `daemon/collect.cpp`, and the ticks of the serve loop around it.

What the platform's collectors answer is given with the tick: a return code, and what it leaves in the shim sample and,
where it is asked for a list, in the detail. -/

namespace Budyk.Daemon

/-- `budyk_sample_c`: what the collectors fill. -/
structure SampleC (F : Type) where
  cpu : CpuStats F
  mem : MemStats F
  swap : SwapStats F
  load : LoadStats F
  disk : DiskStats
  net : NetStats
  proc : ProcessStats
  entropy : EntropyStats
  self : SelfStats F
  thermal : ThermalStats F
  tcp : TcpStats F
  udp : UdpStats F
  icmp : IcmpStats F
  fs : FsStats F
  fsUnreadable : UInt32
  clock : ClockStats F
  uptimeSeconds : F

instance {F : Type} [Zero F] : Zero (SampleC F) :=
  ⟨⟨0, 0, 0, 0, 0, 0, 0, 0, 0, 0, 0, 0, 0, 0, 0, 0, 0⟩⟩

/-- `budyk_detail_c`: how long each list is, and which of them this tick has. -/
structure DetailC where
  collected : UInt32 := 0
  baseline : UInt32 := 0
  ncores : UInt32 := 0
  ndisks : UInt32 := 0
  nifaces : UInt32 := 0
  nmounts : UInt32 := 0
  nprocs : UInt32 := 0
  deriving DecidableEq

def DetailC.length (d : DetailC) : MetricDetail → UInt32
  | .cores => d.ncores
  | .disks => d.ndisks
  | .interfaces => d.nifaces
  | .mounts => d.nmounts
  | .processes => d.nprocs

structure CollectContext where
  detail : DetailC := {}
  lastGroups : UInt32 := 0
  lastDetail : UInt32 := 0
  failed : UInt32 := 0
  lastWallNs : UInt64 := 0
  lastMonoNs : UInt64 := 0
  monoNowNs : UInt64 := 0
  fsUnreadable : UInt32 := 0
  cut : UInt32 := 0
  deriving DecidableEq

abbrev kCutDiskTotals : UInt32 := (1 : UInt32) <<< 16
abbrev kCutNetTotals : UInt32 := (1 : UInt32) <<< 17

abbrev BUDYK_MAX_TRACKED_PROCS : UInt32 := 8192

structure Collector (F : Type) where
  rc : Int
  sample : SampleC F → SampleC F
  detail : DetailC → DetailC

/-- What every collector answers on one tick, were it called; `diskNdev` and `netNdev` are the devices the totals
follow after it. -/
structure Collectors (F : Type) where
  cpu : Collector F
  memory : Collector F
  uptime : Collector F
  load : Collector F
  disk : Collector F
  diskNdev : UInt32
  network : Collector F
  netNdev : UInt32
  proc : Collector F
  entropy : Collector F
  self : Collector F
  thermal : Collector F
  netstat : Collector F
  fs : Collector F
  clock : Collector F

inductive CollectLog
  | collectingFailed (group : UInt32) (rc : Int)
  | cutShort (found : UInt32) (what : String) (shown : String) (kept : UInt32)
  | cannotReach (mountPoints : UInt32)
  | reachableAgain
  deriving DecidableEq

abbrev kNetstat : UInt32 := kGroupTcp ||| kGroupUdp ||| kGroupIcmp

abbrev kRateGroups : UInt32 := kGroupCpu ||| kGroupDisk ||| kGroupNet ||| kNetstat

abbrev kRateLists : UInt32 := kDetailCores ||| kDetailDisks ||| kDetailInterfaces ||| kDetailProcesses

def lists (set : MetricSet) : UInt32 := set.detail &&& kDetailAll

def named (set : MetricSet) : UInt32 :=
  let want := set.groups ||| kGroupsMinimal
  let want := if hasGroup (lists set) kDetailDisks then want ||| kGroupDisk else want
  let want := if hasGroup (lists set) kDetailInterfaces then want ||| kGroupNet else want
  let want := if hasGroup (lists set) kDetailMounts then want ||| kGroupFs else want
  if hasGroup (lists set) kDetailProcesses then want ||| kGroupProc else want

/-- tcp, udp and icmp come from one read. -/
def want (set : MetricSet) : UInt32 :=
  if hasGroup (named set) kNetstat then named set ||| kNetstat else named set

section
variable {F : Type} [Zero F]

/-- A line of `collect_one` that calls a collector: the group it is called for (none: on every tick), the groups it
reads, and the list it may be given. -/
structure Call (F : Type) where
  wanted : Option UInt32
  groups : UInt32
  collector : Collector F
  list : UInt32 := 0

def Collectors.calls (k : Collectors F) : List (Call F) :=
  [⟨none, kGroupCpu, k.cpu, kDetailCores⟩,
   ⟨none, kGroupMem ||| kGroupSwap, k.memory, 0⟩,
   ⟨none, kGroupUptime, k.uptime, 0⟩,
   ⟨none, kGroupLoad, k.load, 0⟩,
   ⟨some kGroupDisk, kGroupDisk, k.disk, kDetailDisks⟩,
   ⟨some kGroupNet, kGroupNet, k.network, kDetailInterfaces⟩,
   ⟨some kGroupProc, kGroupProc, k.proc, kDetailProcesses⟩,
   ⟨some kGroupEntropy, kGroupEntropy, k.entropy, 0⟩,
   ⟨some kGroupSelf, kGroupSelf, k.self, 0⟩,
   ⟨some kGroupThermal, kGroupThermal, k.thermal, 0⟩,
   ⟨some kGroupTcp, kNetstat, k.netstat, 0⟩,
   ⟨some kGroupFs, kGroupFs, k.fs, kDetailMounts⟩,
   ⟨some kGroupClock, kGroupClock, k.clock, 0⟩]

def Call.made (call : Call F) (want : UInt32) : Bool := call.wanted.all (hasGroup want)

structure Collecting (F : Type) where
  c : SampleC F
  d : DetailC
  failed : UInt32
  log : List CollectLog

/-- A call and `run(groups, rc)`. -/
def Collecting.run (ctx : CollectContext) (set : MetricSet) (st : Collecting F) (call : Call F) : Collecting F :=
  if call.made (want set) then
    let st := { st with
      c := call.collector.sample st.c
      d := if hasGroup (lists set) call.list then call.collector.detail st.d else st.d }
    if call.collector.rc ≥ 0 then st
    else { st with
      failed := st.failed ||| call.groups
      log := if hasGroup ctx.failed call.groups then st.log
        else st.log ++ [.collectingFailed (call.groups &&& (0 - call.groups)) call.collector.rc] }
  else st

def collect (ctx : CollectContext) (set : MetricSet) (k : Collectors F) : Collecting F :=
  let d := { ctx.detail with ncores := 0, ndisks := 0, nifaces := 0, nmounts := 0, nprocs := 0 }
  k.calls.foldl (Collecting.run ctx set) { c := 0, d, failed := 0, log := [] }

structure CutCheck where
  made : Bool
  bit : UInt32
  found : UInt32
  kept : UInt32
  what : String
  shown : String

def deviceChecks (set : MetricSet) (k : Collectors F) (st : Collecting F) : List CutCheck :=
  let reads group := !hasGroup st.failed group && hasGroup (want set) group
  let list bit := hasGroup (lists set) bit
  let disks := st.c.disk.deviceCount
  let interfaces := st.c.net.interfaceCount
  [⟨reads kGroupDisk, kCutDiskTotals, disks, k.diskNdev, "disks", "the disk totals follow"⟩,
   ⟨reads kGroupDisk && list kDetailDisks, kDetailDisks, disks, st.d.ndisks, "disks", "disk.devices lists"⟩,
   ⟨reads kGroupNet, kCutNetTotals, interfaces, k.netNdev, "network interfaces", "the network totals follow"⟩,
   ⟨reads kGroupNet && list kDetailInterfaces, kDetailInterfaces, interfaces, st.d.nifaces, "network interfaces",
    "net.interfaces lists"⟩,
   ⟨reads kGroupFs && list kDetailMounts, kDetailMounts, st.c.fs.count, st.d.nmounts, "filesystems",
    "fs.mounts lists"⟩,
   ⟨!hasGroup st.failed kGroupCpu && list kDetailCores, kDetailCores, st.c.cpu.count, st.d.ncores, "CPUs",
    "cpu.cores lists"⟩]

def processesCheck (set : MetricSet) (st : Collecting F) : CutCheck :=
  { made := !hasGroup st.failed kGroupProc && hasGroup (want set) kGroupProc && hasGroup (lists set) kDetailProcesses
    bit := kDetailProcesses
    found := st.c.proc.total
    kept := BUDYK_MAX_TRACKED_PROCS
    what := "processes"
    shown := "proc.top ranks by CPU" }

def CutCheck.exceeds (check : CutCheck) : Bool := check.made && check.found > check.kept

def CutCheck.log (ctx : CollectContext) (check : CutCheck) : List CollectLog :=
  if check.exceeds && !hasGroup ctx.cut check.bit then
    [.cutShort check.found check.what check.shown check.kept]
  else []

/-- A check that was not made keeps what it last found. -/
def cutShort (ctx : CollectContext) (checks : List CutCheck) : UInt32 :=
  let bits (checks : List CutCheck) := checks.foldl (fun bits check => bits ||| check.bit) 0
  (ctx.cut &&& ~~~bits (checks.filter CutCheck.made)) ||| bits (checks.filter CutCheck.exceeds)

def unreadable (ctx : CollectContext) (set : MetricSet) (st : Collecting F) : UInt32 × List CollectLog :=
  if !hasGroup st.failed kGroupFs && hasGroup (want set) kGroupFs && st.c.fsUnreadable != ctx.fsUnreadable then
    (st.c.fsUnreadable, [if st.c.fsUnreadable > 0 then .cannotReach st.c.fsUnreadable else .reachableAgain])
  else (ctx.fsUnreadable, [])

def SampleC.copy (c : SampleC F) (s : SampleOf F) : SampleOf F :=
  { s with
    cpu := c.cpu, mem := c.mem, swap := c.swap, load := c.load, disk := c.disk, net := c.net, proc := c.proc
    entropy := c.entropy, self := c.self, thermal := c.thermal, tcp := c.tcp, udp := c.udp, icmp := c.icmp
    fs := c.fs, clock := c.clock, uptimeSeconds := c.uptimeSeconds }

/-- A list goes with its group's collector. -/
def failedLists (failed : UInt32) : UInt32 :=
  let lists := if hasGroup failed kGroupCpu then kDetailCores else 0
  let lists := if hasGroup failed kGroupDisk then lists ||| kDetailDisks else lists
  let lists := if hasGroup failed kGroupNet then lists ||| kDetailInterfaces else lists
  let lists := if hasGroup failed kGroupFs then lists ||| kDetailMounts else lists
  if hasGroup failed kGroupProc then lists ||| kDetailProcesses else lists

/-- The wall clock and the monotonic clock disagree about the interval since the previous read. -/
def clockStepped (ctx : CollectContext) (wall mono : UInt64) : Bool :=
  if mono != 0 && ctx.lastWallNs != 0 && ctx.lastMonoNs != 0 && mono > ctx.lastMonoNs then
    let monoDt := mono - ctx.lastMonoNs
    let wallDt := if wall > ctx.lastWallNs then wall - ctx.lastWallNs else 0
    let off := if monoDt > wallDt then monoDt - wallDt else wallDt - monoDt
    wallDt == 0 || off > 1000000000
  else false

/-- What of `read` is a reading: a rate needs the previous tick's too. -/
def shown (stepped : Bool) (rates last read : UInt32) : UInt32 :=
  let have' := read &&& ~~~(rates &&& ~~~last)
  if stepped then have' &&& ~~~rates else have'

def DetailC.keep (d : DetailC) (lists : UInt32) : DetailC :=
  { d with
    ncores := if hasGroup lists kDetailCores then d.ncores else 0
    ndisks := if hasGroup lists kDetailDisks then d.ndisks else 0
    nifaces := if hasGroup lists kDetailInterfaces then d.nifaces else 0
    nmounts := if hasGroup lists kDetailMounts then d.nmounts else 0
    nprocs := if hasGroup lists kDetailProcesses then d.nprocs else 0 }

structure Collected (F : Type) where
  s : SampleOf F
  ctx : CollectContext
  log : List CollectLog

def collectOne (s : SampleOf F) (ctx : CollectContext) (set : MetricSet) (k : Collectors F) : Collected F :=
  let st := collect ctx set k
  let devices := deviceChecks set k st
  let processes := processesCheck set st
  let (fsUnreadable, fsLog) := unreadable ctx set st
  let read := want set &&& ~~~st.failed
  let readLists := lists set &&& ~~~failedLists st.failed
  let stepped := clockStepped ctx s.timestampNanos ctx.monoNowNs
  let have' := shown stepped kRateGroups ctx.lastGroups read
  let haveLists := shown stepped kRateLists ctx.lastDetail readLists
  let s := clearGroups { st.c.copy s with groups := kGroupsAll } (kGroupsAll &&& ~~~have')
  { s := { s with baseline := read &&& ~~~have' }
    ctx := { ctx with
      detail := { st.d.keep haveLists with collected := haveLists, baseline := readLists &&& ~~~haveLists }
      lastGroups := read
      lastDetail := readLists
      failed := st.failed
      lastWallNs := s.timestampNanos
      lastMonoNs := ctx.monoNowNs
      fsUnreadable
      cut := cutShort ctx (devices ++ [processes]) }
    log := st.log ++ devices.flatMap (CutCheck.log ctx) ++ fsLog ++ processes.log ctx }

/-- A collecting tick: the sample as the serve loop starts it, the monotonic clock, the level's set, and what the
collectors answer. -/
structure CollectTick (F : Type) where
  sample : SampleOf F
  mono : UInt64
  set : MetricSet
  collectors : Collectors F

/-- A tick of the serve loop. On one whose level collects nothing it only forgets the previous read. -/
inductive ServeTick (F : Type)
  | collect (t : CollectTick F)
  | idle

def CollectContext.collected (ctx : CollectContext) (t : CollectTick F) : Collected F :=
  collectOne t.sample { ctx with monoNowNs := t.mono } t.set t.collectors

def CollectContext.tick (ctx : CollectContext) : ServeTick F → CollectContext
  | .collect t => (ctx.collected t).ctx
  | .idle => { ctx with lastGroups := 0, lastDetail := 0 }

def CollectContext.after (ticks : List (ServeTick F)) : CollectContext :=
  ticks.foldl CollectContext.tick {}

end

end Budyk.Daemon
