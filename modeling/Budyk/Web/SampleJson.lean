import Budyk.Core.Detail
import Budyk.Core.JsonText
import Budyk.Core.MetricSet
import Budyk.Lib.Numeral

/-! Samples and their detail as the daemon writes them in JSON, from `web/json.cpp`. -/

namespace Budyk

/-! ## Doubles -/

def Double.negative (v : Double) : Bool := v.bits >>> 63 = 1

def Double.isFinite (v : Double) : Bool := (v.bits >>> 52) &&& 0x7ff ≠ 0x7ff

/-- The absolute value of a finite one. -/
def Double.magnitude (v : Double) : ℚ :=
  let e := ((v.bits >>> 52) &&& 0x7ff).toNat
  let m := (v.bits &&& 0xfffffffffffff).toNat
  if e = 0 then m * 2 ^ (-1074 : Int) else (2 ^ 52 + m) * 2 ^ ((e : Int) - 1075)

namespace Web
open Lib

/-! ## Values and keys -/

/-- What `append_double` prints: `%.6g` up to a million, a whole number whole, the rest with 15 digits. -/
def doubleNumeral (v : Double) : Numeral :=
  let v := if v.isFinite then v else 0
  if v.magnitude < 10 ^ 6 then generalNumeral 6 v.negative v.magnitude
  else if v.magnitude = ⌊v.magnitude⌋ ∧ v.magnitude < 10 ^ 15 then wholeNumeral v.negative v.magnitude
  else generalNumeral 15 v.negative v.magnitude

inductive Value
  | number (n : Numeral)
  | flag (b : Bool)
  | string (v : List UInt8)

def Value.text : Value → List UInt8
  | number n => n.text
  | flag b => Lib.text (if b then "true" else "false")
  | string v => quote :: jsonEscape v ++ [quote]

/-- A key and its value. -/
structure Member where
  key : String
  value : Value

def Member.text (m : Member) : List UInt8 := quote :: Lib.text m.key ++ [quote, 58] ++ m.value.text

def kvDouble (key : String) (v : Double) : Member := ⟨key, .number (doubleNumeral v)⟩
def kvUint (key : String) (v : UInt64) : Member := ⟨key, .number (.ofNat v.toNat)⟩
def kvInt (key : String) (v : Int) : Member := ⟨key, .number (.ofInt v)⟩
def kvStr (key : String) (v : List UInt8) : Member := ⟨key, .string v⟩
def kvBool (key : String) (b : Bool) : Member := ⟨key, .flag b⟩

def commas (items : List (List UInt8)) : List UInt8 := [44].intercalate items

def object (members : List Member) : List UInt8 := 123 :: commas (members.map Member.text) ++ [125]

/-! ## Names -/

def kGroupNames : List (String × UInt32) :=
  [("cpu", kGroupCpu), ("mem", kGroupMem), ("swap", kGroupSwap), ("load", kGroupLoad), ("disk", kGroupDisk),
    ("net", kGroupNet), ("proc", kGroupProc), ("entropy", kGroupEntropy), ("self", kGroupSelf),
    ("thermal", kGroupThermal), ("file_watch", kGroupFileWatch), ("uptime", kGroupUptime), ("tcp", kGroupTcp),
    ("udp", kGroupUdp), ("fs", kGroupFs), ("clock", kGroupClock), ("icmp", kGroupIcmp)]

def kCollections : List (String × UInt32) :=
  [("cpu.cores", kDetailCores), ("disk.devices", kDetailDisks), ("net.interfaces", kDetailInterfaces),
    ("fs.mounts", kDetailMounts), ("proc.top", kDetailProcesses)]

def metricGroupName (bit : UInt32) : Option String := (kGroupNames.find? fun g => g.2 = bit).map Prod.fst

def metricDetailName (bit : UInt32) : Option String := (kCollections.find? fun c => c.2 = bit).map Prod.fst

/-- The bits 1, 2, 4, … up to `last`. -/
def bitsTo (last : UInt32) : List UInt32 :=
  ((List.range 32).map fun i => (1 : UInt32) <<< UInt32.ofNat i).takeWhile (· ≤ last)

def namesOf (bits : UInt32) (nameOf : UInt32 → Option String) (last : UInt32) : List String :=
  (bitsTo last).filterMap fun bit => if bits &&& bit ≠ 0 then nameOf bit else none

/-- `"key":["name",...],` -/
def appendNames (key : String) (bits : UInt32) (nameOf : UInt32 → Option String) (last : UInt32) : List UInt8 :=
  quote :: text key ++ text "\":[" ++
    commas ((namesOf bits nameOf last).map fun name => quote :: text name ++ [quote]) ++ text "],"

/-! ## A sample -/

def sampleSections (s : Sample) : List (String × List Member) :=
  [("cpu", [kvDouble "total_percent" s.cpu.totalPercent, kvUint "count" s.cpu.count.toUInt64,
      kvDouble "user_percent" s.cpu.userPercent, kvDouble "system_percent" s.cpu.systemPercent,
      kvDouble "iowait_percent" s.cpu.iowaitPercent, kvDouble "irq_percent" s.cpu.irqPercent,
      kvDouble "steal_percent" s.cpu.stealPercent, kvDouble "idle_percent" s.cpu.idlePercent]),
   ("mem", [kvUint "total" s.mem.total, kvUint "available" s.mem.available,
      kvDouble "available_percent" s.mem.availablePercent]),
   ("swap", [kvUint "total" s.swap.total, kvUint "used" s.swap.used, kvDouble "used_percent" s.swap.usedPercent]),
   ("load", [kvDouble "avg_1m" s.load.avg1m, kvDouble "avg_5m" s.load.avg5m, kvDouble "avg_15m" s.load.avg15m]),
   ("disk", [kvUint "read_bytes_per_sec" s.disk.readBytesPerSec, kvUint "write_bytes_per_sec" s.disk.writeBytesPerSec,
      kvUint "device_count" s.disk.deviceCount.toUInt64]),
   ("net", [kvUint "rx_bytes_per_sec" s.net.rxBytesPerSec, kvUint "tx_bytes_per_sec" s.net.txBytesPerSec,
      kvUint "interface_count" s.net.interfaceCount.toUInt64]),
   ("proc", [kvUint "total" s.proc.total.toUInt64, kvUint "running" s.proc.running.toUInt64,
      kvUint "sleeping" s.proc.sleeping.toUInt64, kvUint "blocked" s.proc.blocked.toUInt64,
      kvUint "stopped" s.proc.stopped.toUInt64, kvUint "zombie" s.proc.zombie.toUInt64,
      kvUint "threads" s.proc.threads.toUInt64]),
   ("entropy", [kvUint "available_bits" s.entropy.availableBits.toUInt64, kvBool "present" s.entropy.present]),
   ("self", [kvUint "rss_bytes" s.self.rssBytes, kvUint "peak_rss_bytes" s.self.peakRssBytes,
      kvDouble "cpu_user_seconds" s.self.cpuUserSeconds, kvDouble "cpu_system_seconds" s.self.cpuSystemSeconds]),
   ("thermal", [kvDouble "max_celsius" s.thermal.maxCelsius, kvUint "sensor_count" s.thermal.sensorCount.toUInt64,
      kvBool "present" s.thermal.present]),
   ("file_watch", [kvUint "events_this_tick" s.fileWatch.eventsThisTick.toUInt64,
      kvUint "watched_count" s.fileWatch.watchedCount.toUInt64, kvBool "present" s.fileWatch.present]),
   ("tcp", [kvUint "established" s.tcp.established.toUInt64, kvUint "time_wait" s.tcp.timeWait.toUInt64,
      kvDouble "active_opens_per_sec" s.tcp.activeOpensPerSec, kvDouble "passive_opens_per_sec" s.tcp.passiveOpensPerSec,
      kvDouble "retransmits_per_sec" s.tcp.retransmitsPerSec, kvDouble "in_segments_per_sec" s.tcp.inSegmentsPerSec,
      kvDouble "out_segments_per_sec" s.tcp.outSegmentsPerSec, kvDouble "in_errors_per_sec" s.tcp.inErrorsPerSec,
      kvBool "present" s.tcp.present]),
   ("udp", [kvDouble "in_datagrams_per_sec" s.udp.inDatagramsPerSec,
      kvDouble "out_datagrams_per_sec" s.udp.outDatagramsPerSec, kvDouble "no_port_per_sec" s.udp.noPortPerSec,
      kvDouble "in_errors_per_sec" s.udp.inErrorsPerSec, kvBool "present" s.udp.present]),
   ("icmp", [kvDouble "in_msgs_per_sec" s.icmp.inMsgsPerSec, kvDouble "out_msgs_per_sec" s.icmp.outMsgsPerSec,
      kvDouble "in_errors_per_sec" s.icmp.inErrorsPerSec,
      kvDouble "in_dest_unreachs_per_sec" s.icmp.inDestUnreachsPerSec, kvBool "present" s.icmp.present]),
   ("fs", [kvUint "count" s.fs.count.toUInt64, kvDouble "max_used_percent" s.fs.maxUsedPercent,
      kvDouble "max_inodes_used_percent" s.fs.maxInodesUsedPercent, kvBool "present" s.fs.present]),
   ("clock", [kvDouble "offset_ms" s.clock.offsetMs, kvDouble "max_error_ms" s.clock.maxErrorMs,
      kvBool "synced" s.clock.synced, kvBool "present" s.clock.present])]

/-- `"key":{...},` -/
def appendSection (part : String × List Member) : List UInt8 :=
  quote :: text part.1 ++ [quote, 58] ++ object part.2 ++ [44]

def sampleToJson (s : Sample) : List UInt8 :=
  123 :: (kvUint "ts" s.timestampNanos).text ++ [44] ++ (kvInt "level" s.level.toNat).text ++ [44] ++
    (if s.folded then (kvBool "folded" true).text ++ [44] else []) ++
    appendNames "groups" s.groups metricGroupName kGroupsAll ++
    (if s.baseline ≠ 0 then appendNames "baseline" s.baseline metricGroupName kGroupsAll else []) ++
    (sampleSections s).flatMap appendSection ++
    (kvDouble "uptime_seconds" s.uptimeSeconds).text ++ [125]

/-! ## The detail -/

def coreMembers (c : CoreUse) : List Member :=
  [kvUint "id" c.id.toUInt64, kvDouble "total_percent" c.totalPercent, kvDouble "user_percent" c.userPercent,
    kvDouble "system_percent" c.systemPercent, kvDouble "iowait_percent" c.iowaitPercent,
    kvDouble "irq_percent" c.irqPercent, kvDouble "steal_percent" c.stealPercent, kvDouble "idle_percent" c.idlePercent]

def diskMembers (x : DiskDev) : List Member :=
  [kvStr "name" x.name, kvUint "read_bytes_per_sec" x.readBytesPerSec, kvUint "write_bytes_per_sec" x.writeBytesPerSec,
    kvDouble "reads_per_sec" x.readsPerSec, kvDouble "writes_per_sec" x.writesPerSec,
    kvDouble "busy_percent" x.busyPercent]

def ifaceMembers (x : Iface) : List Member :=
  [kvStr "name" x.name, kvUint "rx_bytes_per_sec" x.rxBytesPerSec, kvUint "tx_bytes_per_sec" x.txBytesPerSec,
    kvDouble "rx_packets_per_sec" x.rxPacketsPerSec, kvDouble "tx_packets_per_sec" x.txPacketsPerSec,
    kvDouble "rx_errors_per_sec" x.rxErrorsPerSec, kvDouble "tx_errors_per_sec" x.txErrorsPerSec,
    kvDouble "rx_drops_per_sec" x.rxDropsPerSec, kvBool "up" (x.up ≠ 0)]

def mountMembers (x : Mount) : List Member :=
  [kvStr "mount" x.mount, kvStr "type" x.type, kvStr "device" x.device, kvUint "total_bytes" x.totalBytes,
    kvUint "used_bytes" x.usedBytes, kvUint "avail_bytes" x.availBytes, kvDouble "used_percent" x.usedPercent,
    kvUint "inodes_total" x.inodesTotal, kvUint "inodes_used" x.inodesUsed,
    kvDouble "inodes_used_percent" x.inodesUsedPercent]

/-- `state` as a C string of one character. -/
def ListedProcess.stateText (p : ListedProcess) : List UInt8 := cString [p.state]

def processMembers (p : ListedProcess) : List Member :=
  [kvInt "pid" p.pid, kvStr "name" p.name, kvStr "state" (ListedProcess.stateText p), kvUint "threads" p.threads.toUInt64,
    kvDouble "cpu_percent" p.cpuPercent, kvUint "rss_bytes" p.rssBytes]

def detailToJson (d : Detail) : List UInt8 :=
  123 :: appendNames "collected" d.collected metricDetailName kDetailAll ++
    (if d.baseline ≠ 0 then appendNames "baseline" d.baseline metricDetailName kDetailAll else []) ++
    text "\"cores\":[" ++ commas (d.cores.map fun c => object (coreMembers c)) ++
    text "],\"disks\":[" ++ commas (d.disks.map fun x => object (diskMembers x)) ++
    text "],\"interfaces\":[" ++ commas (d.ifaces.map fun x => object (ifaceMembers x)) ++
    text "],\"filesystems\":[" ++ commas (d.mounts.map fun x => object (mountMembers x)) ++
    text "],\"processes\":[" ++ commas (d.procs.map fun p => object (processMembers p)) ++ text "]\x7d"

/-! ## The body -/

def samplesToJson (samples : List Sample) (detail : Option (List UInt8)) : List UInt8 :=
  text "\x7b\"count\":" ++ decimal samples.length ++ text ",\"samples\":[" ++ commas (samples.map sampleToJson) ++ [93] ++
    (match detail with
      | some detail => if detail.isEmpty then [] else text ",\"detail\":" ++ detail
      | none => []) ++ text "\x7d\n"

end Web
end Budyk
