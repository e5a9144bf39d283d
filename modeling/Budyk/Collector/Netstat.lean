import Budyk.Core.Sample
import Budyk.Lib.Find
import Budyk.Lib.Text
import Mathlib.Data.Rat.Lemmas

/-! The TCP, UDP and ICMP rates of `collector/linux/netstat.c`. A rate is the exact value of the double the source
computes. -/

namespace Budyk.Collector
open Lib

/-! ## The counters of a read -/

/-- The lines of one protocol in `/proc/net/snmp`. -/
structure SnmpPair where
  names : List UInt8 := []
  values : List UInt8 := []

def SnmpPair.put (pair : SnmpPair) (line : List UInt8) : SnmpPair :=
  if pair.names = [] then { pair with names := line } else { pair with values := line }

structure SnmpPairs where
  tcp : SnmpPair := {}
  udp : SnmpPair := {}
  icmp : SnmpPair := {}

def snmpLine (pairs : SnmpPairs) (line : List UInt8) : SnmpPairs :=
  let line := cString line
  if (text "Tcp: ").isPrefixOf line then { pairs with tcp := pairs.tcp.put (line.drop 5) }
  else if (text "Udp: ").isPrefixOf line then { pairs with udp := pairs.udp.put (line.drop 5) }
  -- not `IcmpMsg:`
  else if (text "Icmp: ").isPrefixOf line then { pairs with icmp := pairs.icmp.put (line.drop 6) }
  else pairs

/-- What `strtok_r` cuts a line into. -/
def tokens (s : List UInt8) : List (List UInt8) := (s.splitOnP fun b => b = 32 || b = newline).filter (· ≠ [])

/-- None where the name is missing, or no number stands under it; the value is 0 then. -/
def snmpValue (pair : SnmpPair) (want : List UInt8) : Option UInt64 :=
  match ((tokens pair.names).zip (tokens pair.values)).find? fun column => column.1 = want with
  | none => none
  | some (_, v) => (strtoull v).map Prod.fst

structure TcpCounters where
  activeOpens : UInt64 := 0
  passiveOpens : UInt64 := 0
  retransmits : UInt64 := 0
  inSegments : UInt64 := 0
  outSegments : UInt64 := 0
  inErrors : UInt64 := 0

structure UdpCounters where
  inDatagrams : UInt64 := 0
  outDatagrams : UInt64 := 0
  noPort : UInt64 := 0
  inErrors : UInt64 := 0

structure IcmpCounters where
  inMsgs : UInt64 := 0
  outMsgs : UInt64 := 0
  inErrors : UInt64 := 0
  inUnreach : UInt64 := 0

structure SnmpRead where
  tcp : TcpCounters
  established : UInt64
  tcpOk : Bool
  udp : UdpCounters
  udpOk : Bool
  icmp : IcmpCounters
  icmpOk : Bool

/-- The columns in the order they are looked up, up to the first that fails; with `CurrEstab`, and whether none did. -/
def readTcp (pair : SnmpPair) : TcpCounters × UInt64 × Bool :=
  -- missing on very old kernels
  let inErrors := (snmpValue pair (text "InErrs")).getD 0
  match snmpValue pair (text "ActiveOpens") with
  | none => ({ inErrors }, 0, false)
  | some activeOpens =>
      match snmpValue pair (text "PassiveOpens") with
      | none => ({ activeOpens, inErrors }, 0, false)
      | some passiveOpens =>
          match snmpValue pair (text "CurrEstab") with
          | none => ({ activeOpens, passiveOpens, inErrors }, 0, false)
          | some established =>
              match snmpValue pair (text "InSegs") with
              | none => ({ activeOpens, passiveOpens, inErrors }, established, false)
              | some inSegments =>
                  match snmpValue pair (text "OutSegs") with
                  | none => ({ activeOpens, passiveOpens, inSegments, inErrors }, established, false)
                  | some outSegments =>
                      match snmpValue pair (text "RetransSegs") with
                      | none =>
                          ({ activeOpens, passiveOpens, inSegments, outSegments, inErrors }, established, false)
                      | some retransmits =>
                          (⟨activeOpens, passiveOpens, retransmits, inSegments, outSegments, inErrors⟩, established, true)

def readUdp (pair : SnmpPair) : UdpCounters × Bool :=
  match snmpValue pair (text "InDatagrams") with
  | none => ({}, false)
  | some inDatagrams =>
      match snmpValue pair (text "OutDatagrams") with
      | none => ({ inDatagrams }, false)
      | some outDatagrams =>
          match snmpValue pair (text "NoPorts") with
          | none => ({ inDatagrams, outDatagrams }, false)
          | some noPort =>
              match snmpValue pair (text "InErrors") with
              | none => ({ inDatagrams, outDatagrams, noPort }, false)
              | some inErrors => (⟨inDatagrams, outDatagrams, noPort, inErrors⟩, true)

def readIcmp (pair : SnmpPair) : IcmpCounters × Bool :=
  match snmpValue pair (text "InMsgs") with
  | none => ({}, false)
  | some inMsgs =>
      match snmpValue pair (text "OutMsgs") with
      | none => ({ inMsgs }, false)
      | some outMsgs =>
          match snmpValue pair (text "InErrors") with
          | none => ({ inMsgs, outMsgs }, false)
          | some inErrors =>
              match snmpValue pair (text "InDestUnreachs") with
              | none => ({ inMsgs, outMsgs, inErrors }, false)
              | some inUnreach => (⟨inMsgs, outMsgs, inErrors, inUnreach⟩, true)

/-- `sscanf(line, "%63s %llu", name, &v)` -/
def scanCounter (line : List UInt8) : Option (List UInt8 × UInt64) :=
  let s := (cString line).dropWhile isSpace
  let name := (s.takeWhile fun b => !isSpace b).take 63
  if name = [] then none else (strtoull (s.drop name.length)).map fun value => (name, value.1)

/-- A line of `/proc/net/snmp6`. -/
def udp6Line (udp : UdpCounters) (line : List UInt8) : UdpCounters :=
  match scanCounter line with
  | none => udp
  | some (name, v) =>
      if name = text "Udp6InDatagrams" then { udp with inDatagrams := udp.inDatagrams + v }
      else if name = text "Udp6OutDatagrams" then { udp with outDatagrams := udp.outDatagrams + v }
      else if name = text "Udp6NoPorts" then { udp with noPort := udp.noPort + v }
      else if name = text "Udp6InErrors" then { udp with inErrors := udp.inErrors + v }
      else udp

def readSnmp (snmp : List UInt8) (snmp6 : Option (List UInt8)) : SnmpRead :=
  let pairs := (fgetsLines 1024 snmp).foldl snmpLine {}
  let (tcp, established, tcpOk) := readTcp pairs.tcp
  let (udp, udpOk) := readUdp pairs.udp
  let (icmp, icmpOk) := readIcmp pairs.icmp
  { tcp, established, tcpOk, udpOk, icmp, icmpOk
    udp := match snmp6 with
      | none => udp
      | some file => (fgetsLines 1024 file).foldl udp6Line udp }

/-- `tw` of `/proc/net/sockstat`. -/
def timeWaitLine (tw : UInt64) (line : List UInt8) : UInt64 :=
  let line := cString line
  if (text "TCP: ").isPrefixOf line then
    match find (text " tw ") line with
    | none => tw
    | some p => ((strtoull (line.drop (p + 4))).map Prod.fst).getD 0
  else tw

def readTimeWait : Option (List UInt8) → UInt64
  | none => 0
  | some file => (fgetsLines 1024 file).foldl timeWaitLine 0

/-! ## The rates -/

def netRate (now prev dns : UInt64) : Rat :=
  if dns = 0 then 0
  else if now < prev then
    -- a wrap: from the upper half of 32 bits to the lower
    if prev < (1 : UInt64) <<< 31 ∨ prev ≥ (1 : UInt64) <<< 32 ∨ now ≥ (1 : UInt64) <<< 31 then 0
    else (((1 : UInt64) <<< 32 - prev + now).toNat : Rat) * 1000000000 / dns.toNat
  else ((now - prev).toNat : Rat) * 1000000000 / dns.toNat

structure NetstatCtx where
  tcp : TcpCounters := {}
  udp : UdpCounters := {}
  icmp : IcmpCounters := {}
  prevNs : UInt64 := 0
  hasPrev : Bool := false

/-- What a call finds; `snmp` is the error number where the file can not be opened. -/
structure NetstatTick where
  timestampNanos : UInt64
  snmp : Except Nat (List UInt8)
  snmp6 : Option (List UInt8)
  sockstat : Option (List UInt8)

structure NetstatStats where
  tcp : TcpStats Rat
  udp : UdpStats Rat
  icmp : IcmpStats Rat

abbrev ENODATA : Int := 61

def tcpStats (ctx : NetstatCtx) (read : SnmpRead) (timeWait : UInt64) (havePrev : Bool) (dns : UInt64) : TcpStats Rat :=
  if read.tcpOk then
    let stats := { (0 : TcpStats Rat) with present := true, established := read.established.toUInt32, timeWait := timeWait.toUInt32 }
    if havePrev then
      { stats with
        activeOpensPerSec := netRate read.tcp.activeOpens ctx.tcp.activeOpens dns
        passiveOpensPerSec := netRate read.tcp.passiveOpens ctx.tcp.passiveOpens dns
        retransmitsPerSec := netRate read.tcp.retransmits ctx.tcp.retransmits dns
        inSegmentsPerSec := netRate read.tcp.inSegments ctx.tcp.inSegments dns
        outSegmentsPerSec := netRate read.tcp.outSegments ctx.tcp.outSegments dns
        inErrorsPerSec := netRate read.tcp.inErrors ctx.tcp.inErrors dns }
    else stats
  else 0

def udpStats (ctx : NetstatCtx) (read : SnmpRead) (havePrev : Bool) (dns : UInt64) : UdpStats Rat :=
  if read.udpOk then
    if havePrev then
      { present := true
        inDatagramsPerSec := netRate read.udp.inDatagrams ctx.udp.inDatagrams dns
        outDatagramsPerSec := netRate read.udp.outDatagrams ctx.udp.outDatagrams dns
        noPortPerSec := netRate read.udp.noPort ctx.udp.noPort dns
        inErrorsPerSec := netRate read.udp.inErrors ctx.udp.inErrors dns }
    else { (0 : UdpStats Rat) with present := true }
  else 0

def icmpStats (ctx : NetstatCtx) (read : SnmpRead) (havePrev : Bool) (dns : UInt64) : IcmpStats Rat :=
  if read.icmpOk then
    if havePrev then
      { present := true
        inMsgsPerSec := netRate read.icmp.inMsgs ctx.icmp.inMsgs dns
        outMsgsPerSec := netRate read.icmp.outMsgs ctx.icmp.outMsgs dns
        inErrorsPerSec := netRate read.icmp.inErrors ctx.icmp.inErrors dns
        inDestUnreachsPerSec := netRate read.icmp.inUnreach ctx.icmp.inUnreach dns }
    else { (0 : IcmpStats Rat) with present := true }
  else 0

/-- `budyk_collect_netstat_linux`: what it returns, the sample's part, and the context afterwards. -/
def collectNetstat (ctx : NetstatCtx) (tick : NetstatTick) : Int × NetstatStats × NetstatCtx :=
  match tick.snmp with
  | .error errno => (-errno, ⟨0, 0, 0⟩, ctx)
  | .ok snmp =>
      let read := readSnmp snmp tick.snmp6
      let havePrev := ctx.hasPrev && tick.timestampNanos > ctx.prevNs
      let dns := if havePrev then tick.timestampNanos - ctx.prevNs else 0
      (if read.tcpOk || read.udpOk || read.icmpOk then 0 else -ENODATA,
        ⟨tcpStats ctx read (readTimeWait tick.sockstat) havePrev dns, udpStats ctx read havePrev dns,
          icmpStats ctx read havePrev dns⟩,
        ⟨read.tcp, read.udp, read.icmp, tick.timestampNanos, true⟩)

end Budyk.Collector
