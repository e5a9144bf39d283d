import Budyk.Collector.Netstat
import Budyk.Lib.Along
import Mathlib.Tactic.Ring
import Mathlib.Tactic.Positivity

/-! The TCP, UDP and ICMP rates over a run of ticks: which are changes between two readings. -/

namespace Budyk.Proof
open Lib Collector

inductive Counter
  | tcpActiveOpens
  | tcpPassiveOpens
  | tcpRetransmits
  | tcpInSegments
  | tcpOutSegments
  | tcpInErrors
  | udpInDatagrams
  | udpOutDatagrams
  | udpNoPort
  | udpInErrors
  | icmpInMsgs
  | icmpOutMsgs
  | icmpInErrors
  | icmpInUnreach

namespace Counter

/-- Whether the counter's protocol was read, and its rate is reported. -/
def ok (read : SnmpRead) : Counter → Bool
  | tcpActiveOpens | tcpPassiveOpens | tcpRetransmits | tcpInSegments | tcpOutSegments | tcpInErrors => read.tcpOk
  | udpInDatagrams | udpOutDatagrams | udpNoPort | udpInErrors => read.udpOk
  | icmpInMsgs | icmpOutMsgs | icmpInErrors | icmpInUnreach => read.icmpOk

def snmp6Name : Counter → Option (List UInt8)
  | udpInDatagrams => some (text "Udp6InDatagrams")
  | udpOutDatagrams => some (text "Udp6OutDatagrams")
  | udpNoPort => some (text "Udp6NoPorts")
  | udpInErrors => some (text "Udp6InErrors")
  | _ => none

def valueIn (tcp : TcpCounters) (udp : UdpCounters) (icmp : IcmpCounters) : Counter → UInt64
  | tcpActiveOpens => tcp.activeOpens
  | tcpPassiveOpens => tcp.passiveOpens
  | tcpRetransmits => tcp.retransmits
  | tcpInSegments => tcp.inSegments
  | tcpOutSegments => tcp.outSegments
  | tcpInErrors => tcp.inErrors
  | udpInDatagrams => udp.inDatagrams
  | udpOutDatagrams => udp.outDatagrams
  | udpNoPort => udp.noPort
  | udpInErrors => udp.inErrors
  | icmpInMsgs => icmp.inMsgs
  | icmpOutMsgs => icmp.outMsgs
  | icmpInErrors => icmp.inErrors
  | icmpInUnreach => icmp.inUnreach

def value (read : SnmpRead) (c : Counter) : UInt64 := c.valueIn read.tcp read.udp read.icmp

def rate (stats : NetstatStats) : Counter → Rat
  | tcpActiveOpens => stats.tcp.activeOpensPerSec
  | tcpPassiveOpens => stats.tcp.passiveOpensPerSec
  | tcpRetransmits => stats.tcp.retransmitsPerSec
  | tcpInSegments => stats.tcp.inSegmentsPerSec
  | tcpOutSegments => stats.tcp.outSegmentsPerSec
  | tcpInErrors => stats.tcp.inErrorsPerSec
  | udpInDatagrams => stats.udp.inDatagramsPerSec
  | udpOutDatagrams => stats.udp.outDatagramsPerSec
  | udpNoPort => stats.udp.noPortPerSec
  | udpInErrors => stats.udp.inErrorsPerSec
  | icmpInMsgs => stats.icmp.inMsgsPerSec
  | icmpOutMsgs => stats.icmp.outMsgsPerSec
  | icmpInErrors => stats.icmp.inErrorsPerSec
  | icmpInUnreach => stats.icmp.inDestUnreachsPerSec

end Counter

/-- A counter of 32 bits that went round. -/
def Wraps (prev now : Nat) : Prop := 2 ^ 31 ≤ prev ∧ prev < 2 ^ 32 ∧ now < 2 ^ 31

instance (prev now : Nat) : Decidable (Wraps prev now) := inferInstanceAs (Decidable (_ ∧ _ ∧ _))

/-- How far a counter went, modulo `2 ^ 32` where it wrapped; 0 where it went back. -/
def change (prev now : Nat) : Nat :=
  if prev ≤ now then now - prev else if Wraps prev now then (2 ^ 32 + now - prev) % 2 ^ 32 else 0

theorem change_eq_zero (prev now : Nat) : change prev now = 0 ↔ now ≤ prev ∧ ¬Wraps prev now := by
  unfold change
  split
  next grown =>
    unfold Wraps
    omega
  next fell =>
    split
    next wraps =>
      obtain ⟨low, high, upper⟩ := wraps
      exact iff_of_false (by omega) fun still => still.2 ⟨low, high, upper⟩
    next other => exact iff_of_true rfl ⟨by omega, other⟩

theorem netRate_eq (now prev dns : UInt64) :
    netRate now prev dns = (change prev.toNat now.toNat : Rat) * 1000000000 / dns.toNat := by
  unfold netRate change
  by_cases none : dns = 0
  · simp [none]
  · rw [if_neg none]
    by_cases fell : now < prev
    · have less := UInt64.lt_iff_toNat_lt.mp fell
      rw [if_pos fell, if_neg (show ¬prev.toNat ≤ now.toNat by omega)]
      have low : prev < (1 : UInt64) <<< 31 ↔ prev.toNat < 2 ^ 31 := UInt64.lt_iff_toNat_lt
      have high : prev ≥ (1 : UInt64) <<< 32 ↔ 2 ^ 32 ≤ prev.toNat := UInt64.le_iff_toNat_le
      have upper : now ≥ (1 : UInt64) <<< 31 ↔ 2 ^ 31 ≤ now.toNat := UInt64.le_iff_toNat_le
      simp only [low, high, upper]
      by_cases wraps : Wraps prev.toNat now.toNat
      · have bounds := wraps
        unfold Wraps at bounds
        have round : ((1 : UInt64) <<< 32 - prev + now).toNat = (2 ^ 32 + now.toNat - prev.toNat) % 2 ^ 32 := by
          have full : ((1 : UInt64) <<< 32).toNat = 2 ^ 32 := rfl
          rw [UInt64.toNat_add, UInt64.toNat_sub_of_le _ _ (UInt64.le_iff_toNat_le.mpr (by omega)), full]
          omega
        rw [if_neg (by omega), if_pos wraps, round]
      · have bounds := wraps
        unfold Wraps at bounds
        rw [if_pos (by omega), if_neg wraps]
        simp
    · have le := UInt64.le_iff_toNat_le.mp (UInt64.not_lt.mp fell)
      rw [if_neg fell, if_pos le, UInt64.toNat_sub_of_le _ _ (UInt64.not_lt.mp fell)]

theorem netRate_eq_zero {now prev dns : UInt64} (positive : 0 < dns.toNat) :
    netRate now prev dns = 0 ↔ now ≤ prev ∧ ¬Wraps prev.toNat now.toNat := by
  have nonzero : (dns.toNat : Rat) ≠ 0 := Nat.cast_ne_zero.mpr (Nat.ne_of_gt positive)
  rw [netRate_eq, UInt64.le_iff_toNat_le, ← change_eq_zero, div_eq_zero_iff, or_iff_left nonzero, mul_eq_zero,
    or_iff_left (by norm_num), Nat.cast_eq_zero]

/-! ## A run -/

structure SnmpFiles where
  snmp : List UInt8
  snmp6 : Option (List UInt8)

namespace SnmpFiles
variable (files : SnmpFiles)

def read : SnmpRead := readSnmp files.snmp files.snmp6

def hasInErrs : Bool :=
  (snmpValue ((fgetsLines 1024 files.snmp).foldl snmpLine {}).tcp (text "InErrs")).isSome

def hasLine (name : List UInt8) : Bool :=
  files.snmp6.any fun file => (fgetsLines 1024 file).any fun line => (scanCounter line).any (·.1 = name)

end SnmpFiles

/-- Which of the two files gave a counter. -/
structure Sources where
  snmp : Bool
  snmp6 : Bool
  deriving DecidableEq

/-- The protocol's columns are read together, but for the one that very old kernels do not have. -/
def Counter.hasColumn (files : SnmpFiles) : Counter → Bool
  | tcpInErrors => files.hasInErrs
  | _ => true

def Counter.sources (files : SnmpFiles) (c : Counter) : Sources where
  snmp := c.ok files.read && c.hasColumn files
  snmp6 := c.snmp6Name.any files.hasLine

/-- What a tick reads; none where the first of its files can not be opened. -/
def readTick (tick : NetstatTick) : Option SnmpFiles :=
  match tick.snmp with
  | .error _ => none
  | .ok snmp => some ⟨snmp, tick.snmp6⟩

/-- The context, beside the last tick that was read. -/
structure NetstatRun where
  before : Option (UInt64 × SnmpFiles)
  ctx : NetstatCtx

def NetstatRun.start : NetstatRun := ⟨none, {}⟩

/-- The counter was read from these files as it was from those before. -/
def ReadAgain (before files : SnmpFiles) (c : Counter) : Prop :=
  (c.sources before).snmp = true ∧ c.sources before = c.sources files

instance (before files : SnmpFiles) (c : Counter) : Decidable (ReadAgain before files c) :=
  inferInstanceAs (Decidable (_ ∧ _))

namespace NetstatRun

def step (s : NetstatRun) (tick : NetstatTick) : NetstatRun where
  before := match readTick tick with
    | none => s.before
    | some files => some (tick.timestampNanos, files)
  ctx := (collectNetstat s.ctx tick).2.2

/-- The change since the tick before, over the time between them, if the counter was read from the same sources on both,
else 0. -/
def rightRate (s : NetstatRun) (tick : NetstatTick) (files : SnmpFiles) (c : Counter) : Rat :=
  match s.before with
  | none => 0
  | some (beforeNs, before) =>
      if ReadAgain before files c then
        (change (c.value before.read).toNat (c.value files.read).toNat : Rat) * 1000000000 /
          (tick.timestampNanos.toNat - beforeNs.toNat : Nat)
      else 0

def RatesRight (s : NetstatRun) (tick : NetstatTick) : Prop :=
  ∀ files ∈ readTick tick, ∀ c : Counter, c.ok files.read = true →
    c.rate (collectNetstat s.ctx tick).2.1 = s.rightRate tick files c

/-- No counter returns that the tick before lacked, or had from other sources: or it is no further than what that tick
had left of it. -/
def NoneReturns (s : NetstatRun) (tick : NetstatTick) : Prop :=
  ∀ files ∈ readTick tick, ∀ c : Counter, c.ok files.read = true → ∀ last ∈ s.before, ReadAgain last.2 files c ∨
    (c.value files.read ≤ c.value last.2.read ∧ ¬Wraps (c.value last.2.read).toNat (c.value files.read).toNat)

def Stored (s : NetstatRun) : Prop :=
  match s.before with
  | none => s.ctx.hasPrev = false
  | some (beforeNs, before) => s.ctx = ⟨before.read.tcp, before.read.udp, before.read.icmp, beforeNs, true⟩

theorem step_stored (s : NetstatRun) (tick : NetstatTick) (stored : s.Stored) : (s.step tick).Stored := by
  unfold step Stored readTick collectNetstat
  cases tick.snmp with
  | error errno => exact stored
  | ok snmp => rfl

theorem rate_reported (ctx : NetstatCtx) (tick : NetstatTick) {files : SnmpFiles} (found : readTick tick = some files)
    (c : Counter) (ok : c.ok files.read = true) : c.rate (collectNetstat ctx tick).2.1 =
      if ctx.hasPrev && tick.timestampNanos > ctx.prevNs then
        netRate (c.value files.read) (c.valueIn ctx.tcp ctx.udp ctx.icmp) (tick.timestampNanos - ctx.prevNs)
      else 0 := by
  unfold readTick at found
  unfold collectNetstat
  cases opened : tick.snmp with
  | error errno =>
      rw [opened] at found
      cases found
  | ok snmp =>
      rw [opened] at found
      obtain rfl := Option.some.inj found
      dsimp only
      generalize (ctx.hasPrev && decide (tick.timestampNanos > ctx.prevNs)) = havePrev
      cases c with
      | _ =>
          have read_ := ok
          dsimp only [Counter.ok, SnmpFiles.read] at read_
          cases havePrev with
          | _ =>
              simp only [Counter.rate, tcpStats, udpStats, icmpStats, read_, if_true, Bool.false_eq_true, if_false]
              rfl

theorem right_iff {s : NetstatRun} {tick : NetstatTick} (stored : s.Stored)
    (later : ∀ last ∈ s.before, last.1 < tick.timestampNanos) : s.RatesRight tick ↔ s.NoneReturns tick := by
  unfold RatesRight NoneReturns
  refine forall_congr' fun files => forall_congr' fun found => forall_congr' fun c => forall_congr' fun ok => ?_
  rw [rate_reported s.ctx tick found c ok, rightRate]
  unfold Stored at stored
  cases before : s.before with
  | none =>
      rw [before] at stored
      simp [show s.ctx.hasPrev = false from stored]
  | some last =>
      obtain ⟨beforeNs, last⟩ := last
      rw [before] at stored
      have less : beforeNs < tick.timestampNanos := later _ before
      have interval : (tick.timestampNanos - beforeNs).toNat = tick.timestampNanos.toNat - beforeNs.toNat :=
        UInt64.toNat_sub_of_le _ _ (UInt64.le_of_lt less)
      have positive : 0 < (tick.timestampNanos - beforeNs).toNat := by
        rw [interval]
        exact Nat.sub_pos_of_lt (UInt64.lt_iff_toNat_lt.mp less)
      rw [show s.ctx = _ from stored]
      dsimp only
      rw [if_pos (by simpa using less)]
      have value : c.valueIn last.read.tcp last.read.udp last.read.icmp = c.value last.read := rfl
      rw [value]
      simp only [Option.mem_some, forall_eq']
      by_cases again : ReadAgain last files c
      · rw [if_pos again, netRate_eq, interval]
        exact iff_of_true rfl (.inl again)
      · rw [if_neg again, netRate_eq_zero positive]
        exact (or_iff_right again).symm

/-- Between ticks that come later and later, every rate of a run is right exactly when no protocol returns in it. -/
theorem run_right_iff (ticks : List NetstatTick) {s : NetstatRun} (stored : s.Stored)
    (later : ∀ last ∈ s.before, ∀ tick ∈ ticks, last.1 < tick.timestampNanos)
    (increasing : ticks.Pairwise fun tick next => tick.timestampNanos < next.timestampNanos) :
    Along step RatesRight s ticks ↔ Along step NoneReturns s ticks := by
  induction ticks generalizing s with
  | nil => exact Iff.rfl
  | cons tick ticks ih =>
      obtain ⟨first, rest⟩ := List.pairwise_cons.mp increasing
      refine and_congr (right_iff stored fun last held => later last held tick List.mem_cons_self)
        (ih (step_stored s tick stored) ?_ rest)
      intro last held next member
      unfold step at held
      dsimp only at held
      split at held
      next => exact later last held next (List.mem_cons_of_mem tick member)
      next files found =>
        rw [Option.mem_some] at held
        rw [← held]
        exact first next member

end NetstatRun

theorem netstat_rates (ticks : List NetstatTick)
    (increasing : ticks.Pairwise fun tick next => tick.timestampNanos < next.timestampNanos) :
    Along NetstatRun.step NetstatRun.RatesRight .start ticks ↔ Along NetstatRun.step NetstatRun.NoneReturns .start ticks :=
  NetstatRun.run_right_iff ticks rfl (fun _ absent => nomatch absent) increasing

def icmpLines : List UInt8 := text "Icmp: InMsgs OutMsgs InErrors InDestUnreachs\nIcmp: 4 3 2 1\n"

def icmpTick (timestampNanos : UInt64) (tcp : List UInt8) : NetstatTick := ⟨timestampNanos, .ok (tcp ++ icmpLines), none, none⟩

def tcpLines : List UInt8 :=
  text "Tcp: ActiveOpens PassiveOpens CurrEstab InSegs OutSegs RetransSegs
Tcp: 5000 1 1 1 1 1
"

theorem netstat_rates_steady :
    let ticks := [icmpTick 1000000000 tcpLines, icmpTick 2000000000 tcpLines]
    Along NetstatRun.step NetstatRun.RatesRight .start ticks ↔ Along NetstatRun.step NetstatRun.NoneReturns .start ticks :=
  netstat_rates _ (by decide)

/-- TCP is missing on the first tick; on the second, a second later, all the connections since the boot are its rate. -/
theorem tcp_returns :
    ¬Along NetstatRun.step NetstatRun.RatesRight .start [icmpTick 1000000000 [], icmpTick 2000000000 tcpLines] := by
  rintro ⟨-, right, -⟩
  have read := right ⟨tcpLines ++ icmpLines, none⟩ rfl .tcpActiveOpens (by decide +kernel)
  have reported : Counter.rate (collectNetstat (NetstatRun.start.step (icmpTick 1000000000 [])).ctx
      (icmpTick 2000000000 tcpLines)).2.1 .tcpActiveOpens = 5000 := by
    decide +kernel
  have baseline : (NetstatRun.start.step (icmpTick 1000000000 [])).rightRate (icmpTick 2000000000 tcpLines)
      ⟨tcpLines ++ icmpLines, none⟩ .tcpActiveOpens = 0 := by
    decide +kernel
  rw [reported, baseline] at read
  exact absurd read (by decide)

end Budyk.Proof
