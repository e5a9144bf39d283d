import Mathlib.Algebra.Group.Nat.Defs
import Mathlib.Logic.Function.Basic
import Budyk.Lib.Along
import Budyk.Storage.TierAggregator

/-! `Scheduler` of `scheduler/scheduler.cpp`. An instant the source guards with a flag (`had_anomaly_`
and `last_anomaly_ns_`) is an option here; instants are natural numbers, and what the source adds to
one does not overflow. -/

namespace Budyk

inductive AnomalyState where
  | normal
  | elevated
  | critical
  deriving DecidableEq, Repr

inductive CollectionMode where
  | adaptive
  | always
  | onDemand
  deriving DecidableEq

structure CustomLevel where
  id : Level
  intervalMs : Int
  priority : Int
  /-- The loader counts the ids up from `kFirstCustomLevel`. -/
  id_ge : kFirstCustomLevel ≤ id
  id_le : id ≤ kMaxLevelId

/-- `SchedulerConfig`, less the metric sets, which the scheduler only hands out. -/
structure SchedulerConfig where
  mode : CollectionMode := .adaptive
  l1IntervalSec : Int := 300
  l2IntervalSec : Int := 30
  l3IntervalSec : Int := 1
  hysteresisSec : Nat := 300
  gracePeriodSec : Nat := 60
  l2AlwaysOn : Bool := false
  escalateAfterSec : Nat := 300
  -- 4.0, 85.0, 50.0
  escalationLoad1m : Double := ⟨0x4010000000000000⟩
  escalationCpuPercent : Double := ⟨0x4055400000000000⟩
  escalationSwapPercent : Double := ⟨0x4049000000000000⟩
  -- 8.0, 95.0, 80.0
  criticalLoad1m : Double := ⟨0x4020000000000000⟩
  criticalCpuPercent : Double := ⟨0x4057c00000000000⟩
  criticalSwapPercent : Double := ⟨0x4054000000000000⟩
  customLevels : List CustomLevel := []
  ids_nodup : (customLevels.map CustomLevel.id).Nodup := by exact List.nodup_nil

def kNanosPerSec : Nat := 1000000000

namespace SchedulerConfig

def escalateNs (cfg : SchedulerConfig) : Nat := cfg.escalateAfterSec * kNanosPerSec
def graceNs (cfg : SchedulerConfig) : Nat := cfg.gracePeriodSec * kNanosPerSec
def hysteresisNs (cfg : SchedulerConfig) : Nat := cfg.hysteresisSec * kNanosPerSec

end SchedulerConfig

/-- A request on record: its deadline, and the time the deadline was reckoned from (0: the last
tick's clock). -/
structure Request where
  untilNs : Nat
  madeNs : Nat
  deriving DecidableEq

structure Scheduler where
  level : Level
  anomaly : AnomalyState
  clientCount : Nat
  lastAnomalyNs : Option Nat
  lastClientActiveNs : Option Nat
  anomalyRunStartNs : Option Nat
  escalated : Bool
  requests : Level → Option Request
  -- 0 before the first tick
  lastTickNs : Nat

namespace Scheduler

def kPriorityL1 : Int := 0
def kPriorityL2 : Int := 20
def kPriorityL3 : Int := 30

def fresh : Scheduler := ⟨Level.L1, .normal, 0, none, none, none, false, fun _ => none, 0⟩

variable (cfg : SchedulerConfig)

def findCustom (level : Level) : Option CustomLevel :=
  cfg.customLevels.find? fun c => c.id == level

def intervalMs (level : Level) : Int :=
  if level = Level.L1 then cfg.l1IntervalSec * 1000
  else if level = Level.L2 then cfg.l2IntervalSec * 1000
  else if level = Level.L3 then cfg.l3IntervalSec * 1000
  else (findCustom cfg level).elim (cfg.l1IntervalSec * 1000) CustomLevel.intervalMs

def priority (level : Level) : Int :=
  if level = Level.L1 then kPriorityL1
  else if level = Level.L2 then kPriorityL2
  else if level = Level.L3 then kPriorityL3
  else (findCustom cfg level).elim kPriorityL1 CustomLevel.priority

def checkAnomaly (anomaly : AnomalyState) (s : Sample) : AnomalyState :=
  let load := hasGroup s.groups kGroupLoad
  let cpu := hasGroup s.groups kGroupCpu
  let swap := hasGroup s.groups kGroupSwap
  if load && Storage.DoubleArith.less cfg.criticalLoad1m s.load.avg1m then .critical
  else if cpu && Storage.DoubleArith.less cfg.criticalCpuPercent s.cpu.totalPercent then .critical
  else if swap && Storage.DoubleArith.less cfg.criticalSwapPercent s.swap.usedPercent then .critical
  else if load && Storage.DoubleArith.less cfg.escalationLoad1m s.load.avg1m then .elevated
  else if cpu && Storage.DoubleArith.less cfg.escalationCpuPercent s.cpu.totalPercent then .elevated
  else if swap && Storage.DoubleArith.less cfg.escalationSwapPercent s.swap.usedPercent then .elevated
  else if !load || !cpu || !swap then anomaly
  else .normal

def move (back t : Nat) : Nat := if t > back then t - back else 0

def moveRequest (back now : Nat) (r : Request) : Request :=
  if r.madeNs = 0 || r.madeNs > now then { r with untilNs := move back r.untilNs } else r

def stepBack (s : Scheduler) (now : Nat) : Scheduler :=
  if s.lastTickNs ≠ 0 ∧ now < s.lastTickNs then
    let back := s.lastTickNs - now
    { s with
      requests := fun id => (s.requests id).map (moveRequest back now)
      lastClientActiveNs := s.lastClientActiveNs.map (move back)
      lastAnomalyNs := s.lastAnomalyNs.map (move back)
      anomalyRunStartNs := s.anomalyRunStartNs.map (move back) }
  else s

/-- `now - start` of `uint64_t`s, which no guard keeps from wrapping. -/
def elapsed (now start : Nat) : Nat := (now + 2 ^ 64 - start) % 2 ^ 64

def trackAnomaly (s : Scheduler) (now : Nat) : Scheduler :=
  if cfg.mode = .onDemand then s
  else if s.anomaly ≠ .normal then
    let start := s.anomalyRunStartNs.getD now
    { s with
      anomalyRunStartNs := some start
      lastAnomalyNs := some now
      escalated := s.escalated || decide (cfg.escalateNs > 0 ∧ elapsed now start ≥ cfg.escalateNs) }
  else if !s.escalated then { s with anomalyRunStartNs := none }
  else s

def endEscalation (s : Scheduler) (now : Nat) : Scheduler :=
  let last := s.lastAnomalyNs.getD 0
  if s.escalated ∧ s.anomaly = .normal ∧ (now < last ∨ now - last ≥ cfg.graceNs) then
    { s with escalated := false, anomalyRunStartNs := none }
  else s

def noteClients (s : Scheduler) (now : Nat) : Scheduler :=
  if s.clientCount > 0 then { s with lastClientActiveNs := some now } else s

-- `had_x_ && now >= last_x_ns_ && now - last_x_ns_ < window_ns`
def within (window now : Nat) (last : Option Nat) : Bool :=
  last.any fun last => now ≥ last && now - last < window

def requested (s : Scheduler) (now : Nat) (level : Level) : Bool :=
  (s.requests level).any fun r => r.untilNs ≥ now

def l3Active (s : Scheduler) (now : Nat) : Bool :=
  cfg.mode = .always || s.clientCount > 0 || within cfg.graceNs now s.lastClientActiveNs ||
    s.escalated && (s.anomaly ≠ .normal ||
      now ≥ s.lastAnomalyNs.getD 0 && now - s.lastAnomalyNs.getD 0 < cfg.graceNs) ||
    s.requested now Level.L3

def l2Active (s : Scheduler) (now : Nat) : Bool :=
  let adaptive := cfg.mode ≠ .onDemand
  adaptive && s.anomaly ≠ .normal || within cfg.hysteresisNs now s.lastAnomalyNs ||
    adaptive && cfg.l2AlwaysOn || s.requested now Level.L2

structure Best where
  level : Level
  prio : Int
  ivl : Int

def consider (best : Best) (level : Level) (prio : Int) : Best :=
  let ivl := intervalMs cfg level
  if prio > best.prio ∨ prio = best.prio ∧ ivl < best.ivl then ⟨level, prio, ivl⟩ else best

def select (s : Scheduler) (now : Nat) : Level :=
  let best : Best := ⟨Level.L1, kPriorityL1, intervalMs cfg Level.L1⟩
  let best := if l2Active cfg s now then consider cfg best Level.L2 kPriorityL2 else best
  let best := if l3Active cfg s now then consider cfg best Level.L3 kPriorityL3 else best
  (cfg.customLevels.foldl
    (fun best c => if s.requested now c.id then consider cfg best c.id c.priority else best) best).level

def higher (a b : Level) : Level :=
  let pa := priority cfg a
  let pb := priority cfg b
  if pa ≠ pb then if pa > pb then a else b
  else if intervalMs cfg b < intervalMs cfg a then b else a

def settle (s : Scheduler) (now : Nat) (current : Sample) : Scheduler :=
  let s := { s with lastTickNs := now, anomaly := checkAnomaly cfg s.anomaly current }
  let s := (endEscalation cfg (trackAnomaly cfg s now) now).noteClients now
  { s with level := select cfg s now }

def tick (s : Scheduler) (current : Sample) : Scheduler :=
  settle cfg (s.stepBack current.ts) current.ts current

def isKnown (level : Level) : Bool :=
  1 ≤ level && level ≤ kMaxLevelId && (level < kFirstCustomLevel || (findCustom cfg level).isSome)

def outlasts (pending : Request) (untilNs madeAtNs : Nat) : Bool :=
  let stale := madeAtNs ≠ 0 && pending.madeNs > madeAtNs
  !stale && pending.untilNs ≥ untilNs

def request (s : Scheduler) (level : Level) (untilNs madeAtNs : Nat) : Scheduler :=
  if !isKnown cfg level then s
  else if (s.requests level).any fun pending => outlasts pending untilNs madeAtNs then s
  else { s with requests := Function.update s.requests level (some ⟨untilNs, madeAtNs⟩) }

def clockSteppedForward (s : Scheduler) (byNs : Nat) : Scheduler :=
  { s with
    requests := fun id => (s.requests id).map fun r =>
      ⟨r.untilNs + byNs, if r.madeNs ≠ 0 then r.madeNs + byNs else r.madeNs⟩
    lastClientActiveNs := s.lastClientActiveNs.map (· + byNs)
    lastAnomalyNs := s.lastAnomalyNs.map (· + byNs)
    anomalyRunStartNs := s.anomalyRunStartNs.map (· + byNs)
    lastTickNs := if s.lastTickNs ≠ 0 then s.lastTickNs + byNs else s.lastTickNs }

def setClientCount (s : Scheduler) (n : Int) : Scheduler :=
  { s with clientCount := if n > 0 then n.toNat else 0 }

/-! ## Runs -/

inductive Event where
  | setClientCount (n : Int)
  | request (level : Level) (untilNs madeAtNs : Nat)
  | clockSteppedForward (byNs : Nat)
  | tick (current : Sample)

def step (s : Scheduler) : Event → Scheduler
  | .setClientCount n => s.setClientCount n
  | .request level untilNs madeAtNs => request cfg s level untilNs madeAtNs
  | .clockSteppedForward byNs => s.clockSteppedForward byNs
  | .tick current => tick cfg s current

def run (s : Scheduler) (events : List Event) : Scheduler := events.foldl (step cfg) s

/-- What a tick returns, and what `current_anomaly()` and `escalated()` say after it. -/
structure Outcome where
  level : Level
  anomaly : AnomalyState
  escalated : Bool
  deriving DecidableEq

def outcome (s : Scheduler) : Outcome := ⟨s.level, s.anomaly, s.escalated⟩

def report (s : Scheduler) : Event → List Outcome
  | .tick current => [(tick cfg s current).outcome]
  | _ => []

def outcomes (s : Scheduler) (events : List Event) : List Outcome :=
  Lib.reports (step cfg) (report cfg) s events

/-! ## The serve loop -/

/-- What the serve loop does with the scheduler. The levels whose `when` holds on a sample are requested
on the sample's clock, up to the deadlines given, just before its tick. -/
inductive Turn where
  | setClientCount (n : Int)
  | request (level : Level) (untilNs madeAtNs : Nat)
  | clockSteppedForward (byNs : Nat)
  | sample (hits : List (Level × Nat)) (current : Sample)

def Turn.events : Turn → List Event
  | .setClientCount n => [.setClientCount n]
  | .request level untilNs madeAtNs => [.request level untilNs madeAtNs]
  | .clockSteppedForward byNs => [.clockSteppedForward byNs]
  | .sample hits current => hits.map (fun hit => .request hit.1 hit.2 current.ts) ++ [.tick current]

def takeTurn (s : Scheduler) (turn : Turn) : Scheduler := run cfg s turn.events

def turnOutcomes (s : Scheduler) (turns : List Turn) : List Outcome :=
  Lib.reports (takeTurn cfg) (fun s turn => outcomes cfg s turn.events) s turns

end Scheduler

end Budyk
