import Mathlib
import Budyk.Lib.Timeline
import Budyk.Scheduler.Scheduler

/-! What the scheduler is for: the level that the whole history of ticks, clients and requests calls for. -/

namespace Budyk.Spec
open Lib Scheduler

structure PastTick where
  now : Nat
  state : AnomalyState
  clients : Nat

/-- Ticks and requests, the oldest first, and the client count set last. -/
structure LevelHistory where
  ticks : List PastTick
  requests : List (Level × Nat)
  clients : Nat

variable (cfg : SchedulerConfig)

def severity (reading escalation critical : Double) : AnomalyState :=
  if Storage.DoubleArith.less critical reading then .critical
  else if Storage.DoubleArith.less escalation reading then .elevated
  else .normal

def severities (s : Sample) : List AnomalyState :=
  (if hasGroup s.groups kGroupLoad
    then [severity s.load.avg1m cfg.escalationLoad1m cfg.criticalLoad1m] else []) ++
  (if hasGroup s.groups kGroupCpu
    then [severity s.cpu.totalPercent cfg.escalationCpuPercent cfg.criticalCpuPercent] else []) ++
  (if hasGroup s.groups kGroupSwap
    then [severity s.swap.usedPercent cfg.escalationSwapPercent cfg.criticalSwapPercent] else [])

/-- The worst threshold crossed; with none crossed and a group missing, the state before. -/
def stateOf (previous : AnomalyState) (s : Sample) : AnomalyState :=
  if .critical ∈ severities cfg s then .critical
  else if .elevated ∈ severities cfg s then .elevated
  else if (severities cfg s).length < 3 then previous
  else .normal

namespace LevelHistory

def empty : LevelHistory := ⟨[], [], 0⟩

def state (h : LevelHistory) : AnomalyState := h.ticks.getLast?.elim .normal PastTick.state

def record (h : LevelHistory) : Event → LevelHistory
  | .setClientCount n => { h with clients := n.toNat }
  | .request level untilNs _ => { h with requests := h.requests ++ [(level, untilNs)] }
  | .clockSteppedForward _ => h
  | .tick current => { h with ticks := h.ticks ++ [⟨current.ts, stateOf cfg h.state current, h.clients⟩] }

def of (events : List Event) : LevelHistory := events.foldl (record cfg) empty

def Requested (h : LevelHistory) (now : Nat) (level : Level) : Prop :=
  ∃ untilNs, (level, untilNs) ∈ h.requests ∧ now ≤ untilNs

def Anomalous (t : PastTick) : Bool := t.state ≠ .normal

/-- Some anomaly held for `escalate_after`, and has not been gone for `grace_period` since. -/
def Escalated (h : LevelHistory) : Prop :=
  cfg.mode ≠ .onDemand ∧ 0 < cfg.escalateNs ∧
    Held PastTick.now Anomalous cfg.escalateNs cfg.graceNs h.ticks

def L2Active (h : LevelHistory) (now : Nat) : Prop :=
  cfg.mode ≠ .onDemand ∧ (h.state ≠ .normal ∨
      (∃ t ∈ h.ticks, t.state ≠ .normal ∧ now - t.now < cfg.hysteresisNs) ∨ cfg.l2AlwaysOn = true) ∨
    h.Requested now Level.L2

def L3Active (h : LevelHistory) (now : Nat) : Prop :=
  cfg.mode = .always ∨ 0 < h.clients ∨ (∃ t ∈ h.ticks, 0 < t.clients ∧ now - t.now < cfg.graceNs) ∨
    h.Escalated cfg ∨ h.Requested now Level.L3

def Active (h : LevelHistory) (now : Nat) (level : Level) : Prop :=
  if level = Level.L1 then True
  else if level = Level.L2 then h.L2Active cfg now
  else if level = Level.L3 then h.L3Active cfg now
  else h.Requested now level

end LevelHistory

def rank (level : Level) : ℤ ×ₗ ℤ := toLex (priority cfg level, -intervalMs cfg level)

def levels : List Level := [Level.L1, Level.L2, Level.L3] ++ cfg.customLevels.map CustomLevel.id

open Classical in
/-- The first of the best of the levels that the history has active. -/
noncomputable def LevelHistory.best (h : LevelHistory) (now : Nat) : Option Level :=
  ((levels cfg).filter fun level => h.Active cfg now level).argmax (rank cfg)

/-- The clock does not go back: not from tick to tick, and not from the time a request is made at. -/
def InOrder : (clock : Nat) → List Event → Prop
  | _, [] => True
  | clock, .setClientCount _ :: rest => InOrder clock rest
  | clock, .request _ _ madeAtNs :: rest =>
      madeAtNs = 0 ∧ InOrder clock rest ∨ clock ≤ madeAtNs ∧ InOrder madeAtNs rest
  | _, .clockSteppedForward _ :: _ => False
  | clock, .tick current :: rest => clock ≤ current.ts ∧ InOrder current.ts rest

end Budyk.Spec
