import Budyk.Rules.Watch
import Budyk.Scheduler.Scheduler

/-! The levels by name: as `escalate()` knows them (`rules/lua_stdlib.cpp`, `rules/lua_engine.cpp`) and as the
scheduler resolves what it has filed (`scheduler/scheduler.cpp`). -/

namespace Budyk.Daemon
open Lib Rules Scheduler

/-- The scheduler's configuration, with the name of each custom level. -/
structure NamedLevels where
  cfg : SchedulerConfig
  name : CustomLevel → List UInt8

/-- What `init_engine` tells the rules. -/
def NamedLevels.levelNames (levels : NamedLevels) : List (List UInt8) :=
  [text "L1", text "L2", text "L3"] ++ levels.cfg.customLevels.map levels.name

/-! The rules' side. -/

def isLevelName (levelNames : List (List UInt8)) (name : List UInt8) : Bool :=
  levelNames.any fun n => sameIgnoringCase n name

structure Escalation where
  level : List UInt8
  seconds : Int
  deriving DecidableEq

/-- The escalation `escalate(level, seconds)` queues, or what it raises; `level` is taken as a C string. -/
def lEscalate (levelNames : List (List UInt8)) (level : List UInt8) (seconds : Int) : Except (List UInt8) Escalation :=
  let level := cString level
  if seconds < 1 ∨ seconds > 86400 then .error (text "escalate: seconds must be 1..86400")
  else if !isLevelName levelNames level then .error (text "escalate: unknown level '" ++ level ++ text "'")
  else .ok ⟨level, seconds⟩

/-! The scheduler's side. -/

def levelByName (levels : NamedLevels) (name : List UInt8) : Option Level :=
  if sameIgnoringCase name (text "L1") then some Level.L1
  else if sameIgnoringCase name (text "L2") then some Level.L2
  else if sameIgnoringCase name (text "L3") then some Level.L3
  else (levels.cfg.customLevels.find? fun c => levels.name c = name).map CustomLevel.id

def requestByName (levels : NamedLevels) (s : Scheduler) (name : List UInt8) (untilNs madeAtNs : Nat) : Scheduler × Bool :=
  match levelByName levels name with
  | none => (s, false)
  | some level => (request levels.cfg s level untilNs madeAtNs, true)

end Budyk.Daemon
