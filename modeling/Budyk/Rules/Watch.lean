import Budyk.Lib.Text
import Budyk.Rules.Engine

/-! `watch(name, opts)`, by which a rules file registers its rules (`rules/lua_stdlib.cpp`). -/

namespace Budyk.Rules
open Lib

inductive Function where
  | alert
  | escalate
  | other
  deriving DecidableEq

/-- A field of `opts`. A number, and a string that reads as one, comes with what `lua_tointegerx` makes of it. -/
inductive LuaValue where
  | nil
  | boolean (b : Bool)
  | number (integer : Option Int)
  | string (bytes : List UInt8) (integer : Option Int)
  | function (f : Function)
  | table (entries : List LuaValue)
  | other

namespace LuaValue

def isFunction : LuaValue → Bool
  | .function _ => true
  | _ => false

def toInteger : LuaValue → Option Int
  | .number integer | .string _ integer => integer
  | _ => none

end LuaValue

inductive ActionKind where
  | function
  | alert
  | log
  | escalate
  | invalid
  deriving DecidableEq

def actionKind : LuaValue → ActionKind
  | .function .alert => .alert
  | .function .escalate => .escalate
  | .function .other => .function
  | .string bytes _ =>
      if cString bytes = text "alert" then .alert
      else if cString bytes = text "log" then .log
      else if cString bytes = text "escalate" then .escalate
      else .invalid
  | _ => .invalid

def optCountField (value : LuaValue) (lo hi fallback : Int) : Option Int :=
  match value with
  | .nil => some fallback
  | value =>
      match value.toInteger with
      | some v => if lo ≤ v ∧ v ≤ hi then some v else none
      | none => none

def asciiLower (b : UInt8) : UInt8 := if 65 ≤ b && b ≤ 90 then b + 32 else b

/-- `strcasecmp` with 0 for an answer. -/
def sameIgnoringCase (a b : List UInt8) : Bool := (cString a).map asciiLower = (cString b).map asciiLower

def parseSeverity (s : List UInt8) : Option AlertSeverity :=
  if sameIgnoringCase s (text "info") then some .info
  else if sameIgnoringCase s (text "warning") then some .warning
  else if sameIgnoringCase s (text "critical") then some .critical
  else none

def severityField : LuaValue → Option AlertSeverity
  | .nil => some .warning
  | .string bytes _ => parseSeverity bytes
  | _ => none

/-- What is wrong with `action`, as the message says it. -/
def actionError : LuaValue → Option (List UInt8)
  | .nil => none
  | .table [] => some (text "'action' is an empty list")
  | .table entries =>
      (entries.findIdx? (actionKind · = .invalid)).map fun i =>
        text "action[" ++ decimal (i + 1) ++
          text "] must be a function, alert, escalate, \"alert\", \"log\" or \"escalate\""
  | action =>
      if actionKind action = .invalid then
        some (text "'action' must be a function, alert, escalate, \"alert\", \"log\", \"escalate\" or a list of them")
      else none

structure WatchCall where
  -- the string given as the name
  argument : List UInt8
  whenField : LuaValue
  action : LuaValue
  severity : LuaValue
  message : LuaValue
  forTicks : LuaValue
  cooldown : LuaValue
  -- the references `luaL_ref` makes
  whenRef : Int
  actionsRef : Int

namespace WatchCall

def name (call : WatchCall) : List UInt8 := cString call.argument

def refuse (call : WatchCall) (why : List UInt8) : Except (List UInt8) NewRule :=
  .error (text "watch(" ++ call.name ++ text "): " ++ why)

end WatchCall

def messageField (name : List UInt8) : LuaValue → Option (List UInt8)
  | .nil => some name
  | .string bytes _ => some bytes
  | _ => none

def watch (loading : Bool) (rules : List LuaRule) (call : WatchCall) : Except (List UInt8) NewRule :=
  if ¬loading then
    .error (text "watch() registers a rule while the rules file loads; it cannot be called from a rule")
  else if rules.any (·.name = call.name) then call.refuse (text "a rule of that name is already registered")
  else if ¬call.whenField.isFunction then call.refuse (text "'when' must be a function")
  else
    match actionError call.action, severityField call.severity, messageField call.name call.message with
    | some why, _, _ => call.refuse why
    | none, none, _ => call.refuse (text "'severity' must be \"info\", \"warning\" or \"critical\"")
    | none, some _, none => call.refuse (text "'message' must be a string")
    | none, some severity, some message =>
        match optCountField call.forTicks 0 1000000 1 with
        | none => call.refuse (text "'for_ticks' must be a whole number from 1 to 1000000")
        | some given =>
            let forTicks := if given = 0 then 1 else given
            match optCountField call.cooldown 0 1000000 forTicks with
            | none => call.refuse (text "'cooldown' must be a whole number from 0 to 1000000")
            | some cooldownTicks =>
                .ok ⟨call.name, call.whenRef, call.actionsRef, severity, message, forTicks, cooldownTicks⟩

/-- The rules a file's calls register, a call that raises left out. -/
def registered (calls : List WatchCall) : List NewRule :=
  calls.foldl (fun added call =>
    match watch true (added.map NewRule.rule) call with
    | .ok args => added ++ [args]
    | .error _ => added) []

end Budyk.Rules
