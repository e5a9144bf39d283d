import Budyk.Lib.LuaLexer
import Budyk.Rules.YamlCompat

/-! The call of `watch` that a rule of a YAML file stands for, as the tokens of Lua. -/

namespace Budyk.Spec
open Lib Rules Config

inductive RuleAction
  | alert
  | log
  | escalate
  deriving DecidableEq

structure RuleCall where
  name : List UInt8
  condition : List LuaToken
  action : RuleAction
  severity : AlertSeverity
  message : List UInt8
  forTicks : Nat
  cooldown : Option Nat

def word (s : String) : LuaToken := Lua.wordToken (text s)

def symbol (s : String) : LuaToken := .symbol (text s)

def alertTokens (call : RuleCall) : List LuaToken :=
  [word "alert", symbol "(", .string call.name, symbol ",", .string (severityName call.severity), symbol ",",
    .string call.message, symbol ")"]

def actionTokens (call : RuleCall) : List LuaToken :=
  match call.action with
  | .alert => [word "function", symbol "(", symbol ")"] ++ alertTokens call ++ [word "end"]
  | .log =>
      [word "function", symbol "(", symbol ")", word "print", symbol "(", .string (text "[budyk] " ++ call.message),
        symbol ")", word "end"]
  | .escalate =>
      [symbol "\x7b", word "function", symbol "(", symbol ")"] ++ alertTokens call ++
        [word "end", symbol ",", .string (text "escalate"), symbol "\x7d"]

def countTokens (key : String) (n : Nat) : List LuaToken := [word key, symbol "=", .numeral (decimal n), symbol ","]

/-- `watch(NAME, { when = function() return CONDITION end, action = ACTION, for_ticks = N, cooldown = N, })` -/
def RuleCall.tokens (call : RuleCall) : List LuaToken :=
  [word "watch", symbol "(", .string call.name, symbol ",", symbol "\x7b", word "when", symbol "=", word "function",
    symbol "(", symbol ")", word "return"] ++ call.condition ++
  [word "end", symbol ",", word "action", symbol "="] ++ actionTokens call ++ [symbol ","] ++
  (if 0 < call.forTicks then countTokens "for_ticks" call.forTicks else []) ++
  (match call.cooldown with
    | some n => countTokens "cooldown" n
    | none => []) ++
  [symbol "\x7d", symbol ")"]

/-- The value a rule gives for a key; a null is as if it were not there. -/
def given (doc : YamlDocument) (item : Option YamlNode) (key : String) : Option (List UInt8) :=
  match yamlFindKey doc item (text key) with
  | some value => if isNull value then none else yamlScalar (some value)
  | none => none

/-- The call says what the rule does. -/
structure RuleCall.Of (call : RuleCall) (doc : YamlDocument) (item : Option YamlNode) : Prop where
  name : given doc item "name" = some call.name
  condition : ∃ when_, given doc item "when" = some when_ ∧ Lua.lex when_ = some call.condition
  action : (given doc item "action").getD (text "alert") = match call.action with
    | .alert => text "alert"
    | .log => text "log"
    | .escalate => text "escalate"
  severity : match given doc item "severity" with
    | some severity => parseSeverity severity = some call.severity
    | none => call.severity = .warning
  message : call.message = (given doc item "message").getD call.name
  forTicks : match given doc item "for_ticks" with
    | some n => parseIntFull n 0 intMax = some (call.forTicks : Int)
    | none => call.forTicks = 0
  cooldown : match given doc item "cooldown" with
    | some n => ∃ ticks, call.cooldown = some ticks ∧ parseIntFull n 0 intMax = some (ticks : Int)
    | none => call.cooldown = none

end Budyk.Spec
