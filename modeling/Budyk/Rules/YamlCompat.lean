import Budyk.Config.StrList
import Budyk.Rules.Alert

/-! Rules written in YAML, made into Lua (`rules/yaml_compat.cpp`, `core/parse_int.h`). -/

namespace Budyk.Rules
open Lib Config

def parseIntFull (s : List UInt8) (lo hi : Int) : Option Int :=
  if s.head?.any fun first => isDigit first || first = 45 || first = 43 then
    match scanNumber s with
    | some (negative, n, []) =>
        let value : Int := if negative then -n else n
        if -2 ^ 63 ≤ value ∧ value < 2 ^ 63 ∧ lo ≤ value ∧ value ≤ hi then some value else none
    | _ => none
  else none

/-- `%03d` of a byte. -/
def threeDigits (c : UInt8) : List UInt8 := [c.toNat / 100, c.toNat / 10 % 10, c.toNat % 10].map digit

def luaEscapeByte (c : UInt8) : List UInt8 :=
  if c = 92 then text "\\\\"
  else if c = 34 then text "\\\""
  else if c = newline then text "\\n"
  else if c = carriageReturn then text "\\r"
  else if c = tab then text "\\t"
  else if c < 0x20 then 92 :: threeDigits c
  else [c]

def luaEscape (s : List UInt8) : List UInt8 := s.flatMap luaEscapeByte

def isNull : YamlNode → Bool
  | .scalar value style => style = .plain && ["", "~", "null", "Null", "NULL"].any fun null => cString value = text null
  | _ => false

def kRuleKeys : List (List UInt8) :=
  ["name", "when", "for_ticks", "cooldown", "severity", "action", "message"].map text

/-- By the places in `kRuleKeys`. -/
structure RuleFields where
  fields : Nat → Option (List UInt8)
  seen : Nat → Bool
  -- the place of the node in its document
  whenNode : Nat

def noFields : RuleFields := ⟨fun _ => none, fun _ => false, 0⟩

def readRuleFields (doc : YamlDocument) (place : List UInt8) : List (Nat × Nat) → RuleFields → Except (List UInt8) RuleFields
  | [], rule => .ok rule
  | (k, v) :: pairs, rule =>
      match yamlScalar (getNode doc k), getNode doc v with
      | some key, some value =>
          let i := kRuleKeys.idxOf key
          if i = kRuleKeys.length then
            .error (place ++ text ": unknown key '" ++ key ++
              text "' (name, when, for_ticks, cooldown, severity, action, message)")
          else if rule.seen i then .error (place ++ text ": '" ++ key ++ text "' given twice")
          else
            let seen := Function.update rule.seen i true
            if isNull value then readRuleFields doc place pairs { rule with seen := seen }
            else match yamlScalar (some value) with
              | none =>
                  let kind := match value with
                    | .sequence _ => text "list"
                    | _ => text "mapping"
                  .error (place ++ text ": '" ++ key ++ text "' is a " ++ kind ++ text " where a value belongs")
              | some s =>
                  readRuleFields doc place pairs
                    ⟨Function.update rule.fields i (some s), seen, if i = 1 then v else rule.whenNode⟩
      | _, _ => .error (place ++ text ": a key that is not a string")

/-- What Lua says to a chunk; the message of an error may be missing. -/
abbrev LuaLoad := List UInt8 → Except (Option (List UInt8)) Unit

/-- The message, when the scratch state does not take `when`. -/
def checkWhen (scratch : Option LuaLoad) (when_ : List UInt8) (line : Nat) (who : List UInt8) : Option (List UInt8) :=
  match scratch with
  | none => none
  | some load =>
      match load (text "return " ++ when_) with
      | .ok () => none
      | .error msg =>
          let what := msg.getD (text "cannot parse")
          let said := if text "when:1: " <+: what then what.drop 8 else what
          some (who ++ text ": 'when' (line " ++ decimal (line + 1) ++ text ") does not parse: " ++ said)

def watchText (name when_ sevName message : List UInt8) (isLog isEscalate : Bool) (forTicks : Int) (cooldown : Option Int) :
    List UInt8 :=
  text "watch(\"" ++ luaEscape name ++ text "\", \x7b\n  when = function() return " ++ when_ ++
    text "\n  end,\n  action = " ++ (if isEscalate then text "\x7b " else []) ++ text "function() " ++
    (if isLog then text "print(\"[budyk] " ++ luaEscape message ++ text "\")"
      else text "alert(\"" ++ luaEscape name ++ text "\", \"" ++ sevName ++ text "\", \"" ++ luaEscape message ++
        text "\")") ++
    text " end" ++ (if isEscalate then text ", \"escalate\" \x7d" else []) ++ text ",\n" ++
    (if 0 < forTicks then text "  for_ticks = " ++ decimalInt forTicks ++ text ",\n" else []) ++
    (match cooldown with
      | some n => text "  cooldown = " ++ decimalInt n ++ text ",\n"
      | none => []) ++
    text "\x7d)\n"

abbrev intMax : Int := 2 ^ 31 - 1

/-- What is appended for one rule; `line` has the lines of the document's nodes, from 0. -/
def transpileRule (doc : YamlDocument) (line : Nat → Nat) (item : Option YamlNode) (index : Nat)
    (scratch : Option LuaLoad) : Except (List UInt8) (List UInt8) :=
  let place := text "rule " ++ decimal index
  match item with
  | some (.mapping pairs) => do
      let rule ← readRuleFields doc place pairs noFields
      let name := (rule.fields 0).getD []
      let when_ := (rule.fields 1).getD []
      if name = [] then .error (place ++ text ": no 'name'") else
      let who := text "rule '" ++ name ++ text "'"
      if when_ = [] then .error (who ++ text ": no 'when'") else
      if when_.any fun c => c = newline || c = carriageReturn then
        .error (who ++ text ": 'when' must be one line (write the rule in Lua for more)") else
      match checkWhen scratch when_ (line rule.whenNode) who with
      | some error => .error error
      | none =>
      let count (key : List UInt8) : Option (List UInt8) → Except (List UInt8) (Option Int)
        | none => .ok none
        | some s =>
            match parseIntFull s 0 intMax with
            | some n => .ok (some n)
            | none => .error (who ++ text ": " ++ key ++ text " '" ++ s ++ text "' is not a whole number of ticks")
      let forTicks ← count (text "for_ticks") (rule.fields 2)
      let cooldown ← count (text "cooldown") (rule.fields 3)
      let sev ← match rule.fields 4 with
        | none => Except.ok AlertSeverity.warning
        | some severity =>
            match parseSeverity severity with
            | some sev => .ok sev
            | none => .error (who ++ text ": severity '" ++ severity ++ text "' is not info, warning or critical")
      let action := (rule.fields 5).getD (text "alert")
      let isLog := action = text "log"
      let isEscalate := action = text "escalate"
      if !isLog && !isEscalate && action ≠ text "alert" then
        .error (who ++ text ": action '" ++ action ++ text "' is not alert, log or escalate") else
      let message := (rule.fields 6).getD name
      .ok (watchText name when_ (severityName sev) message isLog isEscalate (forTicks.getD 0) cooldown)
  | _ => .error (place ++ text " is not a mapping (name:, when:, ...)")

/-- The rules of the list from the one at `index` on: the text that is appended, and the error that stops it. -/
def walkItems (doc : YamlDocument) (line : Nat → Nat) (scratch : Option LuaLoad) :
    List Nat → Nat → List UInt8 × Option (List UInt8)
  | [], _ => ([], none)
  | item :: items, index =>
      match transpileRule doc line (getNode doc item) (index + 1) scratch with
      | .error error => ([], some error)
      | .ok call =>
          let rest := walkItems doc line scratch items (index + 1)
          (call ++ rest.1, rest.2)

def walkSequence (doc : YamlDocument) (line : Nat → Nat) (seq : Option YamlNode) (scratch : Option LuaLoad) :
    List UInt8 × Option (List UInt8) :=
  match seq with
  | some (.sequence items) => walkItems doc line scratch items 0
  | _ => ([], some (text "'rules:' is not a list"))

end Budyk.Rules
