import Budyk.Lib.Text
import Budyk.Rules.Engine

/-! The rules' counters kept in a file, a line a rule (`save_state` and `load_state` of `rules/lua_engine.cpp`). -/

namespace Budyk.Rules
open Lib

def stateLine (r : LuaRule) : List UInt8 :=
  decimalInt r.cooldownRemaining ++ tab :: (decimalInt r.consecutiveHits ++ tab :: (decimal r.fireCount.toNat ++
    tab :: cString r.name))

def stateFile (rules : List LuaRule) : List UInt8 :=
  text "# budyk rule state v1\n" ++ text "# cooldown_remaining\tconsecutive_hits\tfire_count\tname\n" ++
    (rules.filter fun r => newline ∉ r.name).flatMap fun r => stateLine r ++ [newline]

/-- The result, and the file under the path afterwards: a write that fails leaves the one there. -/
def saveState (rules : List LuaRule) (failed : Option Nat) (old : Option (List UInt8)) : Int × Option (List UInt8) :=
  match failed with
  | some e => (-e, old)
  | none => (0, some (stateFile rules))

structure SavedState where
  cooldownRemaining : Int
  consecutiveHits : Int
  fireCount : UInt64
  name : List UInt8
  deriving DecidableEq

def field {α : Type} (number : List UInt8 → Option (α × List UInt8)) (p : List UInt8) : Option (α × List UInt8) :=
  match number p with
  | some (value, b :: rest) => if b = tab then some (value, rest) else none
  | _ => none

/-- What `load_state` takes from one buffer of the file. -/
def parseState (line : List UInt8) : Option SavedState :=
  if line.head? = some 35 ∨ line.head? = some newline then none
  else
    match field strtol (cString line) with
    | none => none
    | some (cd, p) =>
        match field strtol p with
        | none => none
        | some (ch, p) =>
            match field strtoull p with
            | none => none
            | some (fc, p) =>
                if stripEnd p = [] then none else some ⟨cd.bmod (2 ^ 32), ch.bmod (2 ^ 32), fc, stripEnd p⟩

def LuaRule.restore (r : LuaRule) (s : SavedState) : LuaRule :=
  { r with
    cooldownRemaining := s.cooldownRemaining
    consecutiveHits := s.consecutiveHits
    fireCount := s.fireCount }

/-- The first rule of the name is given the counters. -/
def assign (s : SavedState) : List LuaRule → List LuaRule
  | [] => []
  | r :: rest => if r.name = s.name then r.restore s :: rest else r :: assign s rest

def loadLine (rules : List LuaRule) (line : List UInt8) : List LuaRule :=
  match parseState line with
  | none => rules
  | some s => assign s rules

def loadState (rules : List LuaRule) : Option (List UInt8) → List LuaRule
  | none => rules
  | some file => (fgetsLines 1024 file).foldl loadLine rules

end Budyk.Rules
