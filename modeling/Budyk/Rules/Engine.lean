import Budyk.Lib.Along

/-! The rule engine's tick (`rules/lua_engine.cpp`): every rule's `when` is called in turn, and a rule that
has held for long enough fires. The interpreter, with all the rules keep in it, is a parameter. -/

namespace Budyk.Rules

/-- A value a `when` returns, as far as `lua_isnil` and `lua_toboolean` tell it. -/
inductive Value where
  | nil
  | boolean (b : Bool)
  | other
  deriving DecidableEq, Repr

def Value.toBoolean : Value → Bool
  | .nil => false
  | .boolean b => b
  | .other => true

/-- What `lua_pcall` gives: the values returned, or an error with what `budyk_lua_uncollected` says of it. -/
inductive Called where
  | returned (values : List Value)
  | raised (uncollected : Nat)
  deriving DecidableEq, Repr

inductive Outcome where
  | hit
  | miss
  | skip
  | error
  deriving DecidableEq, Repr

def Called.outcome : Called → Outcome
  | .raised why => if why ≠ 0 then .skip else .error
  | .returned [] => .miss
  | .returned (value :: _) =>
      if value = .nil then .skip else if value.toBoolean then .hit else .miss

inductive AlertSeverity where
  | info
  | warning
  | critical
  deriving DecidableEq, Repr

structure LuaRule where
  name : List UInt8
  whenRef : Int
  actionsRef : Int
  severity : AlertSeverity
  message : List UInt8
  fireCount : UInt64
  forTicks : Int
  cooldownTicks : Int
  consecutiveHits : Int
  cooldownRemaining : Int
  deriving DecidableEq

/-- The Lua state and what else a tick runs into: `W` is all of its state, the rules' own variables, the
alerts raised and the stop flag among it. -/
structure Interpreter (W S : Type) where
  bind : S → W → Bool × W
  stopping : W → Bool × W
  pcall : Int → W → Called × W
  runActions : LuaRule → W → W
  -- `assigned_bound`: budyk's globals set back
  restoreBound : W → W

structure LuaEngine (W : Type) where
  -- `L_`, none before `init` and after `shutdown`
  state : Option W
  rules : List LuaRule
  lastFireCount : Nat

structure NewRule where
  name : List UInt8
  whenRef : Int
  actionsRef : Int
  severity : AlertSeverity
  message : List UInt8
  forTicks : Int
  cooldownTicks : Int

def NewRule.rule (args : NewRule) : LuaRule where
  name := args.name
  whenRef := args.whenRef
  actionsRef := args.actionsRef
  severity := args.severity
  message := args.message
  fireCount := 0
  forTicks := if args.forTicks < 1 then 1 else args.forTicks
  cooldownTicks := if args.cooldownTicks < 0 then 0 else args.cooldownTicks
  consecutiveHits := 0
  cooldownRemaining := 0

namespace LuaRule

def cool (r : LuaRule) : LuaRule := { r with cooldownRemaining := r.cooldownRemaining - 1 }

def reset (r : LuaRule) : LuaRule := { r with consecutiveHits := 0 }

def sustain (r : LuaRule) : LuaRule := { r with consecutiveHits := r.consecutiveHits + 1 }

def fire (r : LuaRule) : LuaRule :=
  { r with fireCount := r.fireCount + 1, consecutiveHits := 0, cooldownRemaining := r.cooldownTicks }

end LuaRule

section Tick
variable {W S : Type} (lua : Interpreter W S)

/-- The loop's body: the rule afterwards, the world, and whether the rule fired. -/
def LuaRule.eval (r : LuaRule) (w : W) : LuaRule × W × Bool :=
  if r.cooldownRemaining > 0 then (r.cool, w, false)
  else
    let (called, w) := lua.pcall r.whenRef w
    match called.outcome with
    | .skip => (r, lua.restoreBound w, false)
    | .error => (r.reset, lua.restoreBound w, false)
    | .miss => (r.reset, lua.restoreBound w, false)
    | .hit =>
        if r.sustain.consecutiveHits < r.forTicks then (r.sustain, lua.restoreBound w, false)
        else (r.fire, lua.restoreBound (lua.runActions r.fire w), true)

/-- The loop over the rules, which ends early once the daemon is stopping. -/
def evalRules : List LuaRule → W → List LuaRule × W × Nat
  | [], w => ([], w, 0)
  | r :: rest, w =>
      let (stop, w) := lua.stopping w
      if stop then (r :: rest, w, 0)
      else
        let (r, w, fired) := r.eval lua w
        let (rest, w, fires) := evalRules rest w
        (r :: rest, w, fired.toNat + fires)

def LuaEngine.evalTick (e : LuaEngine W) (s : S) : Int × LuaEngine W :=
  match e.state with
  | none => (-1, e)
  | some w =>
      let (bound, w) := lua.bind s w
      if ¬bound then (0, { e with state := some w, lastFireCount := 0 })
      else
        let (rules, w, fires) := evalRules lua e.rules w
        (fires, ⟨some w, rules, fires⟩)

def LuaEngine.tick (e : LuaEngine W) (s : S) : LuaEngine W := (e.evalTick lua s).2

def LuaEngine.run (e : LuaEngine W) (ticks : List S) : LuaEngine W := ticks.foldl (LuaEngine.tick lua) e

end Tick

def LuaEngine.loaded {W : Type} (w : W) (added : List NewRule) : LuaEngine W :=
  ⟨some w, added.map NewRule.rule, 0⟩

end Budyk.Rules
