import Budyk.Rules.Engine

/-! When a rule is to fire, said of its history: what each evaluated tick brought it, from the engine's load on. -/

namespace Budyk.Spec
open Rules

/-- One evaluated tick of a rule: what its `when` came to, none where it was not called, and whether it fired. -/
structure Evaluation where
  outcome : Option Outcome
  fired : Bool
  deriving DecidableEq, Repr

def Evaluation.ends (v : Evaluation) : Bool := v.fired || v.outcome = some .miss || v.outcome = some .error

def Evaluation.isHit (v : Evaluation) : Bool := v.outcome = some .hit

/-- The tick after `past` is one of the `cooldown` ticks after the last fire. -/
def Cooling (cooldown : Int) (past : List Evaluation) : Prop :=
  ∃ older last since, past = older ++ last :: since ∧ last.fired ∧ (∀ v ∈ since, v.fired = false) ∧
    since.length < cooldown

/-- Since the later of the last fire, miss and error there were `hits` hits. -/
def Sustained (past : List Evaluation) (hits : Nat) : Prop :=
  ∃ older recent, past = older ++ recent ∧ (∀ v ∈ older.getLast?, v.ends) ∧ (∀ v ∈ recent, v.ends = false) ∧
    recent.countP Evaluation.isHit = hits

/-- The tick after `past` is what it should be: the rule is called exactly outside its cooldown, and fires on
the hit that makes `forTicks` of them. -/
def RightAt (forTicks cooldown : Int) (past : List Evaluation) (v : Evaluation) : Prop :=
  (v.outcome = none ↔ Cooling cooldown past) ∧
  (v.fired ↔ ¬Cooling cooldown past ∧ v.outcome = some .hit ∧ ∃ hits : Nat, Sustained past hits ∧ hits + 1 = forTicks)

def FiresRight (forTicks cooldown : Int) (history : List Evaluation) : Prop :=
  ∀ past v later, history = past ++ v :: later → RightAt forTicks cooldown past v

def Apart (forTicks cooldown : Int) (history : List Evaluation) : Prop :=
  ∀ past v between w later, history = past ++ v :: (between ++ w :: later) → v.fired → w.fired →
    cooldown + forTicks ≤ between.length + 1

/-- A rule on its own: its tick when `when` comes to `o`, which is not looked at within the cooldown. -/
def evaluate (r : LuaRule) (o : Outcome) : LuaRule × Evaluation :=
  if r.cooldownRemaining > 0 then (r.cool, ⟨none, false⟩)
  else
    match o with
    | .skip => (r, ⟨some o, false⟩)
    | .miss | .error => (r.reset, ⟨some o, false⟩)
    | .hit => if r.sustain.consecutiveHits < r.forTicks then (r.sustain, ⟨some o, false⟩) else (r.fire, ⟨some o, true⟩)

def alone (r : LuaRule) : List Outcome → LuaRule × List Evaluation
  | [] => (r, [])
  | o :: rest =>
      let (r, v) := evaluate r o
      let (r, history) := alone r rest
      (r, v :: history)

/-- The counters some sequence of evaluated ticks takes the rule to. -/
def Reachable (args : NewRule) (r : LuaRule) : Prop := ∃ outcomes, (alone args.rule outcomes).1 = r

/-- The outcomes are those of the ticks on which the rule was called; on the others they may be any. -/
def Agree (outcomes : List Outcome) (history : List Evaluation) : Prop :=
  List.Forall₂ (fun o v => ∀ o' ∈ v.outcome, o' = o) outcomes history

section Engine
variable {W S : Type} (lua : Interpreter W S)

def evaluationOf (r : LuaRule) (w : W) : Evaluation where
  outcome := if r.cooldownRemaining > 0 then none else some (lua.pcall r.whenRef w).1.outcome
  fired := (r.eval lua w).2.2

/-- The evaluation of the rule `i` by one loop over the rules; none when the loop ended before it. -/
def evaluationAt : List LuaRule → W → Nat → List Evaluation
  | [], _, _ => []
  | r :: rest, w, i =>
      let (stop, w) := lua.stopping w
      if stop then []
      else
        match i with
        | 0 => [evaluationOf lua r w]
        | i + 1 => evaluationAt rest (r.eval lua w).2.1 i

def evaluated (i : Nat) (e : LuaEngine W) (s : S) : List Evaluation :=
  match e.state with
  | none => []
  | some w =>
      let (bound, w) := lua.bind s w
      if ¬bound then [] else evaluationAt lua e.rules w i

def ruleHistory (i : Nat) (e : LuaEngine W) (ticks : List S) : List Evaluation :=
  Lib.reports (LuaEngine.tick lua) (evaluated lua i) e ticks

end Engine

end Budyk.Spec
