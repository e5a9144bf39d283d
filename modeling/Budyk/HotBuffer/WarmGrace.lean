import Mathlib.Algebra.Group.Nat.Defs
import Budyk.Lib.Along

/-! `WarmGrace` of `hot_buffer/hot_buffer.cpp`: when the hot buffer is to be emptied after its last client. -/

namespace Budyk

structure WarmGrace where
  graceNs : Nat
  lastClientNs : Nat := 0
  pending : Bool := false
  connected : Bool := false
  /-- The config's grace is a day at most: no time that is left is `UINT64_MAX`. -/
  graceLt : graceNs < 2 ^ 64 - 1

namespace WarmGrace

/-- The arguments of `should_reset`. -/
structure Call where
  clients : Int
  nowNs : Nat
  fast : Bool := false

def shouldReset (w : WarmGrace) (call : Call) : Bool × WarmGrace :=
  let w := { w with connected := decide (call.clients > 0) }
  if w.connected || call.fast then (false, { w with lastClientNs := call.nowNs, pending := true })
  else if !w.pending then (false, w)
  else if call.nowNs < w.lastClientNs then (false, { w with lastClientNs := call.nowNs })
  else if call.nowNs - w.lastClientNs < w.graceNs then (false, w)
  else (true, { w with pending := false })

/-- `UINT64_MAX` where no reset is to come, or a client is there. -/
def nsUntilDue (w : WarmGrace) (nowNs : Nat) : Nat :=
  if !w.pending || w.connected then 2 ^ 64 - 1
  else if nowNs < w.lastClientNs then w.graceNs
  else
    let idle := nowNs - w.lastClientNs
    if idle ≥ w.graceNs then 0 else w.graceNs - idle

def capSleepMs (w : WarmGrace) (sleepMs : Int) (nowNs : Nat) (floorMs : Int) : Int :=
  let dueNs := w.nsUntilDue nowNs
  if dueNs = 2 ^ 64 - 1 then sleepMs
  else
    let dueMs := dueNs / 1000000 + 1
    let dueMs := if floorMs > 0 ∧ dueMs < floorMs.toNat then floorMs.toNat else dueMs
    if sleepMs > 0 ∧ dueMs < sleepMs.toNat then dueMs else sleepMs

/-! ## Runs -/

def new (graceNs : Fin (2 ^ 64 - 1)) : WarmGrace := { graceNs := graceNs, graceLt := graceNs.isLt }

def step (w : WarmGrace) (call : Call) : WarmGrace := (w.shouldReset call).2

def run (w : WarmGrace) (calls : List Call) : WarmGrace := calls.foldl step w

def answers (w : WarmGrace) (calls : List Call) : List Bool :=
  Lib.reports step (fun w call => [(w.shouldReset call).1]) w calls

theorem run_concat (w : WarmGrace) (calls : List Call) (call : Call) :
    w.run (calls ++ [call]) = (w.run calls).step call := by
  simp [run]

theorem answers_concat (w : WarmGrace) (calls : List Call) (call : Call) :
    w.answers (calls ++ [call]) = w.answers calls ++ [((w.run calls).shouldReset call).1] := by
  rw [answers, answers, Lib.reports_append]
  rfl

end WarmGrace

end Budyk
