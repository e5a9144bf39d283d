import Mathlib.Algebra.BigOperators.Group.List.Basic
import Mathlib.Algebra.GroupWithZero.Nat

/-! What a call into Lua may use: the allocator, the count hook and the charges of `rules/lua_engine.cpp`, for an
engine that has its Lua state. -/

namespace Budyk.Rules

abbrev kHookInterval : UInt64 := 1000
abbrev kAllocBytesPerInstruction : UInt64 := 64

structure Limits where
  instructionLimit : UInt64
  memoryLimit : UInt64

structure Counters where
  instructionsUsed : UInt64
  /-- Allocated, not yet charged. -/
  allocBytes : UInt64
  memoryUsed : UInt64
  /-- The number of instructions between two firings of the hook. -/
  hookEvery : UInt64
  deriving DecidableEq

namespace Counters
variable (limits : Limits) (c : Counters)

def chargeGrowth (bytes : UInt64) : Counters :=
  let allocBytes := c.allocBytes + bytes
  if allocBytes ≥ kAllocBytesPerInstruction then
    let instructionsUsed := c.instructionsUsed + allocBytes / kAllocBytesPerInstruction
    { c with
      instructionsUsed
      allocBytes := allocBytes % kAllocBytesPerInstruction
      hookEvery := if instructionsUsed > limits.instructionLimit then 1 else c.hookEvery }
  else { c with allocBytes }

/-- `ptr` is the size of the block the pointer is to, none the null pointer; `realloc` is whether the system's
succeeds. With the counters, whether the call returns a block. -/
def alloc (ptr : Option UInt64) (nsize : UInt64) (realloc : Bool) : Bool × Counters :=
  let old := ptr.getD 0
  if nsize = 0 then (false, { c with memoryUsed := c.memoryUsed - old })
  else if nsize > old ∧ c.memoryUsed - old + nsize > limits.memoryLimit then (false, c)
  else if !realloc then (false, c)
  else
    let after := { c with memoryUsed := c.memoryUsed - old + nsize }
    (true, if nsize > old then after.chargeGrowth limits (nsize - old) else after)

/-- With the counters, whether the hook raises. -/
def countHook : Bool × Counters :=
  let c := { c with instructionsUsed := c.instructionsUsed + kHookInterval }
  if c.instructionsUsed > limits.instructionLimit then (true, { c with hookEvery := 1 }) else (false, c)

def charge (n : UInt64) : Bool × Counters :=
  let room := if c.instructionsUsed < limits.instructionLimit then limits.instructionLimit - c.instructionsUsed else 0
  if n > room ∨ c.instructionsUsed > limits.instructionLimit then
    (true, { c with instructionsUsed := limits.instructionLimit + 1, hookEvery := 1 })
  else (false, { c with instructionsUsed := c.instructionsUsed + n })

def beginCall : Counters := { c with instructionsUsed := 0, allocBytes := 0, hookEvery := kHookInterval }

end Counters

/-! ## Runs -/

/-- What Lua asks of the engine. A block is named by its place among the live ones. -/
inductive LimitEvent
  | malloc (nsize : UInt64) (realloc : Bool)
  | realloc (block : Nat) (nsize : UInt64) (realloc : Bool)
  | hook
  | charge (n : UInt64)
  | beginCall

/-- The counters beside what they count: the live blocks, and since the last `begin_call` the bytes of growth
granted and the instructions charged for them, by the hook, and by name. -/
structure Ledger where
  counters : Counters
  live : List UInt64
  growth : Nat
  forGrowth : Nat
  byHook : Nat
  byName : Nat

namespace Ledger
variable (limits : Limits)

def fresh : Ledger := ⟨⟨0, 0, 0, kHookInterval⟩, [], 0, 0, 0, 0⟩

def total (live : List UInt64) : Nat := (live.map UInt64.toNat).sum

/-- No system has 2 ^ 63 bytes to give. -/
def addressSpace : Nat := 2 ^ 63

/-- A call that leaves the blocks of `live` if it is granted. -/
def allocated (w : Ledger) (ptr : Option UInt64) (nsize : UInt64) (realloc : Bool) (live : List UInt64) : Ledger :=
  let result := w.counters.alloc limits ptr nsize (realloc && total live < addressSpace)
  let grown := result.1 && nsize > ptr.getD 0
  { w with
    counters := result.2
    live := if result.1 || nsize = 0 then live else w.live
    growth := if grown then w.growth + (nsize - ptr.getD 0).toNat else w.growth
    forGrowth := w.forGrowth + (result.2.instructionsUsed - w.counters.instructionsUsed).toNat }

def step (w : Ledger) : LimitEvent → Ledger
  | .malloc nsize realloc => w.allocated limits none nsize realloc (if nsize = 0 then w.live else nsize :: w.live)
  | .realloc block nsize realloc =>
      match w.live[block]? with
      | none => w
      | some old =>
          w.allocated limits (some old) nsize realloc (if nsize = 0 then w.live.eraseIdx block else w.live.set block nsize)
  | .hook => { w with counters := (w.counters.countHook limits).2, byHook := w.byHook + kHookInterval.toNat }
  | .charge n => { w with counters := (w.counters.charge limits n).2, byName := w.byName + n.toNat }
  | .beginCall => { w with counters := w.counters.beginCall, growth := 0, forGrowth := 0, byHook := 0, byName := 0 }

def run (events : List LimitEvent) : Ledger := events.foldl (step limits) fresh

/-- All that was charged since the last `begin_call`, what was refused too. -/
def charged (w : Ledger) : Nat := w.byHook + w.forGrowth + w.byName

end Ledger

end Budyk.Rules
