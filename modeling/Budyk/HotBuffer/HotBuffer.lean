import Mathlib.Data.Nat.Notation

/-! `HotBuffer` of `hot_buffer/hot_buffer.cpp`: the newest samples, in memory. It never looks into a sample. -/

namespace Budyk

structure HotBuffer (Sample : Type) where
  capacity : Nat
  ring : Vector Sample capacity
  head : Nat
  count : Nat
  headLt : head < capacity
  countLe : count ≤ capacity

namespace HotBuffer
variable {Sample : Type}

theorem capacity_pos (b : HotBuffer Sample) : 0 < b.capacity := Nat.zero_lt_of_lt b.headLt

/-- Capacity 0 is treated as 1. -/
def new [Inhabited Sample] (capacity : Nat) : HotBuffer Sample where
  capacity := if capacity > 0 then capacity else 1
  ring := .replicate _ default
  head := 0
  count := 0
  headLt := by split <;> omega
  countLe := Nat.zero_le _

def push (b : HotBuffer Sample) (s : Sample) : HotBuffer Sample where
  capacity := b.capacity
  ring := b.ring.set b.head s b.headLt
  head := (b.head + 1) % b.capacity
  count := if b.count < b.capacity then b.count + 1 else b.count
  headLt := Nat.mod_lt _ b.capacity_pos
  countLe := by
    have := b.countLe
    split <;> omega

/-- As many samples as `out` has room for, from the oldest on. -/
def dump (b : HotBuffer Sample) (outCap : Nat) : List Sample :=
  if outCap = 0 ∨ b.count = 0 then []
  else
    let n := if b.count < outCap then b.count else outCap
    let start := (b.head + b.capacity - b.count) % b.capacity
    (List.range n).map fun i => b.ring.get ⟨(start + i) % b.capacity, Nat.mod_lt _ b.capacity_pos⟩

def dumpLast (b : HotBuffer Sample) (n : Nat) : List Sample :=
  if n = 0 ∨ b.count = 0 then []
  else
    let n := if n > b.count then b.count else n
    let start := (b.head + b.capacity - n) % b.capacity
    (List.range n).map fun i => b.ring.get ⟨(start + i) % b.capacity, Nat.mod_lt _ b.capacity_pos⟩

def reset (b : HotBuffer Sample) : HotBuffer Sample where
  capacity := b.capacity
  ring := b.ring
  head := 0
  count := 0
  headLt := b.capacity_pos
  countLe := Nat.zero_le _

def size (b : HotBuffer Sample) : Nat := b.count

inductive Call (Sample : Type) where
  | push (s : Sample)
  | reset

def step (b : HotBuffer Sample) : Call Sample → HotBuffer Sample
  | .push s => b.push s
  | .reset => b.reset

def run (b : HotBuffer Sample) (calls : List (Call Sample)) : HotBuffer Sample := calls.foldl step b

@[simp] theorem step_capacity (b : HotBuffer Sample) (call : Call Sample) : (b.step call).capacity = b.capacity := by
  cases call <;> rfl

@[simp] theorem run_capacity (b : HotBuffer Sample) (calls : List (Call Sample)) :
    (b.run calls).capacity = b.capacity := by
  induction calls generalizing b with
  | nil => rfl
  | cons call calls ih => exact (ih (b.step call)).trans (b.step_capacity call)

end HotBuffer

end Budyk
