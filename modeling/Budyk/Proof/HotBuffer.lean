import Mathlib.Data.List.DropRight
import Budyk.Lib.Circular
import Budyk.HotBuffer.HotBuffer

/-! The hot buffer keeps the newest of the samples pushed since its last reset. -/

namespace Budyk.Proof
open Lib

/-- `log` is what was pushed since the last reset. -/
structure Buffers {Sample : Type} (b : HotBuffer Sample) (log : List Sample) : Prop where
  head : b.head = log.length % b.capacity
  count : b.count = min log.length b.capacity
  slots : Holds b.capacity (fun i => b.ring[i]?) (fun i => log[i]?) (log.length - b.capacity) log.length

section Buffer
variable {Sample : Type} {b : HotBuffer Sample} {log : List Sample}

theorem new_buffers [Inhabited Sample] (capacity : Nat) : Buffers (HotBuffer.new capacity : HotBuffer Sample) [] where
  head := (Nat.zero_mod _).symm
  count := (Nat.zero_min _).symm
  slots := fun _ _ inside => absurd inside (Nat.not_lt_zero _)

theorem reset_buffers (b : HotBuffer Sample) : Buffers b.reset [] where
  head := (Nat.zero_mod _).symm
  count := (Nat.zero_min _).symm
  slots := fun _ _ inside => absurd inside (Nat.not_lt_zero _)

theorem Buffers.push (buffers : Buffers b log) (s : Sample) : Buffers (b.push s) (log ++ [s]) := by
  have positive := b.capacity_pos
  have length : (log ++ [s]).length = log.length + 1 := by simp
  have capacity : (b.push s).capacity = b.capacity := rfl
  constructor
  · have head : (b.push s).head = (b.head + 1) % b.capacity := rfl
    rw [head, buffers.head, Nat.mod_add_mod, length, capacity]
  · have := buffers.count
    have count : (b.push s).count = if b.count < b.capacity then b.count + 1 else b.count := rfl
    rw [count, length, capacity]
    split <;> omega
  · have ring : (fun i => (b.push s).ring[i]?) =
        Function.update (fun i => b.ring[i]?) (log.length % b.capacity) (some s) := by
      funext i
      rw [← buffers.head, Function.update_apply]
      exact (Vector.getElem?_set b.headLt).trans (if_congr eq_comm rfl rfl)
    have items : (fun i => (log ++ [s])[i]?) = Function.update (fun i => log[i]?) log.length (some s) := by
      funext i
      rw [Function.update_apply]
      obtain before | rfl | after := Nat.lt_trichotomy i log.length
      · rw [List.getElem?_append_left before, if_neg (Nat.ne_of_lt before)]
      · rw [List.getElem?_concat_length, if_pos rfl]
      · rw [List.getElem?_eq_none (by omega), List.getElem?_eq_none (by omega), if_neg (Nat.ne_of_gt after)]
    rw [ring, items, length, capacity]
    exact buffers.slots.write (by omega) (by omega) _

theorem slot_of_newest {cap len n : Nat} (i : Nat) (some : n ≤ len) (fits : n ≤ cap) :
    ((len % cap + cap - n) % cap + i) % cap = (len - n + i) % cap := by
  have split := Nat.div_add_mod len cap
  rw [Nat.mod_add_mod, ← Nat.add_mod_right (len - n + i),
    show len - n + i + cap = len % cap + cap - n + i + cap * (len / cap) by omega, Nat.add_mul_mod_self_left]

/-- The walk both dumps make: `n` slots on, from the one that item `first` of the log lives in. -/
theorem Buffers.walk (buffers : Buffers b log) {start : Nat} (first n : Nat) (old : log.length - b.capacity ≤ first)
    (inside : first + n ≤ log.length) (slot : ∀ i, (start + i) % b.capacity = (first + i) % b.capacity) :
    ((List.range n).map fun i => b.ring.get ⟨(start + i) % b.capacity, Nat.mod_lt _ b.capacity_pos⟩) =
      (log.drop first).take n := by
  apply List.ext_getElem?
  intro i
  rw [List.getElem?_map, List.getElem?_take, List.getElem?_drop]
  by_cases before : i < n
  · have held := buffers.slots (first + i) (by omega) (by omega)
    simp only at held
    rw [if_pos before, ← held, ← slot, List.getElem?_range before,
      Vector.getElem?_eq_getElem (Nat.mod_lt _ b.capacity_pos)]
    rfl
  · rw [if_neg before, List.getElem?_eq_none (by rw [List.length_range]; omega)]
    rfl

theorem Buffers.dump (buffers : Buffers b log) (n : Nat) : b.dump n = (log.rtake b.capacity).take n := by
  have count := buffers.count
  rw [HotBuffer.dump, List.rtake]
  split
  next nothing =>
    symm
    rw [List.take_eq_nil_iff, List.drop_eq_nil_iff]
    have positive := b.capacity_pos
    omega
  next some =>
    have fewer : (if b.count < n then b.count else n) = min n b.count := by split <;> omega
    have start : log.length - b.count = log.length - b.capacity := by omega
    simp only [fewer, buffers.head]
    rw [buffers.walk (log.length - b.count) _ (by omega) (by omega)
      fun i => slot_of_newest i (by omega) (by omega), start]
    by_cases short : n ≤ b.count
    · rw [Nat.min_eq_left short]
    · rw [Nat.min_eq_right (by omega), List.take_of_length_le (by rw [List.length_drop]; omega),
        List.take_of_length_le (by rw [List.length_drop]; omega)]

theorem Buffers.dumpLast (buffers : Buffers b log) (n : Nat) : b.dumpLast n = log.rtake (min n b.capacity) := by
  have count := buffers.count
  have positive := b.capacity_pos
  rw [HotBuffer.dumpLast, List.rtake]
  split
  · rw [List.drop_eq_nil_of_le (by omega)]
  · have fewer : (if n > b.count then b.count else n) = min n b.count := by split <;> omega
    have same : log.length - min n b.capacity = log.length - min n b.count := by omega
    simp only [fewer, buffers.head]
    rw [buffers.walk (log.length - min n b.count) _ (by omega) (by omega)
      fun i => slot_of_newest i (by omega) (by omega), same,
      List.take_of_length_le (by rw [List.length_drop]; omega)]

/-! ## Runs -/

def pushedSince : List Sample → List (HotBuffer.Call Sample) → List Sample
  | log, [] => log
  | log, .push s :: calls => pushedSince (log ++ [s]) calls
  | _, .reset :: calls => pushedSince [] calls

theorem run_buffers (buffers : Buffers b log) (calls : List (HotBuffer.Call Sample)) :
    Buffers (b.run calls) (pushedSince log calls) := by
  induction calls generalizing b log with
  | nil => exact buffers
  | cons call calls ih =>
      cases call with
      | push s => exact ih (buffers.push s)
      | reset => exact ih (reset_buffers b)

theorem rtake_rtake (kept : List Sample) (n m : Nat) : (kept.rtake m).rtake n = kept.rtake (min n m) := by
  simp only [List.rtake, List.drop_drop, List.length_drop]
  congr 1
  omega

theorem hot_buffer_refines_list [Inhabited Sample] (capacity : Nat) (calls : List (HotBuffer.Call Sample)) :
    let b := (HotBuffer.new capacity : HotBuffer Sample).run calls
    let kept := (pushedSince [] calls).rtake (max capacity 1)
    (∀ n, b.dump n = kept.take n) ∧ (∀ n, b.dumpLast n = kept.rtake n) ∧ b.size = kept.length := by
  have buffers := run_buffers (new_buffers capacity) calls
  have room : ((HotBuffer.new capacity : HotBuffer Sample).run calls).capacity = max capacity 1 := by
    rw [HotBuffer.run_capacity]
    change (if capacity > 0 then capacity else 1) = max capacity 1
    split <;> omega
  refine ⟨fun n => ?_, fun n => ?_, ?_⟩
  · rw [buffers.dump, room]
  · rw [buffers.dumpLast, room, rtake_rtake]
  · rw [HotBuffer.size, buffers.count, room, List.rtake, List.length_drop]
    omega

/-- A buffer made for no samples holds one. -/
theorem hot_buffer_of_capacity_zero : ¬∀ (capacity : Nat) (calls : List (HotBuffer.Call Nat)),
    ((HotBuffer.new capacity : HotBuffer Nat).run calls).size = ((pushedSince [] calls).rtake capacity).length := by
  intro claimed
  have one := claimed 0 [.push 7]
  exact absurd one (by decide)

end Buffer

end Budyk.Proof
