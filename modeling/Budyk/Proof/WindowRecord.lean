import Mathlib
import Budyk.Storage.TierAggregator
import Budyk.Spec.WindowRecord

/-! The record that the aggregator folds a window into is the one the window specifies. -/

namespace Budyk.Proof
open Lib Storage Spec AggregatorOf

theorem addEntropy_eq {F : Type} (a : AggregatorOf F) (s : SampleOf F) :
    addEntropy a s = { a with
      entropyMin := if s.entropy.present then Min.min a.entropyMin s.entropy.availableBits else a.entropyMin
      entropyPresent := a.entropyPresent || s.entropy.present } := by
  unfold addEntropy
  cases present : s.entropy.present <;> simp

section Gated
variable {F V : Type} [DoubleArith F]

theorem addClock_eq (a : AggregatorOf F) (s : SampleOf F) :
    addClock a s = { a with clock := (addClock a s).clock } := by
  unfold addClock
  split <;> rfl

def having {F : Type} (window : List (SampleOf F)) (bit : UInt32) : List (SampleOf F) :=
  window.filter fun s => hasGroup s.groups bit

/-- The adders, by group. -/
@[simp] def adderOf : MetricGroup → AggregatorOf F → SampleOf F → AggregatorOf F
  | .cpu => addCpu
  | .mem => addMem
  | .swap => addSwap
  | .load => addLoad
  | .disk => addDisk
  | .net => addNet
  | .proc => addProc
  | .entropy => fun a s => { a with
      entropyMin := if s.entropy.present then Min.min a.entropyMin s.entropy.availableBits else a.entropyMin
      entropyPresent := a.entropyPresent || s.entropy.present }
  | .self => addSelf
  | .thermal => addThermal
  | .fileWatch => addFileWatch
  | .uptime => addUptime
  | .tcp => addTcp
  | .udp => addUdp
  | .icmp => addIcmp
  | .fs => addFs
  | .clock => fun a s => { a with clock := (addClock a s).clock }

def adderOrder : List MetricGroup :=
  [.cpu, .mem, .swap, .load, .disk, .net, .proc, .self, .thermal, .entropy, .fileWatch, .uptime, .tcp, .udp, .icmp, .fs,
    .clock]

theorem groupAdders_eq : groupAdders (F := F) = adderOrder.map fun g => (g.bit, adderOf g) := by
  have entropy : addEntropy (F := F) = adderOf .entropy := by
    funext a s
    exact addEntropy_eq a s
  have clock : addClock (F := F) = adderOf .clock := by
    funext a s
    exact addClock_eq a s
  unfold groupAdders
  rw [entropy, clock]
  rfl

/-- What the aggregator knows of a group, `summary` of the samples that have it. -/
structure Gated (g : MetricGroup) (view : AggregatorOf F → V) (summary : List (SampleOf F) → V) : Prop where
  start : ∀ outLevel, view (empty outLevel) = summary []
  own : ∀ a s ss, view a = summary ss → view (adderOf g a s) = summary (ss ++ [s])
  other : ∀ h ≠ g, ∀ a s, view (adderOf h a s) = view a
  header : ∀ (a : AggregatorOf F) n firstTs ts groupN, view { a with
    n := n, firstTs := firstTs, groupN := groupN, last := { a.last with timestampNanos := ts } } = view a

theorem Gated.adders {g : MetricGroup} {view : AggregatorOf F → V} {summary : List (SampleOf F) → V}
    (gated : Gated g view summary) {gs : List MetricGroup} (nodup : gs.Nodup) {a : AggregatorOf F} {s : SampleOf F}
    {ss : List (SampleOf F)} (sound : view a = summary ss) :
    view (gs.foldl (fun a h => if hasGroup s.groups h.bit then adderOf h a s else a) a) =
      summary (if g ∈ gs ∧ hasGroup s.groups g.bit then ss ++ [s] else ss) := by
  induction gs generalizing a ss with
  | nil => simpa using sound
  | cons h gs ih =>
      obtain ⟨absent, nodup⟩ := List.nodup_cons.mp nodup
      rw [List.foldl_cons]
      by_cases same : h = g
      · subst same
        by_cases held : hasGroup s.groups h.bit
        · rw [if_pos held, ih nodup (gated.own a s ss sound)]
          simp [absent, held]
        · rw [if_neg held, ih nodup sound]
          simp [held]
      · have kept : view (if hasGroup s.groups h.bit then adderOf h a s else a) = summary ss := by
          split
          next => rw [gated.other h same, sound]
          next => exact sound
        rw [ih nodup kept]
        simp [Ne.symm same]

theorem Gated.add {g : MetricGroup} {view : AggregatorOf F → V} {summary : List (SampleOf F) → V}
    (gated : Gated g view summary) {a : AggregatorOf F} (s : SampleOf F) {ss : List (SampleOf F)}
    (sound : view a = summary ss) :
    view (a.add s) = summary (if hasGroup s.groups g.bit then ss ++ [s] else ss) := by
  have nodup : adderOrder.Nodup := by decide
  have complete : g ∈ adderOrder := by cases g <;> decide
  unfold AggregatorOf.add addGroups
  rw [groupAdders_eq, List.foldl_map]
  refine (gated.adders nodup ((gated.header a _ _ _ _).trans sound)).trans ?_
  simp [complete]

theorem Gated.window {g : MetricGroup} {view : AggregatorOf F → V} {summary : List (SampleOf F) → V}
    (gated : Gated g view summary) (outLevel : Level) (window : List (SampleOf F)) :
    view (ofWindow outLevel window) = summary (having window g.bit) := by
  induction window using List.reverseRecOn with
  | nil => exact gated.start outLevel
  | append_singleton window s ih =>
      rw [ofWindow_append, gated.add s ih, having, having, List.filter_append]
      by_cases held : hasGroup s.groups g.bit <;> simp [held]

end Gated

/-! ## The counts -/

section Counts
variable {F : Type} [DoubleArith F]

def shifted (i : Nat) : UInt32 := (1 : UInt32) <<< UInt32.ofNat i

theorem shifted_bit : ∀ i < 32, (shifted i).toBitVec = BitVec.twoPow 32 i := by decide

def index : MetricGroup → Nat
  | .cpu => 0
  | .mem => 1
  | .swap => 2
  | .load => 3
  | .disk => 4
  | .net => 5
  | .proc => 6
  | .entropy => 7
  | .self => 8
  | .thermal => 9
  | .fileWatch => 10
  | .uptime => 11
  | .tcp => 12
  | .udp => 13
  | .fs => 14
  | .clock => 15
  | .icmp => 16

theorem index_spec (g : MetricGroup) : index g < kGroupCount ∧ g.bit = shifted (index g) ∧ g.bit.toNat.log2 = index g := by
  cases g <;> decide

theorem of_index : ∀ i < kGroupCount, ∃ g, index g = i := by
  intro i small
  interval_cases i
  exacts [⟨.cpu, rfl⟩, ⟨.mem, rfl⟩, ⟨.swap, rfl⟩, ⟨.load, rfl⟩, ⟨.disk, rfl⟩, ⟨.net, rfl⟩, ⟨.proc, rfl⟩, ⟨.entropy, rfl⟩,
    ⟨.self, rfl⟩, ⟨.thermal, rfl⟩, ⟨.fileWatch, rfl⟩, ⟨.uptime, rfl⟩, ⟨.tcp, rfl⟩, ⟨.udp, rfl⟩, ⟨.fs, rfl⟩, ⟨.clock, rfl⟩,
    ⟨.icmp, rfl⟩]

theorem addGroups_groupN (a : AggregatorOf F) (s : SampleOf F) : (a.addGroups s).groupN = a.groupN := by
  unfold addGroups
  rw [groupAdders_eq, List.foldl_map]
  refine List.foldlRecOn (motive := fun b : AggregatorOf F => b.groupN = a.groupN) adderOrder _ rfl ?_
  intro b same h _
  change (if hasGroup s.groups h.bit then adderOf h b s else b).groupN = a.groupN
  split
  next => cases h <;> exact same
  next => exact same

theorem ofWindow_groupN (outLevel : Level) (window : List (SampleOf F)) {i : Nat} (small : i < kGroupCount) :
    (ofWindow outLevel window).groupN[i]? = some (UInt32.ofNat (having window (shifted i)).length) := by
  induction window using List.reverseRecOn with
  | nil => simp [ofWindow, empty, small, having]
  | append_singleton window s ih =>
      rw [ofWindow_append, AggregatorOf.add, addGroups_groupN, Vector.getElem?_mapIdx, ih, having, having, List.filter_append]
      by_cases held : hasGroup s.groups (shifted i)
      · simp [shifted, show hasGroup s.groups ((1 : UInt32) <<< UInt32.ofNat i) = true from held]
      · simp [shifted, show ¬hasGroup s.groups ((1 : UInt32) <<< UInt32.ofNat i) = true from held]

/-- No count has wrapped: fewer samples than 2 ^ 32 had each group. -/
def Unwrapped (window : List (SampleOf F)) : Prop := ∀ g : MetricGroup, (having window g.bit).length < 2 ^ 32

variable {window : List (SampleOf F)} (unwrapped : Unwrapped window) (outLevel : Level)
include unwrapped

theorem Unwrapped.count {i : Nat} (small : i < kGroupCount) :
    ∃ n : UInt32, (ofWindow outLevel window).groupN[i]? = some n ∧ n.toNat = (having window (shifted i)).length := by
  obtain ⟨g, rfl⟩ := of_index i small
  refine ⟨_, ofWindow_groupN outLevel window small, ?_⟩
  rw [UInt32.toNat_ofNat', ← (index_spec g).2.1]
  exact Nat.mod_eq_of_lt (unwrapped g)

theorem Unwrapped.invN (g : MetricGroup) :
    ∃ n : UInt32, n.toNat = (having window g.bit).length ∧
      (ofWindow outLevel window).invN g.bit = if n > 0 then DoubleArith.recip n else 0 := by
  obtain ⟨small, same, place⟩ := index_spec g
  obtain ⟨n, count, length⟩ := unwrapped.count outLevel small
  refine ⟨n, by rw [same]; exact length, ?_⟩
  unfold AggregatorOf.invN
  rw [place, count]

end Counts

/-! ## The groups -/

theorem or_shifted_bits (m : UInt32) {i j : Nat} (small : i < 32) :
    (m ||| shifted i).toBitVec.getLsbD j = (m.toBitVec.getLsbD j || decide (i = j)) := by
  rw [UInt32.toBitVec_or, BitVec.getLsbD_or, shifted_bit i small, BitVec.getLsbD_twoPow]
  simp [small]

theorem counted_bits (counts : List UInt32) (first : Nat) (acc : UInt32) {j : Nat} (small : first + counts.length ≤ 32) :
    ((counts.zipIdx first).foldl (fun groups (n, i) => if n > 0 then groups ||| shifted i else groups) acc).toBitVec.getLsbD j =
      (acc.toBitVec.getLsbD j || (decide (first ≤ j) && (counts[j - first]?.any fun n => n > 0))) := by
  induction counts generalizing first acc with
  | nil => simp
  | cons n counts ih =>
      rw [List.length_cons] at small
      rw [List.zipIdx_cons, List.foldl_cons, ih (first + 1) _ (by omega)]
      have here : (if n > 0 then acc ||| shifted first else acc).toBitVec.getLsbD j =
          (acc.toBitVec.getLsbD j || (decide (first = j) && decide (n > 0))) := by
        split
        next nonempty =>
          rw [or_shifted_bits acc (by omega)]
          simp [nonempty]
        next lacking => simp [lacking]
      rw [here]
      obtain less | rfl | more := Nat.lt_trichotomy first j
      · obtain ⟨k, rfl⟩ : ∃ k, j = first + 1 + k := ⟨j - (first + 1), by omega⟩
        have skip : first + 1 + k - first = k + 1 := by omega
        have rest : first + 1 + k - (first + 1) = k := by omega
        rw [skip, rest, List.getElem?_cons_succ]
        simp [show first ≠ first + 1 + k by omega, show first ≤ first + 1 + k by omega]
      · simp
      · simp [show ¬first ≤ j by omega, show ¬first + 1 ≤ j by omega, show first ≠ j by omega]

theorem allGroups_bit (window : List (SampleOf ℚ)) (j : Nat) :
    (allGroups window).toBitVec.getLsbD j = window.any fun s => s.groups.toBitVec.getLsbD j := by
  unfold allGroups
  induction window using List.reverseRecOn with
  | nil => simp
  | append_singleton window s ih => simp [ih]

theorem having_nonempty {window : List (SampleOf ℚ)} {j : Nat} (small : j < 32) :
    0 < (having window (shifted j)).length ↔ (window.any fun s => s.groups.toBitVec.getLsbD j) = true := by
  rw [List.length_pos_iff_exists_mem, List.any_eq_true]
  refine exists_congr fun s => ?_
  rw [having, List.mem_filter]
  exact and_congr_right fun _ => by rw [hasGroup, ← meets, meets_bit small (shifted_bit j small)]

theorem kGroupsAll_bit : ∀ j < 32, kGroupsAll.toBitVec.getLsbD j = decide (j < 17) := by decide

/-! ## In exact arithmetic -/

theorem least_of {bits : List UInt32} : (if (!bits.isEmpty) = true then bits.foldl min 0xFFFFFFFF else 0) = bits.min?.getD 0 := by
  cases bits with
  | nil => rfl
  | cons b bits =>
      have first : min 0xFFFFFFFF b = b := by
        have most : b ≤ 0xFFFFFFFF := by
          rw [UInt32.le_iff_toNat_le]
          have bound := b.toNat_lt
          have top : (0xFFFFFFFF : UInt32).toNat = 2 ^ 32 - 1 := rfl
          omega
        change (if 0xFFFFFFFF ≤ b then 0xFFFFFFFF else b) = b
        split
        next least => exact UInt32.le_antisymm least most
        next => rfl
      rw [List.min?_cons', Option.getD_some, List.foldl_cons, first]
      rfl

theorem sum_le {values : List Nat} {bound : Nat} (each : ∀ v ∈ values, v ≤ bound) : values.sum ≤ values.length * bound := by
  simpa using List.sum_le_card_nsmul values bound each

theorem saturated {n : Nat} (small : n < 2 ^ 64) :
    (min (UInt64.ofNat n) 0xFFFFFFFF).toUInt32 = UInt32.ofNat (min n (2 ^ 32 - 1)) := by
  have exactly : (UInt64.ofNat n).toNat = n := by
    rw [UInt64.toNat_ofNat']
    exact Nat.mod_eq_of_lt small
  have top : (0xFFFFFFFF : UInt64).toNat = 2 ^ 32 - 1 := rfl
  change (if UInt64.ofNat n ≤ 0xFFFFFFFF then UInt64.ofNat n else 0xFFFFFFFF).toUInt32 = _
  split
  next least =>
    rw [UInt64.le_iff_toNat_le, exactly, top] at least
    rw [Nat.min_eq_left least]
    apply UInt32.toNat_inj.mp
    rw [UInt64.toNat_toUInt32, exactly, UInt32.toNat_ofNat']
  next more =>
    rw [UInt64.le_iff_toNat_le, exactly, top] at more
    rw [Nat.min_eq_right (by omega)]
    rfl

/-! What is kept of a field of the samples that have its group. -/

section Kept
variable {α : Type} (ss : List (SampleOf ℚ)) (s : SampleOf ℚ) (field : SampleOf ℚ → α)

def sum (field : SampleOf ℚ → ℚ) : ℚ := (ss.map field).sum

@[simp] theorem sum_nil (field : SampleOf ℚ → ℚ) : sum [] field = 0 := rfl

@[simp] theorem sum_concat (field : SampleOf ℚ → ℚ) : sum (ss ++ [s]) field = sum ss field + field s := by
  simp [sum]

def most [Zero α] [Max α] : α := greatest (ss.map field)

@[simp] theorem most_nil [Zero α] [Max α] : most [] field = 0 := rfl

@[simp] theorem most_concat [Zero α] [Max α] : most (ss ++ [s]) field = max (most ss field) (field s) := by
  simp [most, greatest]

def last [Zero α] : α := lastOf (ss.map field)

@[simp] theorem last_nil [Zero α] : last [] field = 0 := rfl

@[simp] theorem last_concat [Zero α] : last (ss ++ [s]) field = field s := by
  simp [last, lastOf]

end Kept

section Exact
variable [Unspecified]

@[reducible] instance exactDoubles : DoubleArith ℚ where
  add := (· + ·)
  mul := (· * ·)
  recip n := 1 / n.toNat
  ofU64 := u64
  less a b := a < b
  fabs x := |x|
  llround := llround

@[simp] theorem add_exact (a b : ℚ) : DoubleArith.add a b = a + b := rfl

@[simp] theorem ofU64_exact (x : UInt64) : DoubleArith.ofU64 x = u64 x := rfl

@[simp] theorem max_exact (a b : ℚ) : DoubleArith.max a b = max a b := by
  unfold DoubleArith.max
  simp only [DoubleArith.less, decide_eq_true_eq]
  split
  next less => exact (max_eq_right less.le).symm
  next least => exact (max_eq_left (not_lt.mp least)).symm

/-! The groups whose fields are means, maxima and last values. -/

theorem gated_cpu : Gated .cpu (fun a => (a.cpuTotalPercentSum, a.cpuPartSum, a.last.cpu)) fun ss : List (SampleOf ℚ) =>
    (sum ss fun s => s.cpu.totalPercent,
      #v[sum ss fun s => s.cpu.userPercent, sum ss fun s => s.cpu.systemPercent, sum ss fun s => s.cpu.iowaitPercent,
        sum ss fun s => s.cpu.irqPercent, sum ss fun s => s.cpu.stealPercent, sum ss fun s => s.cpu.idlePercent],
      last ss fun s => s.cpu) where
  start _ := rfl
  own a s ss known := by
    simp only [Prod.mk.injEq] at known
    simp [addCpu, known]
  other h other a s := by cases h <;> first | exact absurd rfl other | rfl
  header _ _ _ _ _ := rfl

theorem gated_mem : Gated .mem (fun a => (a.memAvailableSum, a.memAvailablePercentSum, a.last.mem))
    fun ss : List (SampleOf ℚ) =>
      (sum ss fun s => u64 s.mem.available, sum ss fun s => s.mem.availablePercent, last ss fun s => s.mem) where
  start _ := rfl
  own a s ss known := by
    simp only [Prod.mk.injEq] at known
    simp [addMem, known]
  other h other a s := by cases h <;> first | exact absurd rfl other | rfl
  header _ _ _ _ _ := rfl

theorem gated_swap : Gated .swap (fun a => (a.swapUsedSum, a.swapUsedPercentSum, a.last.swap))
    fun ss : List (SampleOf ℚ) =>
      (sum ss fun s => u64 s.swap.used, sum ss fun s => s.swap.usedPercent, last ss fun s => s.swap) where
  start _ := rfl
  own a s ss known := by
    simp only [Prod.mk.injEq] at known
    simp [addSwap, known]
  other h other a s := by cases h <;> first | exact absurd rfl other | rfl
  header _ _ _ _ _ := rfl

theorem gated_load : Gated .load (fun a => (a.load1mSum, a.load5mSum, a.load15mSum))
    fun ss : List (SampleOf ℚ) =>
      (sum ss fun s => s.load.avg1m, sum ss fun s => s.load.avg5m, sum ss fun s => s.load.avg15m) where
  start _ := rfl
  own a s ss known := by
    simp only [Prod.mk.injEq] at known
    simp [addLoad, known]
  other h other a s := by cases h <;> first | exact absurd rfl other | rfl
  header _ _ _ _ _ := rfl

theorem gated_disk : Gated .disk (fun a => (a.diskReadSum, a.diskWriteSum, a.last.disk))
    fun ss : List (SampleOf ℚ) =>
      (sum ss fun s => u64 s.disk.readBytesPerSec, sum ss fun s => u64 s.disk.writeBytesPerSec,
        last ss fun s => s.disk) where
  start _ := rfl
  own a s ss known := by
    simp only [Prod.mk.injEq] at known
    simp [addDisk, known]
  other h other a s := by cases h <;> first | exact absurd rfl other | rfl
  header _ _ _ _ _ := rfl

theorem gated_net : Gated .net (fun a => (a.netRxSum, a.netTxSum, a.last.net))
    fun ss : List (SampleOf ℚ) =>
      (sum ss fun s => u64 s.net.rxBytesPerSec, sum ss fun s => u64 s.net.txBytesPerSec, last ss fun s => s.net) where
  start _ := rfl
  own a s ss known := by
    simp only [Prod.mk.injEq] at known
    simp [addNet, known]
  other h other a s := by cases h <;> first | exact absurd rfl other | rfl
  header _ _ _ _ _ := rfl

theorem gated_proc : Gated .proc (fun a => (a.procTotalMax, a.procRunningMax, a.procMax))
    fun ss : List (SampleOf ℚ) =>
      (most ss fun s => s.proc.total, most ss fun s => s.proc.running,
        { total := 0, running := 0, sleeping := most ss fun s => s.proc.sleeping, blocked := most ss fun s => s.proc.blocked,
          stopped := most ss fun s => s.proc.stopped, zombie := most ss fun s => s.proc.zombie,
          threads := most ss fun s => s.proc.threads }) where
  start _ := rfl
  own a s ss known := by
    simp only [Prod.mk.injEq] at known
    simp [addProc, known]
  other h other a s := by cases h <;> first | exact absurd rfl other | rfl
  header _ _ _ _ _ := rfl

theorem gated_self : Gated .self (fun a => (a.rssMax, a.last.self))
    fun ss : List (SampleOf ℚ) => (most ss fun s => s.self.rssBytes, last ss fun s => s.self) where
  start _ := rfl
  own a s ss known := by
    simp only [Prod.mk.injEq] at known
    simp [addSelf, known]
  other h other a s := by cases h <;> first | exact absurd rfl other | rfl
  header _ _ _ _ _ := rfl

theorem gated_uptime : Gated .uptime (fun a => a.last.uptimeSeconds)
    fun ss : List (SampleOf ℚ) => last ss fun s => s.uptimeSeconds where
  start _ := rfl
  own a s ss known := by simp [addUptime]
  other h other a s := by cases h <;> first | exact absurd rfl other | rfl
  header _ _ _ _ _ := rfl

theorem gated_tcp : Gated .tcp (fun a => (a.tcpRateSum, a.tcp))
    fun ss : List (SampleOf ℚ) =>
      (#v[sum ss fun s => s.tcp.activeOpensPerSec, sum ss fun s => s.tcp.passiveOpensPerSec,
          sum ss fun s => s.tcp.retransmitsPerSec, sum ss fun s => s.tcp.inSegmentsPerSec,
          sum ss fun s => s.tcp.outSegmentsPerSec, sum ss fun s => s.tcp.inErrorsPerSec],
        { (0 : TcpStats ℚ) with
          established := most ss fun s => s.tcp.established
          timeWait := most ss fun s => s.tcp.timeWait
          present := (ss.map fun s => s.tcp.present).any id }) where
  start _ := rfl
  own a s ss known := by
    simp only [Prod.mk.injEq] at known
    simp [addTcp, known]
  other h other a s := by cases h <;> first | exact absurd rfl other | rfl
  header _ _ _ _ _ := rfl

theorem gated_udp : Gated .udp (fun a => (a.udpRateSum, a.udpPresent))
    fun ss : List (SampleOf ℚ) =>
      (#v[sum ss fun s => s.udp.inDatagramsPerSec, sum ss fun s => s.udp.outDatagramsPerSec,
          sum ss fun s => s.udp.noPortPerSec, sum ss fun s => s.udp.inErrorsPerSec],
        (ss.map fun s => s.udp.present).any id) where
  start _ := rfl
  own a s ss known := by
    simp only [Prod.mk.injEq] at known
    simp [addUdp, known]
  other h other a s := by cases h <;> first | exact absurd rfl other | rfl
  header _ _ _ _ _ := rfl

theorem gated_icmp : Gated .icmp (fun a => (a.icmpRateSum, a.icmpPresent))
    fun ss : List (SampleOf ℚ) =>
      (#v[sum ss fun s => s.icmp.inMsgsPerSec, sum ss fun s => s.icmp.outMsgsPerSec,
          sum ss fun s => s.icmp.inErrorsPerSec, sum ss fun s => s.icmp.inDestUnreachsPerSec],
        (ss.map fun s => s.icmp.present).any id) where
  start _ := rfl
  own a s ss known := by
    simp only [Prod.mk.injEq] at known
    simp [addIcmp, known]
  other h other a s := by cases h <;> first | exact absurd rfl other | rfl
  header _ _ _ _ _ := rfl

theorem gated_fs : Gated .fs (fun a => (a.fsMax, a.last.fs))
    fun ss : List (SampleOf ℚ) =>
      ({ count := 0, maxUsedPercent := most ss fun s => s.fs.maxUsedPercent,
         maxInodesUsedPercent := most ss fun s => s.fs.maxInodesUsedPercent,
         present := (ss.map fun s => s.fs.present).any id },
        last ss fun s => s.fs) where
  start _ := rfl
  own a s ss known := by
    simp only [Prod.mk.injEq] at known
    simp [addFs, known]
  other h other a s := by cases h <;> first | exact absurd rfl other | rfl
  header _ _ _ _ _ := rfl

/-! The groups whose samples may lack what they are to hold. -/

def temperatures (ss : List (SampleOf ℚ)) : List ℚ :=
  ((ss.map fun s => s.thermal).filter fun t => t.present).map fun t => t.maxCelsius

theorem gated_thermal : Gated .thermal (fun a => (a.thermalPresent, a.thermalMax, a.last.thermal))
    fun ss : List (SampleOf ℚ) =>
      (((ss.map fun s => s.thermal).any fun t => t.present), ((temperatures ss).argmax id).getD 0, last ss fun s => s.thermal) where
  start _ := rfl
  own a s ss known := by
    simp only [Prod.mk.injEq] at known
    obtain ⟨present, hottest, -⟩ := known
    have lacking : (temperatures ss).argmax id = none ↔ a.thermalPresent = false := by
      rw [List.argmax_eq_none, present]
      simp [temperatures]
    simp only [adderOf, addThermal, present, last_concat, Prod.mk.injEq]
    refine ⟨by simp, ?_, trivial⟩
    cases shown : s.thermal.present with
    | false => simp [temperatures, shown, hottest]
    | true =>
        have more : temperatures (ss ++ [s]) = temperatures ss ++ [s.thermal.maxCelsius] := by
          simp [temperatures, shown]
        rw [more, List.argmax_concat, ← present, hottest]
        cases found : (temperatures ss).argmax id with
        | none => simp [lacking.mp found]
        | some t =>
            have before : a.thermalPresent = true := by
              rw [← Bool.not_eq_false, ← lacking, found]
              simp
            simp only [before, if_true, Option.getD_some, id, max_exact]
            split
            next less => exact max_eq_right less.le
            next least => exact max_eq_left (not_lt.mp least)
  other h other a s := by cases h <;> first | exact absurd rfl other | rfl
  header _ _ _ _ _ := rfl

theorem gated_entropy : Gated .entropy (fun a => (a.entropyMin, a.entropyPresent))
    fun ss : List (SampleOf ℚ) =>
      (((((ss.map fun s => s.entropy).filter fun e => e.present).map fun e => e.availableBits).foldl min 0xFFFFFFFF),
        !((ss.map fun s => s.entropy).filter fun e => e.present).isEmpty) where
  start _ := rfl
  own a s ss known := by
    simp only [Prod.mk.injEq] at known
    cases shown : s.entropy.present <;> simp [known, shown]
  other h other a s := by cases h <;> first | exact absurd rfl other | rfl
  header _ _ _ _ _ := rfl

theorem gated_fileWatch : Gated .fileWatch (fun a => (a.fileEventsSum, a.fileWatchPresent, a.last.fileWatch))
    fun ss : List (SampleOf ℚ) =>
      (UInt64.ofNat ((ss.map fun s => s.fileWatch).map fun f => f.eventsThisTick.toNat).sum,
        (ss.map fun s => s.fileWatch).any fun f => f.present, last ss fun s => s.fileWatch) where
  start _ := rfl
  own a s ss known := by
    simp only [Prod.mk.injEq] at known
    simp [addFileWatch, known]
  other h other a s := by cases h <;> first | exact absurd rfl other | rfl
  header _ _ _ _ _ := rfl

def clocks (ss : List (SampleOf ℚ)) : List (ClockStats ℚ) := (ss.map fun s => s.clock).filter fun c => c.present

theorem gated_clock : Gated .clock (fun a => a.clock)
    fun ss : List (SampleOf ℚ) =>
      { offsetMs := (((clocks ss).map fun c => c.offsetMs).argmax fun offset => |offset|).getD 0
        maxErrorMs := greatest ((clocks ss).map fun c => c.maxErrorMs)
        synced := (clocks ss).all fun c => c.synced
        present := !(clocks ss).isEmpty } where
  start _ := rfl
  own a s ss known := by
    simp only [adderOf, addClock]
    cases shown : s.clock.present with
    | false =>
        have same : clocks (ss ++ [s]) = clocks ss := by simp [clocks, shown]
        rw [same]
        exact known
    | true =>
        have more : clocks (ss ++ [s]) = clocks ss ++ [s.clock] := by simp [clocks, shown]
        rw [more, if_pos rfl]
        simp only [known, List.map_append, List.map_cons, List.map_nil, List.argmax_concat, List.all_append, List.all_cons,
          List.all_nil, Bool.and_true, ClockStats.mk.injEq, max_exact]
        refine ⟨?_, by simp [greatest], trivial, by simp⟩
        generalize clocks ss = before
        cases before with
        | nil => rfl
        | cons c rest =>
            obtain ⟨offset, found⟩ : ∃ offset, ((c :: rest).map fun c => c.offsetMs).argmax (fun offset => |offset|) =
                some offset := by
              cases found : ((c :: rest).map fun c => c.offsetMs).argmax (fun offset => |offset|) with
              | none => exact absurd (List.argmax_eq_none.mp found) (by simp)
              | some offset => exact ⟨offset, rfl⟩
            rw [found]
            simp only [Option.getD_some, List.isEmpty_cons, Bool.not_false, Bool.not_true, Bool.false_or, DoubleArith.less,
              DoubleArith.fabs, decide_eq_true_eq]
            split <;> rfl
  other h other a s := by cases h <;> first | exact absurd rfl other | rfl
  header _ _ _ _ _ := rfl

theorem gated_baseline : Gated .cpu (fun a => a.last.baseline) fun _ : List (SampleOf ℚ) => 0 where
  start _ := rfl
  own a s ss known := known
  other h other a s := by cases h <;> first | exact absurd rfl other | rfl
  header _ _ _ _ _ := rfl

/-! ## The record -/

variable {window : List (SampleOf ℚ)} (unwrapped : Unwrapped window) (outLevel : Level)

section
include unwrapped

theorem ofWindow_groups : (ofWindow outLevel window).groups = allGroups window &&& kGroupsAll := by
  apply UInt32.toBitVec_inj.mp
  refine BitVec.eq_of_getLsbD_eq fun j within => ?_
  have counted := counted_bits (ofWindow outLevel window).groupN.toList 0 0 (j := j) (by
    rw [Vector.length_toList]
    decide)
  refine counted.trans ?_
  rw [UInt32.toBitVec_and, BitVec.getLsbD_and, allGroups_bit, kGroupsAll_bit j within]
  by_cases small : j < kGroupCount
  · obtain ⟨n, count, length⟩ := unwrapped.count outLevel small
    have positive : n > 0 ↔ 0 < (having window (shifted j)).length := by
      rw [← length]
      exact UInt32.lt_iff_toNat_lt
    have found : (ofWindow outLevel window).groupN.toList[j]? = some n := by simpa using count
    rw [Nat.sub_zero, found, Bool.eq_iff_iff]
    simp only [Option.any_some, positive, having_nonempty within]
    simp [small]
  · have absent : (ofWindow outLevel window).groupN.toList[j]? = none := by simpa using small
    rw [Nat.sub_zero, absent]
    simp [small]

theorem Unwrapped.mean (g : MetricGroup) (field : SampleOf ℚ → ℚ) :
    DoubleArith.mul (sum (having window g.bit) field) ((ofWindow outLevel window).invN g.bit) =
      mean (readings window g field) := by
  obtain ⟨n, length, inverse⟩ := unwrapped.invN outLevel g
  have same : readings window g field = (having window g.bit).map field := rfl
  rw [inverse, same, Spec.mean, List.length_map, ← length, sum]
  split
  next => exact mul_one_div _ _
  next lacking =>
    have zero : n.toNat = 0 := by
      have least : ¬(0 : UInt32).toNat < n.toNat := lacking
      simpa using least
    rw [zero]
    simp only [Nat.cast_zero, div_zero]
    exact mul_zero _

theorem cpu_folded : (ofWindow outLevel window).folded.cpu = (windowRecord outLevel window).cpu := by
  have known := gated_cpu.window outLevel window
  simp only [Prod.mk.injEq] at known
  obtain ⟨total, parts, final⟩ := known
  simp only [folded, windowRecord, total, parts, final, ← unwrapped.mean outLevel]
  rfl

theorem mem_folded : (ofWindow outLevel window).folded.mem = (windowRecord outLevel window).mem := by
  have known := gated_mem.window outLevel window
  simp only [Prod.mk.injEq] at known
  obtain ⟨available, percent, final⟩ := known
  simp only [folded, windowRecord, available, percent, final, ← unwrapped.mean outLevel]
  rfl

theorem swap_folded : (ofWindow outLevel window).folded.swap = (windowRecord outLevel window).swap := by
  have known := gated_swap.window outLevel window
  simp only [Prod.mk.injEq] at known
  obtain ⟨used, percent, final⟩ := known
  simp only [folded, windowRecord, used, percent, final, ← unwrapped.mean outLevel]
  rfl

theorem load_folded : (ofWindow outLevel window).folded.load = (windowRecord outLevel window).load := by
  have known := gated_load.window outLevel window
  simp only [Prod.mk.injEq] at known
  obtain ⟨short, middle, long⟩ := known
  simp only [folded, windowRecord, short, middle, long, ← unwrapped.mean outLevel]
  rfl

theorem disk_folded : (ofWindow outLevel window).folded.disk = (windowRecord outLevel window).disk := by
  have known := gated_disk.window outLevel window
  simp only [Prod.mk.injEq] at known
  obtain ⟨reads, writes, final⟩ := known
  simp only [folded, windowRecord, reads, writes, final, ← unwrapped.mean outLevel]
  rfl

theorem net_folded : (ofWindow outLevel window).folded.net = (windowRecord outLevel window).net := by
  have known := gated_net.window outLevel window
  simp only [Prod.mk.injEq] at known
  obtain ⟨received, sent, final⟩ := known
  simp only [folded, windowRecord, received, sent, final, ← unwrapped.mean outLevel]
  rfl

theorem tcp_folded : (ofWindow outLevel window).folded.tcp = (windowRecord outLevel window).tcp := by
  have known := gated_tcp.window outLevel window
  simp only [Prod.mk.injEq] at known
  obtain ⟨rates, counts⟩ := known
  simp only [folded, windowRecord, rates, counts, ← unwrapped.mean outLevel]
  rfl

theorem udp_folded : (ofWindow outLevel window).folded.udp = (windowRecord outLevel window).udp := by
  have known := gated_udp.window outLevel window
  simp only [Prod.mk.injEq] at known
  obtain ⟨rates, present⟩ := known
  simp only [folded, windowRecord, rates, present, ← unwrapped.mean outLevel]
  rfl

theorem icmp_folded : (ofWindow outLevel window).folded.icmp = (windowRecord outLevel window).icmp := by
  have known := gated_icmp.window outLevel window
  simp only [Prod.mk.injEq] at known
  obtain ⟨rates, present⟩ := known
  simp only [folded, windowRecord, rates, present, ← unwrapped.mean outLevel]
  rfl

end

theorem proc_folded : (ofWindow outLevel window).folded.proc = (windowRecord outLevel window).proc := by
  have known := gated_proc.window outLevel window
  simp only [Prod.mk.injEq] at known
  obtain ⟨total, running, states⟩ := known
  simp only [folded, windowRecord, total, running, states]
  rfl

theorem self_folded : (ofWindow outLevel window).folded.self = (windowRecord outLevel window).self := by
  have known := gated_self.window outLevel window
  simp only [Prod.mk.injEq] at known
  obtain ⟨rss, final⟩ := known
  simp only [folded, windowRecord, rss, final]
  rfl

theorem fs_folded : (ofWindow outLevel window).folded.fs = (windowRecord outLevel window).fs := by
  have known := gated_fs.window outLevel window
  simp only [Prod.mk.injEq] at known
  obtain ⟨most, final⟩ := known
  simp only [folded, windowRecord, most, final]
  rfl

theorem thermal_folded : (ofWindow outLevel window).folded.thermal = (windowRecord outLevel window).thermal := by
  have known := gated_thermal.window outLevel window
  simp only [Prod.mk.injEq] at known
  obtain ⟨present, hottest, final⟩ := known
  have lacking : ((having window kGroupThermal).map fun s => s.thermal).any (fun t => t.present) = false →
      temperatures (having window kGroupThermal) = [] := by
    intro absent
    simpa [temperatures] using absent
  have warmest : (if ((having window kGroupThermal).map fun s => s.thermal).any (fun t => t.present) = true
      then ((temperatures (having window kGroupThermal)).argmax id).getD 0 else 0) =
        ((temperatures (having window kGroupThermal)).argmax id).getD 0 := by
    split
    next => rfl
    next absent =>
      rw [lacking (Bool.eq_false_iff.mpr absent)]
      rfl
  simp only [folded, windowRecord, present, hottest, final]
  rw [ThermalStats.mk.injEq]
  exact ⟨warmest, rfl, rfl⟩

theorem entropy_folded : (ofWindow outLevel window).folded.entropy = (windowRecord outLevel window).entropy := by
  have known := gated_entropy.window outLevel window
  simp only [Prod.mk.injEq] at known
  obtain ⟨least, present⟩ := known
  simp only [folded, windowRecord, least, present]
  rw [EntropyStats.mk.injEq]
  refine ⟨?_, rfl⟩
  rw [← least_of, List.isEmpty_map]
  rfl

theorem fileWatch_folded (few : (having window kGroupFileWatch).length < 2 ^ 32) :
    (ofWindow outLevel window).folded.fileWatch = (windowRecord outLevel window).fileWatch := by
  have known := gated_fileWatch.window outLevel window
  simp only [Prod.mk.injEq] at known
  obtain ⟨events, present, final⟩ := known
  have small : (((having window kGroupFileWatch).map fun s => s.fileWatch).map fun f => f.eventsThisTick.toNat).sum <
      2 ^ 64 := by
    have each : ∀ v ∈ ((having window kGroupFileWatch).map fun s => s.fileWatch).map (fun f => f.eventsThisTick.toNat),
        v ≤ 2 ^ 32 - 1 := by
      intro v held
      obtain ⟨f, -, rfl⟩ := List.mem_map.mp held
      have bound := f.eventsThisTick.toNat_lt
      omega
    have least := sum_le each
    rw [List.length_map, List.length_map] at least
    omega
  simp only [folded, windowRecord, events, present, final]
  rw [FileWatchSample.mk.injEq]
  exact ⟨saturated small, rfl, rfl⟩

theorem clock_folded : (ofWindow outLevel window).folded.clock = (windowRecord outLevel window).clock := by
  have known := gated_clock.window outLevel window
  have same : (readings window .clock fun s => s.clock).filter (fun c => c.present) =
      clocks (having window MetricGroup.clock.bit) := rfl
  simp only [folded, windowRecord, known, same]
  cases empty : (clocks (having window MetricGroup.clock.bit)).isEmpty <;> simp

theorem folded_record (unwrapped : Unwrapped window) (nonempty : window ≠ []) :
    (ofWindow outLevel window).folded = windowRecord outLevel window := by
  have lastTs : (ofWindow outLevel window).last.timestampNanos = lastOf (window.map fun s => s.timestampNanos) := by
    rw [ofWindow_lastTs outLevel (List.getLast?_eq_some_getLast nonempty), lastOf, List.getLast?_map,
      List.getLast?_eq_some_getLast nonempty]
    rfl
  have level : (ofWindow outLevel window).folded.level = outLevel := by
    rw [folded_level, ofWindow_outLevel]
  have fields (a b : SampleOf ℚ) (same : a.timestampNanos = b.timestampNanos ∧ a.level = b.level ∧ a.folded = b.folded ∧
      a.groups = b.groups ∧ a.baseline = b.baseline ∧ a.uptimeSeconds = b.uptimeSeconds)
      (cpu : a.cpu = b.cpu) (mem : a.mem = b.mem) (swap : a.swap = b.swap) (load : a.load = b.load)
      (disk : a.disk = b.disk) (net : a.net = b.net) (proc : a.proc = b.proc) (entropy : a.entropy = b.entropy)
      (self : a.self = b.self) (thermal : a.thermal = b.thermal) (fileWatch : a.fileWatch = b.fileWatch)
      (tcp : a.tcp = b.tcp) (udp : a.udp = b.udp) (icmp : a.icmp = b.icmp) (fs : a.fs = b.fs) (clock : a.clock = b.clock) :
      a = b := by
    cases a
    cases b
    simp_all
  refine fields _ _ ⟨lastTs, level, rfl, ofWindow_groups unwrapped outLevel, gated_baseline.window outLevel window,
    gated_uptime.window outLevel window⟩ ?_ ?_ ?_ ?_ ?_ ?_ ?_ ?_ ?_ ?_ ?_ ?_ ?_ ?_ ?_ ?_
  exacts [cpu_folded unwrapped outLevel, mem_folded unwrapped outLevel, swap_folded unwrapped outLevel,
    load_folded unwrapped outLevel, disk_folded unwrapped outLevel, net_folded unwrapped outLevel, proc_folded outLevel,
    entropy_folded outLevel, self_folded outLevel, thermal_folded outLevel, fileWatch_folded outLevel (unwrapped .fileWatch),
    tcp_folded unwrapped outLevel, udp_folded unwrapped outLevel, icmp_folded unwrapped outLevel, fs_folded outLevel,
    clock_folded outLevel]

theorem fold_is_record (calls : List (Call ℚ)) (unwrapped : Unwrapped (since calls)) :
    let window := since calls
    (calls.foldl call (empty outLevel)).fold.1 = (if window = [] then none else some (windowRecord outLevel window)) ∧
      ∀ g, (∀ s ∈ window, hasGroup s.groups g.bit = false) → SaysNothing (windowRecord outLevel window) g := by
  intro window
  refine ⟨?_, fun g => saysNothing_of_absent⟩
  rw [calls_window, fold_ofWindow]
  by_cases nonempty : window = []
  · rw [if_pos nonempty, if_pos nonempty]
  · rw [if_neg nonempty, if_neg nonempty, folded_record outLevel unwrapped nonempty]

end Exact

@[reducible] def zeroOutside : Unspecified := ⟨fun _ => 0⟩

def warmSample : SampleOf ℚ := { (0 : SampleOf ℚ) with groups := kGroupThermal, thermal := ⟨40, 2, true⟩ }

def busySample : SampleOf ℚ := { (0 : SampleOf ℚ) with groups := kGroupCpu }

/-- A window of its own after another. -/
theorem fold_is_record_again :
    letI := zeroOutside
    ((([.add warmSample, .fold, .add busySample].foldl call (empty Level.L1)).fold.1).map fun r => r.thermal) = some 0 := by
  let _ := zeroOutside
  have unwrapped : Unwrapped (since ([.add warmSample, .fold, .add busySample] : List (Call ℚ))) := by
    intro g
    exact Nat.lt_of_le_of_lt (List.length_filter_le _ _) (by decide)
  have record := fold_is_record Level.L1 [.add warmSample, .fold, .add busySample] unwrapped
  have nonempty : since ([.add warmSample, .fold, .add busySample] : List (Call ℚ)) ≠ [] := List.cons_ne_nil _ _
  have cold : SaysNothing (windowRecord Level.L1 (since [.add warmSample, .fold, .add busySample])) .thermal :=
    record.2 .thermal (by decide +kernel)
  rw [record.1, if_neg nonempty]
  exact congrArg some cold

/-! ## Where the record is not the last reading -/

theorem since_replicate {F : Type} (n : Nat) (s : SampleOf F) : since (List.replicate n (Call.add s)) = List.replicate n s := by
  induction n with
  | zero => rfl
  | succ n ih =>
      rw [List.replicate_succ', since, List.rtakeWhile_concat_pos _ _ _ rfl, List.filterMap_append, ← since, ih,
        List.replicate_succ']
      rfl

section Wrapped
variable {F : Type} [DoubleArith F]

theorem wrapped_count {n : Nat} (wraps : UInt32.ofNat n = 0) (positive : n ≠ 0) {s : SampleOf F}
    (busy : hasGroup s.groups kGroupCpu = true) :
    (((List.replicate n (Call.add s)).foldl call (empty Level.L1)).fold.1.map fun r => hasGroup r.groups kGroupCpu) =
      some false := by
  have nonempty : List.replicate n s ≠ [] := by simpa using positive
  have all : having (List.replicate n s) (shifted 0) = List.replicate n s := by
    refine List.filter_eq_self.mpr fun other held => ?_
    rw [List.eq_of_mem_replicate held]
    exact busy
  have count := ofWindow_groupN Level.L1 (List.replicate n s) (i := 0) (by decide)
  rw [all, List.length_replicate, wraps] at count
  have found : (ofWindow Level.L1 (List.replicate n s)).groupN.toList[0]? = some 0 := by simpa using count
  have unset : (ofWindow Level.L1 (List.replicate n s)).groups.toBitVec.getLsbD 0 = false := by
    refine (counted_bits (ofWindow Level.L1 (List.replicate n s)).groupN.toList 0 0 (j := 0) (by
      rw [Vector.length_toList]
      decide)).trans ?_
    rw [Nat.sub_self, found]
    rfl
  rw [calls_window, since_replicate, fold_ofWindow, if_neg nonempty]
  refine congrArg some ?_
  rw [← unset]
  exact meets_bit (by decide) (shifted_bit 0 (by decide)) _

end Wrapped

def clockSample (maxErrorMs : ℚ) : SampleOf ℚ := { (0 : SampleOf ℚ) with groups := kGroupClock, clock := ⟨0, maxErrorMs, true, true⟩ }

def foldOf (samples : List (SampleOf ℚ)) : Option (SampleOf ℚ) :=
  letI := zeroOutside
  ((samples.map Call.add).foldl call (empty Level.L1)).fold.1

theorem foldOf_replicate {n : Nat} (wraps : UInt32.ofNat n = 0) (positive : n ≠ 0) :
    ((foldOf (List.replicate n busySample)).map fun r => hasGroup r.groups kGroupCpu) = some false := by
  let _ := zeroOutside
  unfold foldOf
  rw [List.map_replicate]
  exact wrapped_count wraps positive rfl

/-- A clock's error is the largest and not the last, a flag is any's, a baseline is no one's, a bit beyond the groups is
dropped, a maximum is at least zero, and 2 ^ 32 samples of a group are none. -/
theorem fold_not_last_reading :
    ((foldOf [clockSample 5, clockSample 3]).map fun r => r.clock.maxErrorMs) = some 5 ∧
      ((foldOf [{ (0 : SampleOf ℚ) with groups := kGroupUdp, udp := { (0 : UdpStats ℚ) with present := true } },
        { (0 : SampleOf ℚ) with groups := kGroupUdp }]).map fun r => r.udp.present) = some true ∧
      ((foldOf [{ (0 : SampleOf ℚ) with baseline := 1 }]).map fun r => r.baseline) = some 0 ∧
      ((foldOf [{ (0 : SampleOf ℚ) with groups := (1 : UInt32) <<< 17 }]).map fun r => r.groups) = some 0 ∧
      ((foldOf [{ (0 : SampleOf ℚ) with groups := kGroupFs, fs := { (0 : FsStats ℚ) with maxUsedPercent := -1 } }]).map
        fun r => r.fs.maxUsedPercent) = some 0 ∧
      ((foldOf (List.replicate (2 ^ 32) busySample)).map fun r => hasGroup r.groups kGroupCpu) = some false := by
  refine ⟨by decide +kernel, by decide +kernel, by decide +kernel, by decide +kernel, by decide +kernel, ?_⟩
  exact foldOf_replicate (by decide) (by decide)

end Budyk.Proof
