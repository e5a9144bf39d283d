import Budyk.Storage.Crash

namespace Budyk.Proof
open Lib Storage

/-! ## What the slots hold -/

/-- The ring holds exactly the items `lo ≤ i < n` of a log of samples of its level, each in the
slot of its index: the other slots of the lap that starts at `lo` do not decode. -/
structure Holding (r : RingFile) (lo n : Nat) (log : Nat → Sample) : Prop where
  low : lo ≤ n
  room : n ≤ lo + r.capacity
  holds : ∀ i, lo ≤ i → i < n → r.sampleAt i = some (log i)
  empty : ∀ i, n ≤ i → i < lo + r.capacity → r.sampleAt i = none
  fits : ∀ i, lo ≤ i → i < n → levelFitsRing r.tier (log i).level = true

theorem sampleAt_congr {r : RingFile} {i j : Nat} (same : i % r.capacity = j % r.capacity) :
    r.sampleAt i = r.sampleAt j := by
  simp only [RingFile.sampleAt, same]

theorem sampleAt_update {r q : RingFile} {record : Record} {n : Nat}
    (slots : q.slots = Function.update r.slots (n % r.capacity) record)
    (cap : q.capacity = r.capacity) (i : Nat) :
    q.sampleAt i = if i % r.capacity = n % r.capacity then decodeRecord record else r.sampleAt i := by
  simp only [RingFile.sampleAt, slots, cap, Function.update_apply]
  split <;> rfl

namespace Holding
variable {r : RingFile} {lo n : Nat} {log : Nat → Sample}

theorem create (tier : UInt8) (capacity : Nat) (pos : 0 < capacity) (log : Nat → Sample) :
    Holding (RingFile.create tier capacity pos) 0 0 log where
  low := le_rfl
  room := Nat.zero_le _
  holds := fun i _ less => absurd less (Nat.not_lt_zero i)
  empty := fun _ _ _ => decodeRecord_zero
  fits := fun i _ less => absurd less (Nat.not_lt_zero i)

theorem cases (h : Holding r lo n log) (i : Nat) :
    r.sampleAt i = none ∨ ∃ j, lo ≤ j ∧ j < n ∧ j % r.capacity = i % r.capacity ∧
      r.sampleAt i = some (log j) := by
  obtain ⟨j, low, high, same⟩ := exists_mod_eq lo (Nat.mod_lt i r.capacity_pos)
  rw [← sampleAt_congr same]
  by_cases held : j < n
  · exact Or.inr ⟨j, low, held, same, h.holds j low held⟩
  · exact Or.inl (h.empty j (by omega) high)

theorem readFitting_eq (h : Holding r lo n log) (i : Nat) : r.readFitting i = r.sampleAt i := by
  have read : r.readFitting i = (r.sampleAt i).bind fun s =>
      if levelFitsRing r.tier s.level then some s else none := by
    simp only [RingFile.readFitting, r.readAt_mod, RingFile.sampleAt]
    rfl
  rcases h.cases i with none | ⟨j, low, held, -, some⟩
  · rw [read, none]; rfl
  · rw [read, some]
    simp [h.fits j low held]

theorem congr {q : RingFile} (h : Holding r lo n log) (slots : q.slots = r.slots)
    (cap : q.capacity = r.capacity) (tier : q.tier = r.tier) : Holding q lo n log where
  low := h.low
  room := by rw [cap]; exact h.room
  holds := fun i low high => by
    simpa only [RingFile.sampleAt, slots, cap] using h.holds i low high
  empty := fun i low high => by
    rw [cap] at high
    simpa only [RingFile.sampleAt, slots, cap] using h.empty i low high
  fits := fun i low high => by rw [tier]; exact h.fits i low high

theorem log_congr {log' : Nat → Sample} (h : Holding r lo n log)
    (same : ∀ i, lo ≤ i → i < n → log' i = log i) : Holding r lo n log' :=
  { h with
    holds := fun i low high => by rw [same i low high]; exact h.holds i low high
    fits := fun i low high => by rw [same i low high]; exact h.fits i low high }

theorem write {q : RingFile} {record : Record} {s : Sample} (h : Holding r lo n log)
    (slots : q.slots = Function.update r.slots (n % r.capacity) record)
    (cap : q.capacity = r.capacity) (tier : q.tier = r.tier)
    (decodes : decodeRecord record = some s) (fits : levelFitsRing r.tier s.level = true) :
    Holding q (max lo (n + 1 - r.capacity)) (n + 1) (Function.update log n s) := by
  have pos := r.capacity_pos
  have low := h.low
  have room := h.room
  have at' := sampleAt_update slots cap
  refine ⟨by omega, by rw [cap]; omega, ?_, ?_, ?_⟩
  · intro i hl hh
    rw [at']
    by_cases last : i = n
    · simp [last, decodes]
    · rw [if_neg (mod_ne_of_lt (by omega) (by omega)), Function.update_of_ne last]
      exact h.holds i (by omega) (by omega)
  · intro i hl hh
    rw [cap] at hh
    rw [at', if_neg (mod_ne_of_lt (by omega) (by omega)).symm]
    exact h.empty i (by omega) (by omega)
  · intro i hl hh
    rw [tier]
    by_cases last : i = n
    · simpa [last] using fits
    · rw [Function.update_of_ne last]
      exact h.fits i (by omega) (by omega)

theorem tear {q : RingFile} {left : Record} (h : Holding r lo n log)
    (slots : q.slots = Function.update r.slots (n % r.capacity) left)
    (cap : q.capacity = r.capacity) (tier : q.tier = r.tier) (torn : decodeRecord left = none) :
    Holding q (max lo (n + 1 - r.capacity)) n log := by
  have pos := r.capacity_pos
  have low := h.low
  have room := h.room
  have at' := sampleAt_update slots cap
  refine ⟨by omega, by rw [cap]; omega, ?_, ?_, ?_⟩
  · intro i hl hh
    rw [at', if_neg (mod_ne_of_lt (by omega) (by omega))]
    exact h.holds i (by omega) (by omega)
  · intro i hl hh
    rw [cap] at hh
    rw [at']
    split
    · exact torn
    · rename_i other
      by_cases last : i = n
      · exact absurd (by rw [last]) other
      · by_cases wrapped : i < lo + r.capacity
        · exact h.empty i (by omega) wrapped
        · omega
  · intro i hl hh
    rw [tier]
    exact h.fits i (by omega) (by omega)

theorem liveSamples_eq (h : Holding r lo n log) (index : r.widx = n) :
    r.liveSamples = (List.range' lo (n - lo)).map log := by
  have low := h.low
  have total := r.oldest_add_count
  have room := r.widx_le_oldest_add
  have bound := r.count_le_capacity
  have start : r.oldest ≤ lo := by
    have cap := h.room
    simp only [RingFile.oldest, RingFile.count, index]
    omega
  -- Below `lo` the live range has only the slots that the log does not fill.
  have below : (List.range' r.oldest (lo - r.oldest)).filterMap r.sampleAt = [] := by
    rw [List.filterMap_eq_nil_iff]
    intro i member
    have inside := List.mem_range'_1.mp member
    rw [← sampleAt_congr (Nat.add_mod_right i r.capacity)]
    exact h.empty _ (by omega) (by omega)
  have above : (List.range' lo (n - lo)).filterMap r.sampleAt = (List.range' lo (n - lo)).map log := by
    rw [← List.filterMap_eq_map]
    apply List.filterMap_congr
    intro i member
    have inside := List.mem_range'_1.mp member
    exact h.holds i inside.1 (by omega)
  have split : List.range' r.oldest r.count =
      List.range' r.oldest (lo - r.oldest) ++ List.range' lo (n - lo) := by
    rw [show r.count = (lo - r.oldest) + (n - lo) by omega, ← List.range'_append_1,
      Nat.add_sub_cancel' start]
  rw [RingFile.liveSamples, split, List.filterMap_append, below, above, List.nil_append]

theorem live (h : Holding r lo n log) (index : r.widx = n) {i : Nat} {s : Sample} (live : r.Live i s) :
    lo ≤ i ∧ i < n ∧ s = log i := by
  obtain ⟨low, high, read⟩ := live
  have room := h.room
  have total := r.widx_le_oldest_add
  by_cases below : i < lo
  · rw [← sampleAt_congr (Nat.add_mod_right i r.capacity), h.empty _ (by omega) (by omega)] at read
    cases read
  · rw [h.holds i (by omega) (by omega)] at read
    cases read
    exact ⟨by omega, by omega, rfl⟩

theorem timeOrdered (h : Holding r lo n log) (index : r.widx = n)
    (ordered : ∀ i j, lo ≤ i → i < j → j < n → (log i).ts ≤ (log j).ts) : r.TimeOrdered := by
  intro i j s t liveI liveJ less
  obtain ⟨low, -, rfl⟩ := h.live index liveI
  obtain ⟨-, high, rfl⟩ := h.live index liveJ
  exact ordered i j low less high

end Holding

/-! ## Completed appends -/

theorem appendAll_holding {tier : UInt8} (capacity : Nat) (pos : 0 < capacity)
    (records : List (FittingRecord tier)) :
    let r := (RingFile.create tier capacity pos).appendAll records
    r.Quiescent ∧ r.tier = tier ∧ r.capacity = capacity ∧ r.widx = records.length ∧
      Holding r (records.length - capacity) records.length
        fun i => (records.map FittingRecord.sample).getD i 0 := by
  induction records using List.reverseRecOn with
  | nil =>
      refine ⟨RingFile.create_quiescent tier capacity pos, rfl, rfl, rfl, ?_⟩
      rw [List.length_nil, Nat.zero_sub]
      exact Holding.create tier capacity pos _
  | append_singleton records record ih =>
      obtain ⟨quiescent, tier_eq, cap, widx, holding⟩ := ih
      let r := (RingFile.create tier capacity pos).appendAll records
      have next : (RingFile.create tier capacity pos).appendAll (records ++ [record]) =
          (r.append record.bytes .written).2 := by
        simp [RingFile.appendAll, r]
      have appended := r.append_written record.size
      have slots : (r.append record.bytes .written).2.slots =
          Function.update r.slots (records.length % r.capacity) record.bytes := by
        rw [appended, RingFile.slot, widx]
      have fits : levelFitsRing r.tier record.sample.level = true := by rw [tier_eq]; exact record.fits
      rw [next]
      refine ⟨r.append_written_quiescent record.size, ?_, ?_, ?_, ?_⟩
      · rw [appended]; exact tier_eq
      · rw [appended]; exact cap
      · rw [appended, List.length_append]
        simp [r, widx]
      · have written := holding.write slots (by rw [appended]) (by rw [appended]) record.decodes fits
        rw [show r.capacity = capacity from cap] at written
        rw [List.length_append, List.length_singleton,
          show records.length + 1 - capacity = max (records.length - capacity) (records.length + 1 - capacity)
            by omega]
        refine written.log_congr fun i _ high => ?_
        rcases Nat.lt_succ_iff_lt_or_eq.mp high with before | rfl
        · rw [Function.update_of_ne (by omega), List.map_append, List.getD_eq_getElem?_getD,
            List.getD_eq_getElem?_getD, List.getElem?_append_left (by simpa using before)]
        · simp [List.getD_eq_getElem?_getD]

def l3Record (timestampNanos : UInt64) : FittingRecord 1 :=
  .encode 1 (mkSample .L3 timestampNanos) (show ValidLevel 3 by decide) rfl

theorem l3Record_ts (timestampNanos : UInt64) : (l3Record timestampNanos).sample.ts = timestampNanos.toNat :=
  rfl

end Budyk.Proof
