import Budyk.Proof.Holding
import Budyk.Storage.Crash

namespace Budyk.Proof
open Lib Storage

/-! ## Counting the records past the write index -/

theorem unindexedRun_ge (r : RingFile) (now left n prevTs : Nat) :
    n ≤ r.unindexedRun now left n prevTs := by
  induction left generalizing n prevTs with
  | zero => exact le_rfl
  | succ left ih =>
      rw [RingFile.unindexedRun]
      split
      · exact le_rfl
      · split
        · exact le_rfl
        · exact (Nat.le_succ n).trans (ih _ _)

theorem unindexedRun_stop {r : RingFile} {now left n prevTs : Nat}
    (stop : ∀ s, r.readFitting (r.widx + n) = some s → s.ts ≤ prevTs ∨ s.ts > now) :
    r.unindexedRun now left n prevTs = n := by
  cases left with
  | zero => rfl
  | succ left =>
      rw [RingFile.unindexedRun]
      cases read : r.readFitting (r.widx + n) with
      | none => rfl
      | some s => simp only [if_pos (stop s read)]

namespace Holding
variable {r : RingFile} {lo n : Nat} {log : Nat → Sample}

/-- The write index stands at the end of the log. In a ring of one slot the index may lag behind
the log, since there every index has the same slot. -/
def Indexed (r : RingFile) (n : Nat) : Prop :=
  r.widx = n ∨ r.capacity = 1 ∧ 1 ≤ r.widx ∧ r.widx ≤ n

theorem Indexed.mod_eq {r : RingFile} {n : Nat} (index : Indexed r n) (k : Nat) :
    (r.widx + k) % r.capacity = (n + k) % r.capacity := by
  rcases index with eq | ⟨one, -⟩
  · rw [eq]
  · rw [one, Nat.mod_one, Nat.mod_one]

theorem newestIndexedTs_eq (h : Holding r lo n log) (index : Indexed r n) (some : lo < n) :
    r.newestIndexedTs = (log (n - 1)).ts := by
  have pos := r.capacity_pos
  have widx_pos : 1 ≤ r.widx := by rcases index with eq | ⟨-, one, -⟩ <;> omega
  have newest : r.readFitting (r.widx - 1 - 0) = .some (log (n - 1)) := by
    rw [h.readFitting_eq, ← h.holds (n - 1) (by omega) (by omega)]
    apply sampleAt_congr
    rcases index with eq | ⟨one, -⟩
    · rw [eq, Nat.sub_zero]
    · rw [one, Nat.mod_one, Nat.mod_one]
  obtain ⟨c, count⟩ : ∃ c, r.count = c + 1 :=
    ⟨r.count - 1, by simp only [RingFile.count]; omega⟩
  rw [RingFile.newestIndexedTs, count, List.range_succ_eq_map, List.findSome?_cons, newest]
  rfl

theorem liveSamples_indexed (h : Holding r lo n log) (index : Indexed r n) :
    r.liveSamples = (List.range' lo (n - lo)).map log := by
  rcases index with eq | ⟨one, low, high⟩
  · exact h.liveSamples_eq eq
  · have same : r.liveSamples = RingFile.liveSamples { r with widx := n } := by
      have count : r.count = 1 := by simp only [RingFile.count, one]; omega
      have count' : RingFile.count { r with widx := n } = 1 := by simp only [RingFile.count, one]; omega
      have at' : r.sampleAt (r.widx - 1) = r.sampleAt (n - 1) :=
        sampleAt_congr (by rw [one, Nat.mod_one, Nat.mod_one])
      simp only [RingFile.liveSamples, RingFile.oldest, count, count', List.range'_one,
        List.filterMap_cons, List.filterMap_nil, at']
      rfl
    rw [same]
    exact (h.congr (q := { r with widx := n }) rfl rfl rfl).liveSamples_eq rfl

theorem countUnindexed_zero (h : Holding r lo n log) (index : Indexed r n) (clock nowNs : Nat)
    (older : n = lo + r.capacity → (log lo).ts ≤ (log (n - 1)).ts) :
    countUnindexed clock r nowNs = 0 := by
  have pos := r.capacity_pos
  apply unindexedRun_stop
  intro s read
  rw [h.readFitting_eq, sampleAt_congr (index.mod_eq 0)] at read
  rcases Nat.lt_or_ge n (lo + r.capacity) with free | full
  · rw [h.empty (n + 0) le_rfl free] at read
    cases read
  · have wrapped : n = lo + r.capacity := le_antisymm h.room full
    have first : r.sampleAt (n + 0) = some (log lo) := by
      rw [← h.holds lo le_rfl (by omega), Nat.add_zero, wrapped]
      exact sampleAt_congr (Nat.add_mod_right _ _)
    rw [first] at read
    cases read
    left
    rw [h.newestIndexedTs_eq index (by omega)]
    exact older wrapped

theorem countUnindexed_pos (h : Holding r lo n log) (index : Indexed r n) (clock nowNs : Nat)
    (full : n = lo + r.capacity) (newer : (log (n - 1)).ts < (log lo).ts)
    (past : (log lo).ts ≤ if nowNs = 0 then clock else nowNs) : 0 < countUnindexed clock r nowNs := by
  have pos := r.capacity_pos
  have first : r.readFitting (r.widx + 0) = some (log lo) := by
    rw [h.readFitting_eq, sampleAt_congr (index.mod_eq 0), ← h.holds lo le_rfl (by omega),
      Nat.add_zero, full]
    exact sampleAt_congr (Nat.add_mod_right _ _)
  have prev := h.newestIndexedTs_eq index (by omega)
  obtain ⟨c, capacity⟩ : ∃ c, r.capacity = c + 1 := ⟨r.capacity - 1, by omega⟩
  rw [countUnindexed, capacity, RingFile.unindexedRun, first, prev]
  simp only [if_neg (not_or.mpr ⟨newer.not_ge, past.not_gt⟩)]
  exact unindexedRun_ge r _ _ 1 _

theorem countUnindexed_one (h : Holding r lo (n + 1) log) (index : r.widx = n) (clock : Nat)
    (before : lo ≤ n) (some : n = 0 ∨ lo < n)
    (increasing : ∀ i j, i < j → j < n + 1 → (log i).ts < (log j).ts)
    (positive : 0 < (log n).ts) (past : (log n).ts ≤ clock) :
    countUnindexed clock r = 1 := by
  have pos := r.capacity_pos
  have room := h.room
  have prev : r.newestIndexedTs < (log n).ts := by
    rcases some with zero | more
    · have none : r.count = 0 := by simp only [RingFile.count]; omega
      rw [RingFile.newestIndexedTs, none]
      exact positive
    · have indexed : r.readFitting (r.widx - 1 - 0) = .some (log (n - 1)) := by
        rw [h.readFitting_eq, index, Nat.sub_zero]
        exact h.holds (n - 1) (by omega) (by omega)
      obtain ⟨c, count⟩ : ∃ c, r.count = c + 1 :=
        ⟨r.count - 1, by simp only [RingFile.count]; omega⟩
      rw [RingFile.newestIndexedTs, count, List.range_succ_eq_map, List.findSome?_cons, indexed]
      exact increasing (n - 1) n (by omega) (by omega)
  have first : r.readFitting (r.widx + 0) = .some (log n) := by
    rw [h.readFitting_eq, index]
    exact h.holds n before (by omega)
  obtain ⟨c, capacity⟩ : ∃ c, r.capacity = c + 1 := ⟨r.capacity - 1, by omega⟩
  have go : ¬((log n).ts ≤ r.newestIndexedTs ∨ (log n).ts > clock) := by omega
  rw [countUnindexed, if_pos rfl, capacity, RingFile.unindexedRun, first]
  simp only [if_neg go]
  cases c with
  | zero => rfl
  | succ c =>
      -- The next slot is free, or holds the record of the lap before.
      apply unindexedRun_stop
      intro s read
      rw [h.readFitting_eq, index] at read
      rcases Nat.lt_or_ge (n + 1) (lo + r.capacity) with free | full
      · rw [h.empty (n + (0 + 1)) (by omega) (by omega)] at read
        cases read
      · have wrapped : n + 1 = lo + r.capacity := le_antisymm room full
        have oldest : r.sampleAt (n + (0 + 1)) = .some (log lo) := by
          rw [← h.holds lo le_rfl (by omega), show n + (0 + 1) = lo + r.capacity by omega]
          exact sampleAt_congr (Nat.add_mod_right _ _)
        rw [oldest] at read
        cases read
        left
        exact (increasing lo n (by omega) (by omega)).le

end Holding

/-! ## The slots' history -/

theorem survivors_append (pwrites : List (Nat × Option Sample)) (slot : Nat) (s : Option Sample) :
    survivors (pwrites ++ [(slot, s)]) =
      (survivors pwrites).filter (fun k => k.1 ≠ slot) ++ s.toList.map fun s => (slot, s) := by
  simp only [survivors, List.foldl_append, List.foldl_cons, List.foldl_nil]

def placed (cap : Nat) (log : Nat → Sample) (lo n : Nat) : List (Nat × Sample) :=
  (List.range' lo (n - lo)).map fun i => (i % cap, log i)

theorem placed_filter {cap lo n : Nat} (log : Nat → Sample) (pos : 0 < cap) (room : n ≤ lo + cap) :
    (placed cap log lo n).filter (fun k => k.1 ≠ n % cap) = placed cap log (max lo (n + 1 - cap)) n := by
  have others : ∀ m, lo ≤ m → n < m + cap →
      (placed cap log m n).filter (fun k => k.1 ≠ n % cap) = placed cap log m n := by
    intro m _ near
    rw [List.filter_eq_self]
    intro k member
    obtain ⟨i, inside, rfl⟩ := List.mem_map.mp member
    have bounds := List.mem_range'_1.mp inside
    simpa using mod_ne_of_lt (by omega : i < n) (by omega)
  rcases Nat.lt_or_ge n (lo + cap) with free | full
  · rw [show max lo (n + 1 - cap) = lo by omega]
    exact others lo le_rfl free
  · have wrapped : n = lo + cap := le_antisymm room full
    have head : placed cap log lo n = (lo % cap, log lo) :: placed cap log (lo + 1) n := by
      rw [placed, show n - lo = (n - (lo + 1)) + 1 by omega, List.range'_succ]
      rfl
    have taken : ¬lo % cap ≠ n % cap := by simp [wrapped]
    rw [show max lo (n + 1 - cap) = lo + 1 by omega, head, List.filter_cons, if_neg (by simpa using taken)]
    exact others (lo + 1) (by omega) (by omega)

theorem placed_update {cap lo n : Nat} (log : Nat → Sample) (s : Sample) (low : lo ≤ n) :
    placed cap log lo n ++ [(n % cap, s)] = placed cap (Function.update log n s) lo (n + 1) := by
  have before : placed cap (Function.update log n s) lo n = placed cap log lo n := by
    apply List.map_congr_left
    intro i inside
    have bounds := List.mem_range'_1.mp inside
    rw [Function.update_of_ne (by omega)]
  rw [← before, placed, placed, show n + 1 - lo = (n - lo) + 1 by omega, List.range'_concat,
    List.map_append, Nat.one_mul, Nat.add_sub_cancel' low]
  simp

/-! ## Histories -/

/-- The ring between two episodes: it holds the items `lo ≤ i < n` of the log of completed
records, every one of them newer than the one before and none newer than `last`. -/
structure Recovered (tier : UInt8) (r : RingFile) (pwrites : List (Nat × Option Sample)) (last : Nat)
    (lo n : Nat) (log : Nat → Sample) : Prop where
  tier_eq : r.tier = tier
  quiescent : r.Quiescent
  holding : Holding r lo n log
  index : Holding.Indexed r n
  filled : n = 0 ∨ lo < n ∨ r.capacity = 1
  increasing : ∀ i j, i < j → j < n → (log i).ts < (log j).ts
  positive : ∀ i, i < n → 0 < (log i).ts
  latest : ∀ i, i < n → (log i).ts ≤ last
  survivors_eq : survivors pwrites = placed r.capacity log lo n
  completed_eq : completed pwrites = (List.range n).map log
  clean : (∀ w ∈ pwrites, w.2.isSome) → lo = n - r.capacity

namespace Recovered
variable {tier : UInt8} {r q : RingFile} {pwrites : List (Nat × Option Sample)} {last lo n : Nat}
  {log : Nat → Sample}

theorem slot_eq (h : Recovered tier r pwrites last lo n log) : r.slot = n % r.capacity := by
  simpa [RingFile.slot] using h.index.mod_eq 0

theorem countUnindexed_zero (h : Recovered tier r pwrites last lo n log) (clock : Nat) :
    countUnindexed clock r = 0 := by
  apply h.holding.countUnindexed_zero h.index
  intro full
  have pos := r.capacity_pos
  rcases Nat.eq_or_lt_of_le (show lo ≤ n - 1 by omega) with same | less
  · rw [← same]
  · exact (h.increasing lo (n - 1) less (by omega)).le

theorem recover_self (h : Recovered tier r pwrites last lo n log) (clock : Nat) :
    (recover clock r).1 = r := by
  simp [recover, h.countUnindexed_zero clock]

theorem later (h : Recovered tier r pwrites last lo n log) {last' : Nat} (le : last ≤ last') :
    Recovered tier r pwrites last' lo n log :=
  { h with latest := fun i less => (h.latest i less).trans le }

theorem same (h : Recovered tier r pwrites last lo n log) (slots : q.slots = r.slots)
    (cap : q.capacity = r.capacity) (tier_eq : q.tier = r.tier) (widx : q.widx = r.widx)
    (quiescent : q.Quiescent) : Recovered tier q pwrites last lo n log :=
  { h with
    tier_eq := tier_eq.trans h.tier_eq
    quiescent := quiescent
    holding := h.holding.congr slots cap tier_eq
    index := by simpa only [Holding.Indexed, widx, cap] using h.index
    filled := by simpa only [cap] using h.filled
    survivors_eq := by simpa only [cap] using h.survivors_eq
    clean := by simpa only [cap] using h.clean }

theorem tear (h : Recovered tier r pwrites last lo n log) {left : Record}
    (slots : q.slots = Function.update r.slots r.slot left) (torn : decodeRecord left = none)
    (cap : q.capacity = r.capacity) (tier_eq : q.tier = r.tier) (widx : q.widx = r.widx)
    (quiescent : q.Quiescent) :
    Recovered tier q (pwrites ++ [(r.slot, none)]) last (max lo (n + 1 - r.capacity)) n log := by
  have pos := r.capacity_pos
  have low := h.holding.low
  rw [h.slot_eq] at slots ⊢
  exact
  { h with
    tier_eq := tier_eq.trans h.tier_eq
    quiescent := quiescent
    holding := h.holding.tear slots cap tier_eq torn
    index := by simpa only [Holding.Indexed, widx, cap] using h.index
    filled := by rw [cap]; rcases h.filled with zero | more | one <;> omega
    survivors_eq := by
      rw [survivors_append, h.survivors_eq, placed_filter log pos h.holding.room, cap]
      simp
    completed_eq := by simpa [completed] using h.completed_eq
    clean := fun all => by simpa using all (n % r.capacity, none) (by simp) }

theorem grow (h : Recovered tier r pwrites last lo n log) {record : FittingRecord tier}
    (newer : last < record.sample.ts)
    (slots : q.slots = Function.update r.slots r.slot record.bytes)
    (cap : q.capacity = r.capacity) (tier_eq : q.tier = r.tier) (index : Holding.Indexed q (n + 1))
    (quiescent : q.Quiescent) :
    Recovered tier q (pwrites ++ [(r.slot, some record.sample)]) record.sample.ts
      (max lo (n + 1 - r.capacity)) (n + 1) (Function.update log n record.sample) := by
  have pos := r.capacity_pos
  have low := h.holding.low
  have room := h.holding.room
  have fits : levelFitsRing r.tier record.sample.level = true := by rw [h.tier_eq]; exact record.fits
  rw [h.slot_eq] at slots ⊢
  have old (i : Nat) (less : i < n) : Function.update log n record.sample i = log i :=
    Function.update_of_ne (by omega) _ _
  refine
  { tier_eq := tier_eq.trans h.tier_eq
    quiescent := quiescent
    holding := h.holding.write slots cap tier_eq record.decodes fits
    index := index
    filled := Or.inr (Or.inl (by omega))
    increasing := ?_, positive := ?_, latest := ?_, survivors_eq := ?_, completed_eq := ?_, clean := ?_ }
  · intro i j less bound
    rcases Nat.lt_succ_iff_lt_or_eq.mp bound with before | rfl
    · rw [old i (by omega), old j before]
      exact h.increasing i j less before
    · rw [old i less, Function.update_self]
      exact lt_of_le_of_lt (h.latest i less) newer
  · intro i bound
    rcases Nat.lt_succ_iff_lt_or_eq.mp bound with before | rfl
    · rw [old i before]
      exact h.positive i before
    · rw [Function.update_self]
      omega
  · intro i bound
    rcases Nat.lt_succ_iff_lt_or_eq.mp bound with before | rfl
    · rw [old i before]
      exact (h.latest i before).trans newer.le
    · rw [Function.update_self]
  · rw [survivors_append, h.survivors_eq, placed_filter log pos room, cap]
    exact placed_update log record.sample (by omega)
  · have mapped : (List.range n).map (Function.update log n record.sample) = (List.range n).map log :=
      List.map_congr_left fun i member => old i (List.mem_range.mp member)
    rw [completed, List.filterMap_append, ← completed, h.completed_eq, List.range_succ, List.map_append,
      mapped]
    simp
  · intro all
    have tight := h.clean fun w member => all w (by simp [member])
    rw [cap]
    omega

theorem grow_unindexed (h : Recovered tier r pwrites last lo n log) {record : FittingRecord tier}
    {clock : Nat} (newer : last < record.sample.ts) (past : record.sample.ts ≤ clock) :
    Recovered tier (recover clock (r.appendUntil record.bytes .afterPwrite).reopen).1
      (pwrites ++ [(r.slot, some record.sample)]) record.sample.ts
      (max lo (n + 1 - r.capacity)) (n + 1) (Function.update log n record.sample) := by
  have pos := r.capacity_pos
  have low := h.holding.low
  have fits : levelFitsRing r.tier record.sample.level = true := by rw [h.tier_eq]; exact record.fits
  let file := (r.appendUntil record.bytes .afterPwrite).reopen
  have widx : file.widx = r.widx := h.quiescent.writeIdx_eq
  have slots : file.slots = Function.update r.slots r.slot record.bytes := rfl
  have holding : Holding file (max lo (n + 1 - r.capacity)) (n + 1)
      (Function.update log n record.sample) := by
    rw [h.slot_eq] at slots
    exact h.holding.write slots rfl rfl record.decodes fits
  by_cases lag : r.capacity = 1 ∧ 1 ≤ n
  · -- One slot: the record is found at the index of the one it replaced.
    have index : Holding.Indexed file (n + 1) := by
      refine Or.inr ⟨lag.1, ?_⟩
      rw [widx]
      rcases h.index with eq | ⟨-, one, le⟩ <;> omega
    have recovered := h.grow newer slots rfl rfl index (RingFile.reopen_quiescent _)
    rw [recovered.recover_self clock]
    exact recovered
  · have index : r.widx = n := by
      rcases h.index with eq | ⟨one, le⟩
      · exact eq
      · omega
    have counted : countUnindexed clock file = 1 := by
      apply holding.countUnindexed_one (widx.trans index) clock (by omega)
      · rcases h.filled with zero | more | one <;> omega
      · intro i j less bound
        rcases Nat.lt_succ_iff_lt_or_eq.mp bound with before | rfl
        · rw [Function.update_of_ne (by omega), Function.update_of_ne (by omega)]
          exact h.increasing i j less before
        · rw [Function.update_of_ne (by omega), Function.update_self]
          exact lt_of_le_of_lt (h.latest i less) newer
      · rw [Function.update_self]; omega
      · rw [Function.update_self]; exact past
    have advanced : (recover clock file).1 = file.advanceWriteIndex 1 := by
      simp [recover, counted]
    rw [advanced]
    refine h.grow newer slots rfl rfl (Or.inl ?_) ⟨rfl, rfl⟩
    rw [RingFile.advanceWriteIndex, widx, index]

theorem episode (h : Recovered tier r pwrites last lo n log) (e : Episode tier)
    {es : List (Episode tier)} (timed : WellTimed last (e :: es)) :
    ∃ last' lo' n' log', Recovered tier (r.episode e) (pwrites ++ r.pwrites e) last' lo' n' log' ∧
      WellTimed last' es := by
  cases e with
  | append record =>
      obtain ⟨newer, rest⟩ := timed
      have index : Holding.Indexed (r.append record.bytes .written).2 (n + 1) := by
        rw [r.append_written record.size]
        rcases h.index with eq | ⟨one, low, high⟩
        · exact Or.inl (by simp [eq])
        · exact Or.inr ⟨one, by simp, by simp [high]⟩
      have appended := r.append_written record.size
      refine ⟨_, _, _, _, h.grow (q := (r.append record.bytes .written).2) newer ?_ ?_ ?_ index
        (r.append_written_quiescent record.size), rest⟩ <;> rw [appended]
  | crash record point clock =>
      obtain ⟨newer, past, rest⟩ := timed
      have widx := h.quiescent.writeIdx_eq
      cases point with
      | beforePwrite =>
          have kept := (h.later newer.le).same (q := r.raiseBegun.reopen) rfl rfl rfl widx
            (RingFile.reopen_quiescent _)
          refine ⟨_, lo, n, log, ?_, rest⟩
          rw [RingFile.episode, RingFile.appendUntil, kept.recover_self clock, RingFile.pwrites,
            List.append_nil]
          exact kept
      | torn left =>
          have torn := (h.later newer.le).tear (q := (r.raiseBegun.putSlot left.bytes).reopen) rfl
            left.torn rfl rfl widx (RingFile.reopen_quiescent _)
          refine ⟨_, max lo (n + 1 - r.capacity), n, log, ?_, rest⟩
          rw [RingFile.episode, RingFile.appendUntil, torn.recover_self clock]
          exact torn
      | afterPwrite => exact ⟨_, _, _, _, h.grow_unindexed newer past, rest⟩
      | afterWriteIdx =>
          have index : Holding.Indexed ((r.raiseBegun.putSlot record.bytes).putWriteIdx).reopen (n + 1) := by
            rcases h.index with eq | ⟨one, low, high⟩
            · exact Or.inl (by simp [RingFile.reopen, RingFile.putWriteIdx, RingFile.putSlot,
                RingFile.raiseBegun, eq])
            · refine Or.inr ⟨one, ?_, ?_⟩ <;>
                simp [RingFile.reopen, RingFile.putWriteIdx, RingFile.putSlot, RingFile.raiseBegun, high]
          have grown := h.grow (q := ((r.raiseBegun.putSlot record.bytes).putWriteIdx).reopen) newer rfl rfl
            rfl index (RingFile.reopen_quiescent _)
          refine ⟨_, max lo (n + 1 - r.capacity), n + 1, Function.update log n record.sample, ?_, rest⟩
          rw [RingFile.episode, RingFile.appendUntil, grown.recover_self clock]
          exact grown
  | restart clock =>
      have kept := h.same (q := r.reopen) rfl rfl rfl h.quiescent.writeIdx_eq (RingFile.reopen_quiescent _)
      refine ⟨last, lo, n, log, ?_, timed.2⟩
      rw [RingFile.episode, kept.recover_self clock, RingFile.pwrites, List.append_nil]
      exact kept

theorem history (h : Recovered tier r pwrites last lo n log) (es : List (Episode tier))
    (timed : WellTimed last es) :
    ∃ last' lo' n' log', Recovered tier (r.history es).1 (pwrites ++ (r.history es).2) last' lo' n' log' := by
  induction es generalizing r pwrites last lo n log with
  | nil => exact ⟨last, lo, n, log, by simpa [RingFile.history] using h⟩
  | cons e es ih =>
      obtain ⟨last', lo', n', log', next, rest⟩ := h.episode e timed
      simpa [RingFile.history, List.append_assoc] using ih next rest

end Recovered

theorem created (tier : UInt8) (capacity : Nat) (pos : 0 < capacity) (log : Nat → Sample) :
    Recovered tier (RingFile.create tier capacity pos) [] 0 0 0 log where
  tier_eq := rfl
  quiescent := RingFile.create_quiescent tier capacity pos
  holding := Holding.create tier capacity pos log
  index := Or.inl rfl
  filled := Or.inl rfl
  increasing := fun _ j _ less => absurd less (Nat.not_lt_zero j)
  positive := fun i less => absurd less (Nat.not_lt_zero i)
  latest := fun i less => absurd less (Nat.not_lt_zero i)
  survivors_eq := rfl
  completed_eq := rfl
  clean := fun _ => (Nat.zero_sub _).symm

theorem episode_capacity {tier : UInt8} (r : RingFile) (e : Episode tier) :
    (r.episode e).capacity = r.capacity := by
  have recovered (clock : Nat) (file : RingFile) : (recover clock file).1.capacity = file.capacity := by
    simp only [recover]
    split <;> rfl
  cases e with
  | append record => rw [RingFile.episode, r.append_written record.size]
  | crash record point clock =>
      rw [RingFile.episode, recovered]
      cases point <;> rfl
  | restart clock =>
      rw [RingFile.episode, recovered]
      rfl

theorem history_capacity {tier : UInt8} (r : RingFile) (es : List (Episode tier)) :
    (r.history es).1.capacity = r.capacity := by
  induction es generalizing r with
  | nil => rfl
  | cons e es ih => rw [RingFile.history, ih, episode_capacity]

/-- Crash recovery: after any history of appends and crashes, the live records are the completed
ones that still have their slot, the newest there are, and the next append takes the slot after
the newest. -/
theorem crash_recovery (tier : UInt8) (capacity : Nat) (pos : 0 < capacity)
    (es : List (Episode tier)) (timed : WellTimed 0 es) :
    let h := (RingFile.create tier capacity pos).history es
    h.1.liveSamples = (survivors h.2).map Prod.snd ∧
    (survivors h.2).map Prod.snd <:+ completed h.2 ∧
    ((∀ w ∈ h.2, w.2.isSome) →
      h.1.liveSamples = (completed h.2).drop ((completed h.2).length - capacity)) ∧
    ∀ slot s, (survivors h.2).getLast? = some (slot, s) → h.1.slot = (slot + 1) % capacity := by
  intro h
  have cap : h.1.capacity = capacity := history_capacity _ es
  obtain ⟨last, lo, n, log, final⟩ := (created tier capacity pos fun _ => 0).history es timed
  rw [List.nil_append] at final
  have low := final.holding.low
  have live := final.holding.liveSamples_indexed final.index
  have kept : (survivors h.2).map Prod.snd = (List.range' lo (n - lo)).map log := by
    rw [final.survivors_eq, placed, List.map_map]
    rfl
  have suffix (k : Nat) : ((List.range n).map log).drop k = (List.range' k (n - k)).map log := by
    rw [← List.map_drop, List.range_eq_range', List.drop_range', Nat.zero_add]
    simp
  refine ⟨live.trans kept.symm, ?_, ?_, ?_⟩
  · rw [kept, final.completed_eq, ← suffix lo]
    exact List.drop_suffix lo _
  · intro clean
    have tight := final.clean clean
    rw [cap] at tight
    rw [final.completed_eq, List.length_map, List.length_range, suffix, ← tight]
    exact live
  · intro slot s newest
    rw [final.survivors_eq, placed, List.getLast?_map] at newest
    obtain ⟨i, member, placed⟩ := Option.map_eq_some_iff.mp newest
    have most : lo < n := by
      by_contra none
      rw [show n - lo = 0 by omega] at member
      simp at member
    have i_eq : i = n - 1 := by
      rw [show n - lo = (n - 1 - lo) + 1 by omega, List.range'_concat, List.getLast?_concat] at member
      cases member
      omega
    have slot_eq : i % capacity = slot := by
      rw [← cap]
      exact congrArg Prod.fst placed
    have next : h.1.slot = n % h.1.capacity := final.slot_eq
    rw [next, cap, ← slot_eq, i_eq, Nat.mod_add_mod, Nat.sub_add_cancel (by omega)]

def wrappedHistory (left : TornRecord) : List (Episode 1) :=
  [.append (l3Record 1), .append (l3Record 2), .append (l3Record 3), .crash (l3Record 4) (.torn left) 9,
    .crash (l3Record 5) .afterPwrite 9]

def noRecord : TornRecord := ⟨List.replicate recordSizeForSample 0, decodeRecord_zero⟩

theorem crash_recovery_wrapped :
    WellTimed 0 (wrappedHistory noRecord) ∧
    ((RingFile.create 1 2 (by decide)).history (wrappedHistory noRecord)).1.liveSamples =
      (survivors ((RingFile.create 1 2 (by decide)).history (wrappedHistory noRecord)).2).map Prod.snd := by
  have timed : WellTimed 0 (wrappedHistory noRecord) := by
    simp only [wrappedHistory, WellTimed, l3Record_ts]
    decide
  exact ⟨timed, (crash_recovery 1 2 (by decide) _ timed).1⟩

/-! ## No false recovery -/

theorem reopened_holding {tier : UInt8} (capacity : Nat) (pos : 0 < capacity)
    (records : List (FittingRecord tier)) :
    let r := ((RingFile.create tier capacity pos).appendAll records).reopen
    r.capacity = capacity ∧ r.widx = records.length ∧
      Holding r (records.length - capacity) records.length
        fun i => (records.map FittingRecord.sample).getD i 0 := by
  obtain ⟨quiescent, -, cap, widx, holding⟩ := appendAll_holding capacity pos records
  exact ⟨cap, quiescent.writeIdx_eq.trans widx, holding.congr rfl rfl rfl⟩

/-- In a full ring the oldest record, which the next append overwrites, is not newer than the newest. -/
def OldestNotNewer {tier : UInt8} (capacity : Nat) (records : List (FittingRecord tier)) : Prop :=
  let samples := records.map FittingRecord.sample
  capacity ≤ samples.length →
    (samples.getD (samples.length - capacity) 0).ts ≤ (samples.getD (samples.length - 1) 0).ts

/-- The ring of the completed appends, closed and opened again, is left as it was by the recovery:
nothing is counted, and the next append goes to the slot of the oldest record. -/
def LeftAlone {tier : UInt8} (capacity : Nat) (pos : 0 < capacity) (records : List (FittingRecord tier))
    (clock nowNs : Nat) : Prop :=
  let ring := ((RingFile.create tier capacity pos).appendAll records).reopen
  let started := (recover (if nowNs = 0 then clock else nowNs) ring).1
  countUnindexed clock ring nowNs = 0 ∧ started.widx = records.length ∧
    (capacity ≤ records.length → started.slot = (records.length - capacity) % capacity)

theorem countUnindexed_now (clock nowNs : Nat) (r : RingFile) :
    countUnindexed (if nowNs = 0 then clock else nowNs) r = countUnindexed clock r nowNs := by
  simp [countUnindexed]

/-- The recovery leaves a ring of completed appends, none still in it stamped after now, alone exactly when its oldest
record is not newer than its newest: a clock that stepped back by more than the ring spans, and has caught up
since, has old records counted as new. -/
theorem no_false_recovery {tier : UInt8} (capacity : Nat) (pos : 0 < capacity)
    (records : List (FittingRecord tier)) (clock nowNs : Nat)
    (past : ∀ record ∈ records.drop (records.length - capacity),
      record.sample.ts ≤ if nowNs = 0 then clock else nowNs) :
    LeftAlone capacity pos records clock nowNs ↔ OldestNotNewer capacity records := by
  obtain ⟨cap, index, held⟩ := reopened_holding capacity pos records
  let ring := ((RingFile.create tier capacity pos).appendAll records).reopen
  constructor
  · intro alone full
    by_contra newer
    rw [List.length_map] at full newer
    have counted := held.countUnindexed_pos (Or.inl index) clock nowNs (by omega) (not_le.mp newer) (by
      have bound : records.length - capacity < records.length := by omega
      have member : records[records.length - capacity] ∈ records.drop (records.length - capacity) := by
        rw [List.drop_eq_getElem_cons bound]
        exact List.mem_cons_self
      simpa [List.getD_eq_getElem?_getD, bound] using past _ member)
    rw [alone.1] at counted
    exact Nat.lt_irrefl 0 counted
  · intro older
    have zero : countUnindexed clock ring nowNs = 0 :=
      held.countUnindexed_zero (Or.inl index) clock nowNs fun full => by
        have := older (by rw [List.length_map]; omega)
        rwa [List.length_map] at this
    have started : (recover (if nowNs = 0 then clock else nowNs) ring).1 = ring := by
      simp [recover, countUnindexed_now, zero]
    refine ⟨zero, by rw [started]; exact index, fun full => ?_⟩
    rw [started, RingFile.slot, index, cap]
    exact Nat.mod_eq_sub_mod full

/-- The first of the three is overwritten, so that it may be of a clock that was ahead. -/
theorem no_false_recovery_in_order :
    LeftAlone 2 (by decide) [l3Record 50, l3Record 2, l3Record 3] 9 0 ↔
      OldestNotNewer 2 [l3Record 50, l3Record 2, l3Record 3] :=
  no_false_recovery 2 (by decide) _ 9 0 (by
    simp only [List.length_cons, List.length_nil, List.drop_succ_cons, List.drop_zero, List.forall_mem_cons, l3Record_ts]
    decide)

theorem stepped_back_counted : ¬LeftAlone 2 (by decide) [l3Record 5, l3Record 1] 9 0 := by
  intro alone
  obtain ⟨cap, index, held⟩ := reopened_holding 2 (by decide) [l3Record 5, l3Record 1]
  have counted := held.countUnindexed_pos (Or.inl index) 9 0 (by rw [cap]; rfl) (by decide) (by decide)
  rw [alone.1] at counted
  exact Nat.lt_irrefl 0 counted

end Budyk.Proof
